-- SUMMARY: The timer wheel while its ids do not come round: the system that numbers all timers, and the runs that it shares with the source.
import MillIo.TimerWheel.System

/-!
# Timer ids that do not come round

`next_id` is a 64-bit counter, so the id of a live timer is drawn again after
2^64 schedules. The timers of `serial` are numbered without a bound, and its
runs are the runs of the source that draw fewer than 2^64 ids. What needs
distinct ids is proved of `serial`.
-/
namespace TimerWheel

open Interleaving

/-- A call enters and draws a new id if it schedules, or time passes. -/
def enterSerial (s : Shared) : Invocation → Shared × List Call
  | .schedule request => ({ s with nextId := s.nextId + 1 }, [.scheduling s.nextId request])
  | invocation => enter s invocation

/-- A schedule differs in the id that it has drawn, and leaves the same behind. -/
theorem enterSerial_fst (s : Shared) (i : Invocation) : (enterSerial s i).1 = (enter s i).1 := by
  cases i <;> rfl

def serial : Machine Shared Call Invocation Outcome where
  env s invocation := some (enterSerial s invocation)
  act := proceed

variable {s u : State} {a : Step}

/-- All that a step can do: a call enters, or one call goes on. -/
theorem serial_step_cases (h : serial.step s a = some u) :
    (∃ e, a = .env e ∧
      u = ⟨(enterSerial s.shared e).1, s.threads ++ (enterSerial s.shared e).2⟩) ∨
    (∃ o s' t t', ∃ l l' : List Call, a = .act l.length o ∧ s.threads = l ++ t :: l' ∧
      Acts s.shared t s' t' ∧ u = ⟨s', l ++ t' :: l'⟩) := by
  rcases Machine.step_cases h with ⟨e, r, rfl, hr, rfl⟩ | ⟨o, t, ⟨s', t'⟩, l, l', rfl, hts, hr, rfl⟩
  · cases hr
    exact .inl ⟨e, rfl, rfl⟩
  · exact .inr ⟨o, s', t, t', l, l', rfl, hts, acts_of_proceed hr, rfl⟩

/-! ## The runs of the source -/

/-- A step draws at most one id, and a thread draws none. -/
theorem nextId_le_of_step (h : system.step s a = some u) : s.shared.nextId ≤ u.shared.nextId := by
  rcases Machine.step_cases h with ⟨e, r, rfl, hr, rfl⟩ | ⟨o, t, ⟨s', t'⟩, l, l', rfl, hts, hr, rfl⟩
  · cases hr
    cases e
    case schedule => exact Nat.le_succ _
    all_goals exact Nat.le_refl _
  · exact (acts_of_proceed hr).nextId_eq.ge

/-- An id below 2^64 is drawn as it is, and the other steps do not differ. -/
theorem serial_step_iff (hids : u.shared.nextId ≤ 2 ^ 64) :
    serial.step s a = some u ↔ system.step s a = some u := by
  cases a with
  | act i o => exact Iff.rfl
  | env e =>
    cases e with
    | schedule request =>
      rw [Machine.step_env_iff, Machine.step_env_iff]
      constructor
      · rintro ⟨r, hr, rfl⟩
        cases hr
        have hlt : s.shared.nextId < 2 ^ 64 := hids
        exact ⟨_, rfl, by simp only [enter, enterSerial, Nat.mod_eq_of_lt hlt]⟩
      · rintro ⟨r, hr, rfl⟩
        cases hr
        have hlt : s.shared.nextId < 2 ^ 64 := hids
        exact ⟨_, rfl, by simp only [enter, enterSerial, Nat.mod_eq_of_lt hlt]⟩
    | cancel | tick | timeUntilNext | elapse => exact Iff.rfl

theorem nextId_le_of_serial_step (h : serial.step s a = some u) :
    s.shared.nextId ≤ u.shared.nextId := by
  rcases serial_step_cases h with ⟨e, -, rfl⟩ | ⟨_, _, _, _, _, _, -, -, hacts, rfl⟩
  · cases e
    case schedule => exact Nat.le_succ _
    all_goals exact Nat.le_refl _
  · exact hacts.nextId_eq.ge

variable {ok : State → Step → Prop} {as : List Step}

theorem nextId_le_of_run (h : Run system.step ok s as u) : s.shared.nextId ≤ u.shared.nextId :=
  h.invariant (I := fun t => s.shared.nextId ≤ t.shared.nextId) (Nat.le_refl _)
    fun _ _ _ hle _ hs => hle.trans (nextId_le_of_step hs)

/-- A run of the source that draws fewer than 2^64 ids is a run of the system that
    numbers its timers. -/
theorem serial_of_run (h : Run system.step ok s as u) (hids : u.shared.nextId ≤ 2 ^ 64) :
    Run serial.step ok s as u :=
  h.of_within hids (fun _ _ _ hs ht => (nextId_le_of_step hs).trans ht)
    fun _ _ _ hs ht => (serial_step_iff ht).2 hs

/-- As `serial_of_run`, for a run, a step of interest and the run after it. -/
theorem serial_of_runs {r v : State} {ok' : State → Step → Prop} {bs : List Step}
    (h : Run system.step ok r as s) (hs : system.step s a = some u)
    (hv : Run system.step ok' u bs v) (hids : v.shared.nextId ≤ 2 ^ 64) :
    Run serial.step ok r as s ∧ serial.step s a = some u ∧ Run serial.step ok' u bs v := by
  have hidsu := (nextId_le_of_run hv).trans hids
  exact ⟨serial_of_run h ((nextId_le_of_step hs).trans hidsu), (serial_step_iff hidsu).2 hs,
    serial_of_run hv hids⟩

theorem run_of_serial (h : Run serial.step ok s as u) (hids : u.shared.nextId ≤ 2 ^ 64) :
    Run system.step ok s as u :=
  h.of_within hids (fun _ _ _ hs ht => (nextId_le_of_serial_step hs).trans ht)
    fun _ _ _ hs ht => (serial_step_iff ht).1 hs

end TimerWheel
