-- SUMMARY: The timer wheel of the reactor goes through a run of the timer wheel: what holds of the wheel in all of its runs holds in the reactor.
import MillIo.Reactor.Run
import MillIo.TimerWheel.Waiting

/-!
# The wheel under the reactor

To the timer wheel the threads of the reactor are callers like any others. A loop ticks again
and again in one thread, where the system of the wheel has a thread for each call, so the
two agree on the calls that are in progress, and not on their order.
-/
namespace Reactor

open Interleaving TimerWheel

/-- The calls that are in progress. -/
def busy (ts : List Call) : List Call := ts.filter fun t => t ≠ .done

/-- The same wheel, and the same calls in progress. -/
structure Mirrors (s : State) (w : TimerWheel.State) : Prop where
  shared : w.shared = s.shared.wheel
  calls : (busy w.threads).Perm (busy (s.threads.map Thread.call))

section Wheel

variable {s s' : Shared} {t t' : Thread} {l l' : List Thread} {w : TimerWheel.State}

@[simp]
theorem busy_nil : busy [] = [] := rfl

@[simp]
theorem busy_append (ts us : List Call) : busy (ts ++ us) = busy ts ++ busy us :=
  List.filter_append ts us

@[simp]
theorem busy_done (ts : List Call) : busy (.done :: ts) = busy ts := rfl

theorem busy_cons {call : Call} (h : call ≠ .done) (ts : List Call) :
    busy (call :: ts) = call :: busy ts :=
  List.filter_cons_of_pos (by simpa using h)

theorem busy_cons_perm (call : Call) (ts us : List Call) :
    (busy (ts ++ call :: us)).Perm (busy [call] ++ (busy ts ++ busy us)) := by
  rw [busy_append, ← List.singleton_append, busy_append]
  exact List.perm_append_comm_assoc _ _ _

/-! ## Steps -/

/-- What a step of a thread is to the wheel: nothing, a call that enters, or a call that goes
    on. -/
theorem call_of_proceed {o : Choice} (h : proceed s t o = some (s', t')) :
    (s'.wheel = s.wheel ∧ t'.call = t.call) ∨
    (t.call = .done ∧ ∃ i, TimerWheel.enter s.wheel i = (s'.wheel, busy [t'.call])) ∨
    ∃ o, TimerWheel.proceed s.wheel t.call o = some (s'.wheel, t'.call) := by
  cases t with
  | loop t =>
    obtain ⟨⟨s', t'⟩, hr, heq⟩ := Option.map_eq_some_iff.1 h
    cases heq
    unfold Loop.proceed at hr
    split at hr
    · cases hr
      exact .inl ⟨rfl, rfl⟩
    · split at hr <;> cases hr <;> exact .inl ⟨rfl, rfl⟩
    · cases hr
      exact .inr (.inl ⟨rfl, .timeUntilNext, rfl⟩)
    · cases hr
      exact .inl ⟨rfl, rfl⟩
    · cases hr
      exact .inl ⟨rfl, rfl⟩
    · cases hr
      exact .inl ⟨rfl, rfl⟩
    · cases hr
      exact .inl ⟨rfl, rfl⟩
    · cases hr
      exact .inl ⟨rfl, rfl⟩
    · cases hr
      exact .inr (.inl ⟨rfl, .tick, rfl⟩)
    · cases hr
      exact .inl ⟨rfl, rfl⟩
    · obtain ⟨⟨wheel, call'⟩, hcall, heq⟩ := Option.map_eq_some_iff.1 hr
      cases heq
      exact .inr (.inr ⟨.returns, hcall⟩)
    · obtain ⟨⟨wheel, call'⟩, hcall, heq⟩ := Option.map_eq_some_iff.1 hr
      cases heq
      obtain rfl := done_of_panics hcall
      exact .inr (.inr ⟨.panics, hcall⟩)
    · cases hr
  | schedule t =>
    obtain ⟨⟨s', t'⟩, hr, heq⟩ := Option.map_eq_some_iff.1 h
    cases heq
    unfold Schedule.proceed at hr
    split at hr
    · obtain ⟨⟨wheel, call'⟩, hcall, heq⟩ := Option.map_eq_some_iff.1 hr
      cases heq
      cases hcall
      exact .inr (.inr ⟨.returns, rfl⟩)
    · cases hr
      exact .inl ⟨rfl, rfl⟩
    · cases hr
  | stop t =>
    obtain ⟨⟨s', t'⟩, hr, heq⟩ := Option.map_eq_some_iff.1 h
    cases heq
    unfold Stop.proceed at hr
    split at hr
    · cases hr
      exact .inl ⟨rfl, rfl⟩
    · cases hr
      exact .inl ⟨rfl, rfl⟩
    · cases hr

/-- The same for what enters. -/
theorem calls_of_enter {e : Input} {ts : List Thread} (h : enter s e = some (s', ts)) :
    (s'.wheel = s.wheel ∧ busy (ts.map Thread.call) = []) ∨
    ∃ i, TimerWheel.enter s.wheel i = (s'.wheel, busy (ts.map Thread.call)) := by
  cases e with
  | run =>
    simp only [Reactor.enter] at h
    split at h <;> cases h
    exact .inl ⟨rfl, rfl⟩
  | schedule request =>
    cases h
    exact .inr ⟨.schedule request, rfl⟩
  | cancel id =>
    cases h
    exact .inr ⟨.cancel id, rfl⟩
  | stop =>
    cases h
    exact .inl ⟨rfl, rfl⟩
  | elapse d =>
    cases h
    exact .inr ⟨.elapse d, rfl⟩

/-- What a step of the reactor does to the wheel. -/
theorem wheel_of_step {a : Step} {s u : State} (hs : system.step s a = some u) :
    u.shared.wheel = s.shared.wheel ∨
    (∃ i ts, TimerWheel.enter s.shared.wheel i = (u.shared.wheel, ts)) ∨
    ∃ t t', TimerWheel.Acts s.shared.wheel t u.shared.wheel t' := by
  rcases Machine.step_cases hs with
    ⟨e, ⟨y, ts⟩, rfl, he, rfl⟩ | ⟨o, t, ⟨y, t'⟩, l, l', rfl, hts, hr, rfl⟩
  · exact (calls_of_enter he).imp And.left fun ⟨i, hi⟩ => .inl ⟨i, _, hi⟩
  · rcases call_of_proceed hr with ⟨hwheel, -⟩ | ⟨-, i, hi⟩ | ⟨o', ho'⟩
    · exact .inl hwheel
    · exact .inr (.inl ⟨i, _, hi⟩)
    · exact .inr (.inr ⟨_, _, TimerWheel.acts_of_proceed ho'⟩)

theorem clock_mono {a : Step} {s u : State} (hk : s.shared.wheel.inner.Keyed)
    (hs : system.step s a = some u) : s.shared.wheel.clock ≤ u.shared.wheel.clock := by
  rcases wheel_of_step hs with hwheel | ⟨i, ts, hi⟩ | ⟨t, t', hacts⟩
  · rw [hwheel]
  · obtain ⟨-, -, hclock, -⟩ := enter_cursor s.shared.wheel i
    rwa [enterSerial_fst, hi] at hclock
  · obtain ⟨-, hclock, -⟩ := act_cursor hk hacts
    exact hclock.ge

theorem nextId_mono {a : Step} {s u : State} (hs : system.step s a = some u) :
    s.shared.wheel.nextId ≤ u.shared.wheel.nextId := by
  rcases wheel_of_step hs with hwheel | ⟨i, ts, hi⟩ | ⟨t, t', hacts⟩
  · rw [hwheel]
  · have hstep : TimerWheel.system.step ⟨s.shared.wheel, []⟩ (.env i) = some ⟨u.shared.wheel, ts⟩ :=
      Machine.step_env_iff.2 ⟨(u.shared.wheel, ts), congrArg some hi, rfl⟩
    exact nextId_le_of_step hstep
  · exact hacts.nextId_eq.ge

/-- A call enters the wheel. -/
theorem Mirrors.join {i : TimerWheel.Invocation} {calls : List Call} {ts : List Thread}
    (h : Mirrors ⟨s, l⟩ w) (he : TimerWheel.enter s.wheel i = (s'.wheel, busy calls))
    (hcalls : (busy (ts.map Thread.call)).Perm (busy (l.map Thread.call) ++ busy calls)) :
    ∃ as w', Run TimerWheel.system.step Unrestricted w as w' ∧ Mirrors ⟨s', ts⟩ w' := by
  have hstep : TimerWheel.system.step w (.env i) = some ⟨s'.wheel, w.threads ++ busy calls⟩ := by
    refine Machine.step_env_iff.2 ⟨(s'.wheel, busy calls), congrArg some ?_, rfl⟩
    rw [h.shared]
    exact he
  refine ⟨[.env i], _, .single trivial hstep, rfl, ?_⟩
  have hidem : busy (busy calls) = busy calls := by simp [busy, List.filter_filter]
  simp only [busy_append, hidem]
  exact (h.calls.append_right _).trans hcalls.symm

theorem Mirrors.step {a : Step} {s u : State} (h : Mirrors s w) (hs : system.step s a = some u) :
    ∃ as w', Run TimerWheel.system.step Unrestricted w as w' ∧ Mirrors u w' := by
  rcases Machine.step_cases hs with
    ⟨e, ⟨y, ts⟩, rfl, he, rfl⟩ | ⟨o, t, ⟨y, t'⟩, l, l', rfl, hts, hr, rfl⟩
  · rcases calls_of_enter he with ⟨hwheel, hnone⟩ | ⟨i, hi⟩
    · exact ⟨[], w, .refl, h.shared.trans hwheel.symm, by simpa [hnone] using h.calls⟩
    · exact h.join hi (by simp)
  · obtain ⟨x, threads⟩ := s
    obtain rfl : threads = l ++ t :: l' := hts
    have hcalls := h.calls
    simp only [List.map_append, List.map_cons] at hcalls
    rcases call_of_proceed hr with ⟨hwheel, hcall⟩ | ⟨hdone, i, hi⟩ | ⟨o', ho'⟩
    · refine ⟨[], w, .refl, h.shared.trans hwheel.symm, ?_⟩
      simpa only [List.map_append, List.map_cons, hcall] using hcalls
    · refine h.join hi ?_
      have hrest : busy (l.map Thread.call ++ .done :: l'.map Thread.call) =
          busy (l.map Thread.call) ++ busy (l'.map Thread.call) := by
        rw [busy_append, busy_done]
      simp only [List.map_append, List.map_cons, hdone, hrest]
      exact (busy_cons_perm _ _ _).trans List.perm_append_comm
    · have hbusy : t.call ≠ .done := fun hdone => by
        rw [hdone] at ho'
        cases o' <;> cases ho'
      have hmem : t.call ∈ w.threads := by
        refine List.mem_of_mem_filter (hcalls.mem_iff.2 ?_)
        simp [busy_cons hbusy]
      obtain ⟨r, r', hw⟩ := List.append_of_mem hmem
      have hstep := Machine.step_act_at (m := TimerWheel.system) (c := o') hw
        (r := (y.wheel, t'.call)) (h.shared ▸ ho')
      refine ⟨_, _, .single trivial hstep, rfl, ?_⟩
      have hrest : (busy r ++ busy r').Perm
          (busy (l.map Thread.call) ++ busy (l'.map Thread.call)) := by
        rw [hw] at hcalls
        have hboth := (busy_cons_perm _ _ _).symm.trans (hcalls.trans (busy_cons_perm _ _ _))
        exact (List.perm_append_left_iff _).1 hboth
      simp only [List.map_append, List.map_cons]
      exact (busy_cons_perm _ _ _).trans ((hrest.append_left _).trans (busy_cons_perm _ _ _).symm)

/-- Every run of the reactor takes the wheel through a run of its own. -/
theorem mirrors_of_run {ok : State → Step → Prop} {start : Instant} {pollTimeoutMs : ℕ}
    {as : List Step} {s : State} (h : Run system.step ok (initial start pollTimeoutMs) as s) :
    ∃ bs w, Run TimerWheel.system.step Unrestricted (TimerWheel.initial start) bs w ∧
      Mirrors s w := by
  induction h with
  | refl => exact ⟨[], _, .refl, rfl, .refl _⟩
  | snoc _ _ hs ih =>
    obtain ⟨bs, w, hrun, hmirrors⟩ := ih
    obtain ⟨cs, w', hrun', hmirrors'⟩ := hmirrors.step hs
    exact ⟨bs ++ cs, w', hrun.trans hrun', hmirrors'⟩

end Wheel

end Reactor
