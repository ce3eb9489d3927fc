-- SUMMARY: Runs in which the id counter comes round: 2^64 schedules have drawn their ids and wait for the lock.
import MillIo.TimerWheel.System

/-!
# Runs in which the ids come round

`fetch_add` on an `AtomicU64` wraps, and nothing looks whether the id that it
returns is in use. The schedules that draw the ids in between need not have
taken the lock yet, so the wheel itself is as it was when its first timers have
been scheduled.
-/
namespace TimerWheel

open Interleaving

variable {ok : State → Step → Prop} {s v : State} {as bs : List Step} {start : Instant}

/-- A condition on steps that lets schedules enter and does not look at the threads in front. -/
structure Unhindered (ok : State → Step → Prop) : Prop where
  schedule (s : State) (request : Request) : ok s (.env (.schedule request))
  behind (pre : List Call) (x : Shared) (ts : List Call) (a : Step) :
    ok ⟨x, ts⟩ a → ok ⟨x, pre ++ ts⟩ (a.behind pre.length)

theorem unhindered_unrestricted : Unhindered Unrestricted := ⟨fun _ _ => trivial, fun _ _ _ _ => id⟩

/-- A condition on a call and what the calls share. -/
theorem unhindered_threadSteps {p : Shared → Call → Outcome → Prop} :
    Unhindered (Machine.ThreadSteps fun s t o => p s.shared t o) where
  schedule _ _ := trivial
  behind pre x ts a h := by
    cases a with
    | env e => trivial
    | act i o => exact fun t ht => h t ((Machine.getElem?_behind pre ts i).symm.trans ht)

/-- Schedules that draw their ids and go no further. -/
theorem run_draws (hok : Unhindered ok) (request : Request) (s : State) (n : ℕ) :
    ∃ ts, Run system.step ok s (.replicate n (.env (.schedule request)))
        ⟨{ s.shared with nextId := s.shared.nextId + n }, s.threads ++ ts⟩ ∧
      ∀ t ∈ ts, ∃ id, t = .scheduling id request := by
  induction n with
  | zero => exact ⟨[], by simpa using .refl, by simp⟩
  | succ n ih =>
    obtain ⟨ts, hrun, hts⟩ := ih
    refine ⟨ts ++ [.scheduling ((s.shared.nextId + n) % 2 ^ 64) request], ?_, ?_⟩
    · rw [List.replicate_succ', ← List.append_assoc]
      exact hrun.snoc (hok.schedule _ request) rfl
    · intro t ht
      rcases List.mem_append.1 ht with ht | ht
      · exact hts t ht
      · exact ⟨_, List.mem_singleton.1 ht⟩

/-- After a run, `n` further draws and what happens then: the threads of the first part and
    the waiting schedules stand in front. -/
theorem exists_run_after_draws (hok : Unhindered ok) (h : Run system.step ok (initial start) as s)
    (n : ℕ) : ∃ pre : List Call,
      (∀ t ∈ pre, t ∈ s.threads ∨ ∃ id request, t = .scheduling id request) ∧
      ∀ bs v, Run system.step ok ⟨{ s.shared with nextId := s.shared.nextId + n }, []⟩ bs v →
        ∃ cs, Run system.step ok (initial start) cs ⟨v.shared, pre ++ v.threads⟩ := by
  obtain ⟨ts, hdraws, hts⟩ := run_draws hok (.once 0) s n
  refine ⟨s.threads ++ ts, fun t ht => ?_, fun bs v hv => ?_⟩
  · rcases List.mem_append.1 ht with ht | ht
    · exact .inl ht
    · obtain ⟨id, rfl⟩ := hts t ht
      exact .inr ⟨id, _, rfl⟩
  · have hrest := Machine.run_behind (s.threads ++ ts) (hok.behind _) hv
    rw [List.append_nil] at hrest
    exact ⟨_, (h.trans hdraws).trans hrest⟩

end TimerWheel
