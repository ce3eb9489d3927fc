-- SUMMARY: A stop request is not lost if the loop has stored its flag before: the loop begins no other cycle and returns.
import MillIo.Reactor.Run
import MillIo.Interleaving.Progress
import Mathlib.Data.Prod.Lex
import Mathlib.Order.WellFounded

/-!
# Stopping the loop

A stop stores the flag and wakes the poll. A loop that reads the flag after that
returns, and one that has read it before finds the wake pending when it polls. The
loop itself stores the flag when it starts, so a stop that comes before this store
is overwritten.
-/
namespace Reactor

open Interleaving TimerWheel

namespace Thread

/-- A stop that has stored the flag. -/
def hasStopped : Thread → Bool
  | stop .waking => true
  | stop .returned => true
  | _ => false

/-- A loop that has read the flag and whose poll has not returned. -/
def polls : Thread → Bool
  | loop .evaluating => true
  | loop (.entering _ _) => true
  | loop (.polling _ _) => true
  | _ => false

end Thread

/-- The loop stores its flag while no stop has stored it. -/
def StoresFirst : State → Step → Prop := Machine.ThreadSteps fun s t _ =>
  t = .loop .storing → ∀ t' ∈ s.threads, t'.hasStopped = false

instance : DecidableRel StoresFirst := by unfold StoresFirst; infer_instance

structure Stopping (s : State) : Prop where
  stopped : (∃ t ∈ s.threads, t.hasStopped = true) → s.shared.running = false
  woken : .stop .returned ∈ s.threads → (∃ t ∈ s.threads, t.polls = true) → s.shared.awake = true

/-- The loop goes on. Its poll returns for a wake only: no event comes and no timeout
    runs out. -/
inductive Advances : State → State → Prop
  | step {s s' : Shared} {l l' : List Thread} {t : Loop} {t' : Thread} {o : Choice}
      (hstored : t ≠ .storing)
      (hwoken : ∀ timeout evaluated, t = .polling timeout evaluated → s.awake = true)
      (hact : proceed s (.loop t) o = some (s', t')) :
      Advances ⟨s, l ++ .loop t :: l'⟩ ⟨s', l ++ t' :: l'⟩

/-- No loop is left, except for one that has yet to store its flag. -/
def Exited (s : State) : Prop := ∀ t ∈ s.threads, t.loops = 1 → t = .loop .storing

section Stop

variable {s s' : Shared} {t t' : Thread} {l l' : List Thread}

/-! ## The flag and the wake -/

theorem hasStopped_act (h : Acts s t s' t') (ht' : t'.hasStopped = true) :
    t.hasStopped = true ∨ t = .stop .storing := by
  cases h with
  | stopStore => exact .inr rfl
  | stopWake => exact .inl rfl
  | _ => cases ht'

theorem polls_of_not_loops (h : t.loops = 0) : t.polls = false := by
  cases t with
  | loop t => cases t <;> first | rfl | cases h
  | schedule t => rfl
  | stop t => rfl

theorem Regular.not_polls_others (h : Regular ⟨s, l ++ t :: l'⟩) (ht : t.loops = 1)
    (ht' : t'.polls = false) : ¬ ∃ t'' ∈ l ++ t' :: l', t''.polls = true := by
  intro hpolls
  rcases Machine.exists_threads_at.1 hpolls with hown | ⟨t'', ht'', hother⟩
  · cases ht'.symm.trans hown
  · cases (polls_of_not_loops (h.others ht t'' ht'')).symm.trans hother

theorem Stopping.act {o : Choice} (h : Stopping ⟨s, l ++ t :: l'⟩) (hr : Regular ⟨s, l ++ t :: l'⟩)
    (hok : StoresFirst ⟨s, l ++ t :: l'⟩ (.act l.length o)) (hacts : Acts s t s' t') :
    Stopping ⟨s', l ++ t' :: l'⟩ := by
  refine ⟨fun hsome => ?_, fun hreturned hpolls => ?_⟩
  · -- Only the store of a loop sets the flag, and no stop has stored it then.
    have hbefore : (∃ t'' ∈ l ++ t :: l', t''.hasStopped = true) ∨ t = .stop .storing := by
      rcases Machine.exists_threads_at.1 hsome with hown | hothers
      · exact (hasStopped_act hacts hown).imp_left fun hold => Machine.exists_threads_at.2 (.inl hold)
      · exact .inl (Machine.exists_threads_at.2 (.inr hothers))
    rcases hbefore with hold | rfl
    · have hflag := h.stopped hold
      cases hacts with
      | store =>
        obtain ⟨t'', ht'', hstop⟩ := hold
        cases (Machine.threadSteps_at.1 hok rfl t'' ht'').symm.trans hstop
      | stopStore => rfl
      | _ => exact hflag
    · cases hacts
      rfl
  · have hbefore : t' ≠ .stop .returned → .stop .returned ∈ l ++ t :: l' := by
      intro hne
      have hmem : .stop .returned ∈ l ++ t' :: l' := hreturned
      simp only [List.mem_append, List.mem_cons] at hmem ⊢
      exact hmem.imp_right fun hmem => .inr (hmem.resolve_left (Ne.symm hne))
    cases hacts with
    | begin hrunning =>
      have hflag := h.stopped ⟨_, hbefore nofun, rfl⟩
      cases hflag.symm.trans hrunning
    | evaluate => exact h.woken (hbefore nofun) (Machine.exists_threads_at.2 (.inl rfl))
    | poll timeout evaluated =>
      exact h.woken (hbefore nofun) (Machine.exists_threads_at.2 (.inl rfl))
    | stopStore | insert =>
      refine h.woken (hbefore nofun) ?_
      rcases Machine.exists_threads_at.1 hpolls with hown | hothers
      · cases hown
      · exact Machine.exists_threads_at.2 (.inr hothers)
    | wake | stopWake => rfl
    | _ => exact absurd hpolls (hr.not_polls_others rfl rfl)

theorem Stopping.enter {e : Input} {ts : List Thread} (h : Stopping ⟨s, l⟩)
    (he : enter s e = some (s', ts)) : Stopping ⟨s', l ++ ts⟩ := by
  have hnew : ∀ t ∈ ts, t.hasStopped = false ∧ t.polls = false := by
    cases e with
    | run =>
      simp only [Reactor.enter] at he
      split at he
      · cases he
      · cases he
        simp [Thread.hasStopped, Thread.polls]
    | _ =>
      cases he
      simp [Thread.hasStopped, Thread.polls]
  have hshared : s'.running = s.running ∧ s'.awake = s.awake := by
    cases e with
    | run =>
      simp only [Reactor.enter] at he
      split at he
      · cases he
      · cases he
        exact ⟨rfl, rfl⟩
    | _ =>
      cases he
      exact ⟨rfl, rfl⟩
  have hold : ∀ f : Thread → Bool, (∀ t ∈ ts, f t = false) → (∃ t ∈ l ++ ts, f t = true) →
      ∃ t ∈ l, f t = true := by
    rintro f hf ⟨t, ht, hft⟩
    rcases List.mem_append.1 ht with ht | ht
    · exact ⟨t, ht, hft⟩
    · cases (hf t ht).symm.trans hft
  refine ⟨fun hsome => ?_, fun hreturned hpolls => ?_⟩
  · exact hshared.1.trans (h.stopped (hold _ (fun t ht => (hnew t ht).1) hsome))
  · refine hshared.2.trans (h.woken ?_ (hold _ (fun t ht => (hnew t ht).2) hpolls))
    refine (List.mem_append.1 hreturned).resolve_right fun hmem => ?_
    cases (hnew _ hmem).1

/-- What holds in every run that stores the flag first. -/
structure Orderly (s : State) : Prop where
  regular : Regular s
  stopping : Stopping s

theorem Orderly.step {s u : State} {a : Step} (h : Orderly s) (hok : StoresFirst s a)
    (hs : system.step s a = some u) : Orderly u := by
  obtain ⟨x, ts⟩ := s
  rcases Machine.step_cases hs with ⟨e, r, rfl, hr, rfl⟩ | ⟨o, t, r, l, l', rfl, hts, hr, rfl⟩
  · exact ⟨h.regular.enter hr, h.stopping.enter hr⟩
  · obtain rfl : ts = l ++ t :: l' := hts
    have hacts := acts_of_proceed hr
    exact ⟨h.regular.act hacts, h.stopping.act h.regular hok hacts⟩

theorem orderly_of_run {start : Instant} {pollTimeoutMs : ℕ} {as : List Step} {s : State}
    (h : Run system.step StoresFirst (initial start pollTimeoutMs) as s) : Orderly s := by
  have hstart : Run system.step StoresFirst (initial start pollTimeoutMs) [] _ := .refl
  refine h.invariant ⟨regular_of_run hstart, ?_⟩ fun _ _ _ hinv hok hs => hinv.step hok hs
  constructor <;> simp [initial]

/-- A stop that has returned stays in the list of threads. -/
theorem returned_step {s u : State} {a : Step} (hs : system.step s a = some u)
    (hreturned : .stop .returned ∈ s.threads) : .stop .returned ∈ u.threads := by
  obtain ⟨x, ts⟩ := s
  rcases Machine.step_cases hs with
    ⟨e, r, rfl, hr, rfl⟩ | ⟨o, t, ⟨y, t'⟩, l, l', rfl, hts, hr, rfl⟩
  · exact List.mem_append_left _ hreturned
  · obtain rfl : ts = l ++ t :: l' := hts
    have hacts : Acts x t y t' := acts_of_proceed hr
    have hne : Thread.stop .returned ≠ t := by
      rintro rfl
      cases hacts
    simp only [List.mem_append, List.mem_cons] at hreturned ⊢
    exact hreturned.imp_right fun hmem => .inr (hmem.resolve_left hne)

/-- After a stop no cycle begins. -/
theorem cycles_step {s u : State} {a : Step} (h : Stopping s) (hs : system.step s a = some u)
    (hreturned : .stop .returned ∈ s.threads) : u.shared.cycles = s.shared.cycles := by
  rcases Machine.step_cases hs with
    ⟨e, r, rfl, hr, rfl⟩ | ⟨o, t, ⟨y, t'⟩, l, l', rfl, hts, hr, rfl⟩
  · cases e with
    | run =>
      simp only [system, enter] at hr
      split at hr
      · cases hr
      · cases hr
        rfl
    | _ =>
      cases hr
      rfl
  · have hacts : Acts s.shared t y t' := acts_of_proceed hr
    cases hacts with
    | begin hrunning => cases (h.stopped ⟨_, hreturned, rfl⟩).symm.trans hrunning
    | _ => rfl

/-! ## Returning -/

/-- How far the loop is from its end. -/
def Loop.rank : Loop → ℕ
  | storing => 0
  | evaluating => 9
  | entering _ _ => 8
  | polling _ _ => 7
  | dispatching _ => 6
  | ticking (.advanced _) => 4
  | ticking (.firing _ _) => 3
  | ticking (.running _ _ _) => 3
  | ticking .done => 2
  | ticking _ => 5
  | testing => 1
  | returned => 0

/-- What is left to do at that rank. -/
def Loop.work : Loop → ℕ
  | dispatching events => events
  | ticking (.firing expired _) => 2 * expired.length
  | ticking (.running _ expired _) => 2 * expired.length + 1
  | _ => 0

def Thread.rank : Thread → ℕ
  | loop t => t.rank
  | _ => 0

def Thread.work : Thread → ℕ
  | loop t => t.work
  | _ => 0

def remaining (s : State) : ℕ ×ₗ ℕ :=
  toLex (Machine.total Thread.rank s.threads, Machine.total Thread.work s.threads)

theorem remaining_lt (h : t'.rank < t.rank ∨ (t'.rank = t.rank ∧ t'.work < t.work)) :
    remaining ⟨s', l ++ t' :: l'⟩ < remaining ⟨s, l ++ t :: l'⟩ := by
  rw [remaining, remaining, Prod.Lex.toLex_lt_toLex]
  simp only [Machine.total_append, Machine.total_cons]
  rcases h with hrank | ⟨hrank, hwork⟩
  · left
    omega
  · right
    omega

theorem closer_of_loop {t : Loop} {t' : Thread} (h : Acts s (.loop t) s' t')
    (hstopped : s.running = false) (hstored : t ≠ .storing) :
    t'.rank < t.rank ∨ (t'.rank = t.rank ∧ t'.work < t.work) := by
  cases h with
  | store => exact absurd rfl hstored
  | begin hrunning => cases hstopped.symm.trans hrunning
  | dispatch events => exact .inr ⟨rfl, Nat.lt_succ_self events⟩
  | advance call call' wheel hcall =>
    cases hcall with
    | start entry expired toReschedule => exact .inr ⟨rfl, by simp [Thread.work, Loop.work]; omega⟩
    | callbackReturns entry expired toReschedule => exact .inr ⟨rfl, Nat.lt_succ_self _⟩
    | _ => exact .inl (by simp [Thread.rank, Loop.rank])
  | panic call wheel hcall => cases hcall <;> exact .inl (by simp [Thread.rank, Loop.rank])
  | _ => exact .inl (by simp [Thread.rank, Loop.rank])

/-- A call of the wheel goes on until it is done. -/
theorem exists_proceed (w : TimerWheel.Shared) {call : Call} (h : call ≠ .done) :
    ∃ r, TimerWheel.proceed w call .returns = some r := by
  cases call with
  | done => exact absurd rfl h
  | advanced expired =>
    unfold TimerWheel.proceed
    simp only
    split <;> exact ⟨_, rfl⟩
  | firing expired toReschedule =>
    cases expired with
    | nil =>
      unfold TimerWheel.proceed
      simp only
      split <;> exact ⟨_, rfl⟩
    | cons entry expired => exact ⟨_, rfl⟩
  | _ => exact ⟨_, rfl⟩

/-- A loop that is in progress can go on. -/
theorem exists_loop_proceed (s : Shared) {t : Loop} (h : t ≠ .returned) :
    ∃ o r, proceed s (.loop t) o = some r := by
  cases t with
  | returned => exact absurd rfl h
  | testing =>
    refine ⟨.goes, ?_⟩
    simp only [proceed, Loop.proceed]
    split <;> exact ⟨_, rfl⟩
  | polling timeout evaluated => exact ⟨.polls 0 true, _, rfl⟩
  | dispatching events => cases events <;> exact ⟨.goes, _, rfl⟩
  | ticking call =>
    refine ⟨.goes, ?_⟩
    by_cases hdone : call = .done
    · subst hdone
      exact ⟨_, rfl⟩
    · obtain ⟨r, hr⟩ := exists_proceed s.wheel hdone
      cases call with
      | done => exact absurd rfl hdone
      | _ => exact ⟨_, by simp only [proceed, Loop.proceed, hr, Option.map_some]; rfl⟩
  | _ => exact ⟨.goes, _, rfl⟩

/-- In every run in which the loop stores its flag before any stop does: when a stop
    has returned the flag is false, no further cycle begins, and the loop returns even
    if no event comes and no timeout runs out. -/
theorem stop_not_lost {start : Instant} {pollTimeoutMs : ℕ} {as : List Step} {s : State}
    (h : Run system.step StoresFirst (initial start pollTimeoutMs) as s)
    (hreturned : .stop .returned ∈ s.threads) :
    s.shared.running = false ∧
    (∀ bs u, Run system.step StoresFirst s bs u → u.shared.cycles = s.shared.cycles) ∧
    Inevitably Advances Exited s := by
  have horderly := orderly_of_run h
  refine ⟨horderly.stopping.stopped ⟨_, hreturned, rfl⟩, fun bs u hu => ?_, ?_⟩
  · have hinv : (Orderly u ∧ .stop .returned ∈ u.threads) ∧ u.shared.cycles = s.shared.cycles := by
      refine hu.invariant (I := fun u => (Orderly u ∧ .stop .returned ∈ u.threads) ∧
        u.shared.cycles = s.shared.cycles) ⟨⟨horderly, hreturned⟩, rfl⟩ ?_
      rintro t a v ⟨⟨ho, hret⟩, hcycles⟩ hok hs
      exact ⟨⟨ho.step hok hs, returned_step hs hret⟩, (cycles_step ho.stopping hs hret).trans hcycles⟩
    exact hinv.2
  · have hstep : ∀ s u, Advances s u → ∃ a, StoresFirst s a ∧ system.step s a = some u := by
      rintro _ _ ⟨hstored, _, hact⟩
      refine ⟨.act _ _, Machine.threadSteps_at.2 fun heq => ?_, Machine.step_act_at (r := (_, _)) rfl hact⟩
      exact absurd (Thread.loop.inj heq) hstored
    refine .of_measure (I := fun u => Orderly u ∧ .stop .returned ∈ u.threads) wellFounded_lt
      remaining ?_ ?_ ?_ ⟨horderly, hreturned⟩
    · rintro s u ⟨ho, hret⟩ hadv
      obtain ⟨a, hok, hs⟩ := hstep s u hadv
      exact ⟨ho.step hok hs, returned_step hs hret⟩
    · rintro _ _ ⟨ho, hret⟩ ⟨hstored, _, hact⟩
      exact remaining_lt (closer_of_loop (acts_of_proceed hact)
        (ho.stopping.stopped ⟨_, hret, rfl⟩) hstored)
    · rintro ⟨x, ts⟩ ⟨ho, hret⟩ hstuck t ht hloops
      by_contra hne
      obtain ⟨l, l', rfl⟩ := List.append_of_mem ht
      cases t with
      | schedule t => cases hloops
      | stop t => cases hloops
      | loop t =>
        have hover : t ≠ .returned := by
          rintro rfl
          cases hloops
        obtain ⟨o, ⟨s', t'⟩, hact⟩ := exists_loop_proceed x hover
        refine hstuck _ (.step (fun heq => hne (heq ▸ rfl)) (fun timeout evaluated heq => ?_) hact)
        exact ho.stopping.woken hret ⟨_, ht, heq ▸ rfl⟩

end Stop

/-- A stop while the loop polls for the first time. -/
def stoppedWhilePolling : List Step :=
  [.env .run, .act 0 .goes, .act 0 .goes, .act 0 .goes, .act 0 .goes, .env .stop, .act 1 .goes,
    .act 1 .goes]

theorem stop_not_lost_polling : ∃ s,
    Run system.step StoresFirst (initial 0 150) stoppedWhilePolling s ∧
    .loop (.polling (fromMillis 150) 0) ∈ s.threads ∧ Inevitably Advances Exited s := by
  have hend : ∃ s, Run system.step StoresFirst (initial 0 150) stoppedWhilePolling s ∧
      .loop (.polling (fromMillis 150) 0) ∈ s.threads ∧ .stop .returned ∈ s.threads :=
    Run.exists_of_exec (by decide +kernel)
  obtain ⟨s, hrun, hpolling, hreturned⟩ := hend
  exact ⟨s, hrun, hpolling, (stop_not_lost hrun hreturned).2.2⟩

/-- The stop comes before the loop stores its flag: it has returned, no other call of
    `run` was made, and the loop reads a flag that is true. -/
theorem stop_lost : ∃ s, Run system.step Unrestricted (initial 0 150)
      [.env .run, .env .stop, .act 1 .goes, .act 1 .goes, .act 0 .goes] s ∧
    .stop .returned ∈ s.threads ∧ .loop .testing ∈ s.threads ∧ s.shared.running = true :=
  Run.exists_of_exec (by decide +kernel)

end Reactor
