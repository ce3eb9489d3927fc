-- SUMMARY: The compute pool seen by its users as a scheduler: a bag of tasks from which at most so many at a time are taken, a foremost one each time, until it is closed.
import MillIo.ComputePool.Order
import MillIo.Interleaving.View
import Mathlib.Data.Multiset.AddSub

/-!
# The scheduler

What the pool is for. There are no locks, no condvar, no counters and no workers: tasks wait,
are taken and end. The pool refines the scheduler, and its drop does so with the closing.
-/

namespace ComputePool

open Interleaving

inductive Phase
  | open
  | closing
  | closed
  deriving DecidableEq

/-- The tasks that wait, those that have been taken and have not ended, and the tasks that have
    been submitted and that have ended, in order. -/
@[ext]
structure Scheduler where
  capacity : ℕ
  waiting : Multiset PriorityTask
  taken : Multiset PriorityTask
  submitted : List ℕ
  ended : List ℕ
  phase : Phase

namespace Scheduler

inductive Action
  | submit (t : PriorityTask)
  | take (t : PriorityTask)
  | finish (t : PriorityTask)
  | close
  | quit

def new (capacity : ℕ) : Scheduler := ⟨capacity, 0, 0, [], [], .open⟩

/-- A task is taken if no other one goes before it. What waits or has been taken keeps the
    scheduler from quitting. -/
def step (s : Scheduler) : Action → Option Scheduler
  | .submit t =>
    if s.phase = .open then
      some { s with waiting := t ::ₘ s.waiting, submitted := s.submitted ++ [t.task] }
    else none
  | .take t =>
    if t ∈ s.waiting ∧ (∀ u ∈ s.waiting, ¬ u.Precedes t) ∧ s.taken.card < s.capacity then
      some { s with waiting := s.waiting.erase t, taken := t ::ₘ s.taken }
    else none
  | .finish t =>
    if t ∈ s.taken then
      some { s with taken := s.taken.erase t, ended := s.ended ++ [t.task] }
    else none
  | .close => if s.phase = .open then some { s with phase := .closing } else none
  | .quit =>
    if s.phase = .closing ∧ s.waiting = 0 ∧ s.taken = 0 then some { s with phase := .closed }
    else none

end Scheduler

/-! ## The view of the pool -/

/-- The task that a worker has popped and not yet finished. -/
def Thread.held : Thread → List PriorityTask
  | .worker _ (.popped t) => [t]
  | .worker _ (.starting t) => [t]
  | .worker _ (.running t) => [t]
  | _ => []

def phase (s : State) : Phase :=
  if .drop .returned ∈ s.threads then .closed else if s.shared.dropped then .closing else .open

def view (s : State) : Scheduler where
  capacity := s.shared.capacity
  waiting := s.shared.queue
  taken := s.threads.flatMap Thread.held
  submitted := s.shared.spawned
  ended := s.shared.finished
  phase := phase s

section

variable {s s' : Pool} {t t' : Thread} {l l' : List Thread}

/-- Each worker holds one task at most. -/
theorem length_held_le (ts : List Thread) :
    (ts.flatMap Thread.held).length ≤ (ts.filterMap Thread.workerId).length := by
  induction ts with
  | nil => exact Nat.le_refl _
  | cons t ts ih =>
    cases t with
    | worker id w =>
      have hone : (Thread.held (.worker id w)).length ≤ 1 := by cases w <;> simp [Thread.held]
      have hself : Thread.workerId (.worker id w) = some id := rfl
      rw [List.flatMap_cons, List.length_append, List.filterMap_cons_some hself, List.length_cons]
      omega
    | spawn t => exact ih
    | drop t => exact ih

theorem held_map_task (t : Thread) : t.held.map PriorityTask.task = t.inHand := by
  cases t with
  | worker id w => cases w <;> rfl
  | _ => rfl

/-- Only the last join makes the drop return. -/
theorem returned_act (l l' : List Thread) (h : Acts s t s' t') :
    (.drop .returned ∈ l ++ t' :: l' ↔ .drop .returned ∈ l ++ t :: l') ∨
      (t = .drop (.joining s.capacity) ∧ t' = .drop .returned ∧ s' = s) := by
  cases h with
  | allJoined => exact .inr ⟨rfl, rfl, rfl⟩
  | _ => exact .inl (by simp)

theorem phase_act (h : Acts s t s' t') (hne : t' ≠ .drop .returned) :
    phase ⟨s', l ++ t' :: l'⟩ = phase ⟨s, l ++ t :: l'⟩ := by
  rcases returned_act l l' h with hreturned | ⟨-, rfl, -⟩
  · simp only [phase, hreturned, dropped_act h]
  · exact absurd rfl hne

theorem held_perm (l : List Thread) (t : Thread) (l' : List Thread) :
    ((l ++ t :: l').flatMap Thread.held).Perm (t.held ++ (l ++ l').flatMap Thread.held) := by
  rw [List.flatMap_append, List.flatMap_append, List.flatMap_cons]
  exact List.perm_append_comm_assoc _ _ _

theorem held_congr (h : t'.held = t.held) :
    (l ++ t' :: l').flatMap Thread.held = (l ++ t :: l').flatMap Thread.held := by
  rw [List.flatMap_append, List.flatMap_append, List.flatMap_cons, List.flatMap_cons, h]

/-- The scheduler does not see what leaves the tasks where they are. -/
theorem view_same (h : Acts s t s' t') (hqueue : s'.queue = s.queue) (hspawned : s'.spawned = s.spawned)
    (hfinished : s'.finished = s.finished) (hheld : t'.held = t.held) (hne : t' ≠ .drop .returned) :
    view ⟨s', l ++ t' :: l'⟩ = view ⟨s, l ++ t :: l'⟩ := by
  simp only [view, held_congr hheld, phase_act h hne, capacity_act h, hqueue, hspawned, hfinished]

theorem view_push {p : PriorityTask} (hlent : Lent ⟨s, l ++ .spawn (.locking p) :: l'⟩)
    (h : Acts s (.spawn (.locking p)) (s.push p) (.spawn (.pushed p))) :
    (view ⟨s, l ++ .spawn (.locking p) :: l'⟩).step (.submit p) =
      some (view ⟨s.push p, l ++ .spawn (.pushed p) :: l'⟩) := by
  have hopen : phase ⟨s, l ++ .spawn (.locking p) :: l'⟩ = .open := by
    have hlive : s.dropped ≠ true := fun hdropped => by
      cases hlent.not_borrowed (t := .spawn (.locking p)) hdropped (by simp)
    have hnone : .drop .returned ∉ l ++ .spawn (.locking p) :: l' :=
      fun hmem => hlive (hlent.drops _ hmem)
    rw [phase, if_neg hnone, if_neg hlive]
  refine (if_pos hopen).trans (congrArg some (Scheduler.ext rfl ?_ ?_ rfl rfl ?_))
  · exact Multiset.coe_eq_coe.2 (List.perm_append_singleton _ _).symm
  · exact congrArg Multiset.ofList (held_congr rfl)
  · exact (phase_act h nofun).symm

theorem view_pop {id i : ℕ} {p : PriorityTask} (hroster : Roster ⟨s, l ++ .worker id .leaving :: l'⟩)
    (hp : s.greatest i = some p) (h : Acts s (.worker id .leaving)
      { s with queue := s.queue.eraseIdx i } (.worker id (.popped p))) :
    (view ⟨s, l ++ .worker id .leaving :: l'⟩).step (.take p) =
      some (view ⟨{ s with queue := s.queue.eraseIdx i }, l ++ .worker id (.popped p) :: l'⟩) := by
  have hforemost := foremost_of_greatest hp
  have hfree : ((l ++ .worker id .leaving :: l').flatMap Thread.held).length < s.capacity := by
    have hself : Thread.workerId (.worker id .leaving) = some id := rfl
    have hworkers : ((l ++ .worker id .leaving :: l').filterMap Thread.workerId).length = s.capacity := by
      rw [hroster, List.length_range]
    rw [List.filterMap_append, List.filterMap_cons_some hself, List.length_append, List.length_cons]
      at hworkers
    have hothers := length_held_le (l ++ l')
    rw [List.filterMap_append, List.length_append] at hothers
    have hheld := (held_perm l (.worker id .leaving) l').length_eq
    rw [List.length_append] at hheld
    have hnone : (Thread.held (.worker id .leaving)).length = 0 := rfl
    omega
  refine (if_pos ⟨hforemost.mem, hforemost.first, hfree⟩).trans
    (congrArg some (Scheduler.ext rfl ?_ ?_ rfl rfl ?_))
  · have hqueue := Multiset.coe_eq_coe.2 (perm_of_greatest hp)
    show (s.queue : Multiset PriorityTask).erase p = s.queue.eraseIdx i
    rw [← hqueue, ← Multiset.cons_coe, Multiset.erase_cons_head]
  · have hbefore := held_perm l (.worker id .leaving) l'
    have hafter := held_perm l (.worker id (.popped p)) l'
    exact Multiset.coe_eq_coe.2 ((hbefore.cons p).trans hafter.symm)
  · exact (phase_act h nofun).symm

theorem view_finish {id nanos : ℕ} {panicked : Bool} {p : PriorityTask}
    (h : Acts s (.worker id (.running p)) { s with finished := s.finished ++ [p.task] }
      (.worker id (.measuring panicked nanos))) :
    (view ⟨s, l ++ .worker id (.running p) :: l'⟩).step (.finish p) =
      some (view ⟨{ s with finished := s.finished ++ [p.task] },
        l ++ .worker id (.measuring panicked nanos) :: l'⟩) := by
  have htaken : p ∈ (l ++ .worker id (.running p) :: l').flatMap Thread.held :=
    List.mem_flatMap.2 ⟨.worker id (.running p), by simp, List.mem_singleton_self _⟩
  refine (if_pos htaken).trans (congrArg some (Scheduler.ext rfl rfl ?_ rfl rfl ?_))
  · have hbefore := Multiset.coe_eq_coe.2 (held_perm l (.worker id (.running p)) l')
    have hafter := held_perm l (.worker id (.measuring panicked nanos)) l'
    show ((l ++ .worker id (.running p) :: l').flatMap Thread.held : Multiset PriorityTask).erase p = _
    rw [hbefore]
    exact (Multiset.erase_cons_head p _).trans (Multiset.coe_eq_coe.2 hafter.symm)
  · exact (phase_act h nofun).symm

theorem view_joined (hroster : Roster ⟨s, l ++ .drop (.joining s.capacity) :: l'⟩)
    (hlent : Lent ⟨s, l ++ .drop (.joining s.capacity) :: l'⟩)
    (hdeparted : Departed ⟨s, l ++ .drop .returned :: l'⟩) (hpos : 0 < s.capacity)
    (hfirst : .drop .returned ∉ l ++ .drop (.joining s.capacity) :: l') :
    (view ⟨s, l ++ .drop (.joining s.capacity) :: l'⟩).step .quit =
      some (view ⟨s, l ++ .drop .returned :: l'⟩) := by
  have hreturned : .drop .returned ∈ l ++ .drop .returned :: l' := by simp
  have hclosing : phase ⟨s, l ++ .drop (.joining s.capacity) :: l'⟩ = .closing := by
    rw [phase, if_neg hfirst, if_pos (hlent.drops (.joining s.capacity) (by simp))]
  have hwaiting : s.queue = [] := hdeparted.queue_of_returned hpos hreturned
  have hheld : (l ++ .drop .returned :: l').flatMap Thread.held = [] := by
    have hroster' : Roster ⟨s, l ++ .drop .returned :: l'⟩ := by
      simpa [Roster, List.filterMap_append, List.filterMap_cons, Thread.workerId] using hroster
    have hhand := hdeparted.inHand_of_returned hroster' hreturned
    rw [inHand, ← funext held_map_task, ← List.map_flatMap, List.map_eq_nil_iff] at hhand
    exact hhand
  have hsame : (l ++ .drop .returned :: l').flatMap Thread.held =
      (l ++ .drop (.joining s.capacity) :: l').flatMap Thread.held := held_congr rfl
  have hguard : (view ⟨s, l ++ .drop (.joining s.capacity) :: l'⟩).taken = 0 :=
    congrArg Multiset.ofList (hsame.symm.trans hheld)
  refine (if_pos ⟨hclosing, congrArg Multiset.ofList hwaiting, hguard⟩).trans
    (congrArg some (Scheduler.ext rfl rfl ?_ rfl rfl ?_))
  · exact congrArg Multiset.ofList hsame.symm
  · exact (if_pos hreturned).symm

/-- What a step of a thread is to the scheduler. -/
theorem view_act (h : Acts s t s' t') (hroster : Roster ⟨s, l ++ t :: l'⟩)
    (hlent : Lent ⟨s, l ++ t :: l'⟩) (hdeparted : Departed ⟨s, l ++ t :: l'⟩) (hpos : 0 < s.capacity) :
    view ⟨s', l ++ t' :: l'⟩ = view ⟨s, l ++ t :: l'⟩ ∨
      ∃ a, (view ⟨s, l ++ t :: l'⟩).step a = some (view ⟨s', l ++ t' :: l'⟩) := by
  have hact := h
  have hafter := hdeparted.act hlent h
  cases h with
  | push p hfree => exact .inr ⟨_, view_push hlent hact⟩
  | pop id i p hp => exact .inr ⟨_, view_pop hroster hp hact⟩
  | finish id p panicked nanos => exact .inr ⟨_, view_finish hact⟩
  | allJoined =>
    by_cases hfirst : .drop .returned ∈ l ++ .drop (.joining s.capacity) :: l'
    · have hreturned : .drop .returned ∈ l ++ .drop .returned :: l' := by simp
      refine .inl (Scheduler.ext rfl rfl (congrArg Multiset.ofList (held_congr rfl)) rfl rfl ?_)
      exact (if_pos hreturned).trans (if_pos hfirst).symm
    · exact .inr ⟨_, view_joined hroster hlent hafter hpos hfirst⟩
  | _ => exact .inl (view_same hact rfl rfl rfl rfl nofun)

/-- A call of `spawn` is nothing to the scheduler before its push, and the drop closes it. -/
theorem view_enter {e : Input} {ts : List Thread} (h : Enters s e s' t) (hlent : Lent ⟨s, ts⟩) :
    view ⟨s', ts ++ [t]⟩ = view ⟨s, ts⟩ ∨ ∃ a, (view ⟨s, ts⟩).step a = some (view ⟨s', ts ++ [t]⟩) := by
  have hheld : (ts ++ [t]).flatMap Thread.held = ts.flatMap Thread.held := by
    cases h <;> simp [Thread.held]
  have htaken := congrArg Multiset.ofList hheld
  have hreturned : .drop .returned ∈ ts ++ [t] ↔ .drop .returned ∈ ts := by
    cases h <;> simp
  cases h with
  | spawn priority hlive =>
    refine .inl (Scheduler.ext rfl rfl htaken rfl rfl ?_)
    simp only [view, phase, hreturned]
  | drop hlive hfree =>
    have hnone : .drop .returned ∉ ts := fun hmem => by
      cases hlive.symm.trans (hlent.drops _ hmem)
    have hopen : phase ⟨s, ts⟩ = .open := by simp [phase, hnone, hlive]
    refine .inr ⟨.close, (if_pos hopen).trans (congrArg some (Scheduler.ext rfl rfl htaken.symm rfl rfl ?_))⟩
    simp [view, phase, hnone]

end

end ComputePool
