-- SUMMARY: `ComputeThreadPool` of `mill-io/src/thread_pool.rs`: spawns, workers and the drop of the pool, interleaved at their atomic steps.
import MillIo.Interleaving.Machine
import Mathlib.Data.Int.Notation

/-!
# The compute pool

A thread is one call of `spawn`, one worker, or the drop of the pool. Its steps are
the accesses to what the threads share: the queue lock, the condvar, the shutdown
flag and each counter of the metrics. `Condvar::wait` gives the lock up and parks in
one step, and a notification that finds nobody parked is not remembered. A task is
known by the number of the `spawn` call it comes from.
-/

namespace ComputePool

open Interleaving

inductive TaskPriority
  | low
  | normal
  | high
  | critical
  deriving DecidableEq

/-- The discriminant, by which priorities are compared. -/
def TaskPriority.rank : TaskPriority → ℕ
  | low => 0
  | normal => 1
  | high => 2
  | critical => 3

structure PriorityTask where
  task : ℕ
  priority : TaskPriority
  sequence : UInt64
  deriving DecidableEq

/-- The higher priority is greater, and among equals the smaller sequence number. -/
def PriorityTask.cmp (a b : PriorityTask) : Ordering :=
  match compare a.priority.rank b.priority.rank with
  | .eq => compare b.sequence a.sequence
  | ord => ord

/-- The counters. `queueDepth` is one counter for each priority. -/
structure ComputePoolMetrics where
  tasksSubmitted : ℕ
  tasksCompleted : ℕ
  tasksFailed : ℕ
  activeWorkers : ℤ
  queueDepth : TaskPriority → ℤ
  totalExecutionTimeNs : ℕ

/-- What the threads share. `waiters` are the workers that are parked on the condvar
    and have not been notified, `exited` those whose thread has ended. A call of
    `spawn` borrows the pool, and only its owner can drop it. The last three fields
    record the tasks that have been pushed, started and ended. -/
structure Pool where
  capacity : ℕ
  queue : List PriorityTask
  locked : Bool
  waiters : List ℕ
  shutdown : Bool
  sequence : UInt64
  metrics : ComputePoolMetrics
  exited : List ℕ
  calls : ℕ
  borrows : ℕ
  dropped : Bool
  spawned : List ℕ
  started : List ℕ
  finished : List ℕ

/-- A call of `spawn`, by what it has still to do. -/
inductive Spawn
  /-- Has drawn its sequence number. -/
  | locking (t : PriorityTask)
  /-- Has pushed its task, with the lock. -/
  | pushed (t : PriorityTask)
  | submitted (t : PriorityTask)
  /-- Has given the lock up and not yet called `notify_one`. -/
  | notifying (t : PriorityTask)
  | returned
  deriving DecidableEq

inductive Worker
  | locking
  /-- At the test of the inner loop, with the lock. -/
  | testing
  /-- Has found the queue empty and no shutdown, and is about to wait. -/
  | waiting
  /-- In `wait`. A worker that has been notified takes the lock again. -/
  | parked
  /-- Behind the inner loop, with the lock. -/
  | leaving
  | popped (t : PriorityTask)
  /-- Has given the lock up and not yet called the task. -/
  | starting (t : PriorityTask)
  | running (t : PriorityTask)
  /-- The task has ended. -/
  | measuring (panicked : Bool) (nanos : ℕ)
  | resting (panicked : Bool)
  | counting (panicked : Bool)
  | exited
  deriving DecidableEq

inductive Drop
  | storing
  | notifying
  | joining (i : ℕ)
  | returned
  deriving DecidableEq

inductive Thread
  | spawn (t : Spawn)
  | worker (id : ℕ) (t : Worker)
  | drop (t : Drop)
  deriving DecidableEq

/-- What is left open in a step: the greatest task that is popped, the worker that is
    woken, and how a task ends. -/
inductive Choice
  | go
  | pop (i : ℕ)
  | wake (i : ℕ)
  | ends (panicked : Bool) (nanos : ℕ)
  deriving DecidableEq

inductive Input
  | spawn (priority : TaskPriority)
  | drop
  deriving DecidableEq

/-! ## The atomic steps -/

def Pool.unlock (s : Pool) : Pool := { s with locked := false }

def Pool.push (s : Pool) (t : PriorityTask) : Pool :=
  { s with locked := true, queue := s.queue ++ [t], spawned := s.spawned ++ [t.task] }

def Pool.countSubmitted (s : Pool) : Pool :=
  { s with metrics := { s.metrics with tasksSubmitted := s.metrics.tasksSubmitted + 1 } }

/-- `fetch_add` on the depth counter of the priority. -/
def Pool.addDepth (s : Pool) (priority : TaskPriority) (n : ℤ) : Pool :=
  { s with metrics := { s.metrics with
      queueDepth := fun p => if p = priority then s.metrics.queueDepth p + n
        else s.metrics.queueDepth p } }

def Pool.addActive (s : Pool) (n : ℤ) : Pool :=
  { s with metrics := { s.metrics with activeWorkers := s.metrics.activeWorkers + n } }

def Pool.addExecutionTime (s : Pool) (nanos : ℕ) : Pool :=
  { s with metrics := { s.metrics with
      totalExecutionTimeNs := (s.metrics.totalExecutionTimeNs + nanos) % 2 ^ 64 } }

def Pool.countEnded (s : Pool) (panicked : Bool) : Pool :=
  { s with metrics :=
      if panicked then { s.metrics with tasksFailed := s.metrics.tasksFailed + 1 }
      else { s.metrics with tasksCompleted := s.metrics.tasksCompleted + 1 } }

/-- The task at an index of the queue, if no task in the queue is greater. -/
def Pool.greatest (s : Pool) (i : ℕ) : Option PriorityTask :=
  s.queue[i]?.filter fun t => s.queue.all fun u => u.cmp t != .gt

/-- A call of `spawn` draws its sequence number, or the owner drops the pool. -/
def enter (s : Pool) : Input → Option (Pool × List Thread)
  | .spawn priority =>
    if s.dropped then none
    else some ({ s with
      sequence := s.sequence + 1, calls := s.calls + 1, borrows := s.borrows + 1 },
      [.spawn (.locking ⟨s.calls, priority, s.sequence⟩)])
  | .drop =>
    if s.dropped || s.borrows != 0 then none else some ({ s with dropped := true }, [.drop .storing])

def Spawn.proceed (s : Pool) : Spawn → Choice → Option (Pool × Spawn)
  | .locking t, .go => if s.locked then none else some (s.push t, .pushed t)
  | .pushed t, .go => some (s.countSubmitted, .submitted t)
  | .submitted t, .go => some ((s.addDepth t.priority 1).unlock, .notifying t)
  | .notifying _, .wake i =>
    if i < s.waiters.length || s.waiters.isEmpty then
      some ({ s with waiters := s.waiters.eraseIdx i, borrows := s.borrows - 1 }, .returned)
    else none
  | _, _ => none

def Worker.proceed (s : Pool) (id : ℕ) : Worker → Choice → Option (Pool × Worker)
  | .locking, .go => if s.locked then none else some ({ s with locked := true }, .testing)
  | .testing, .go =>
    some (s, if s.queue.isEmpty && !s.shutdown then .waiting else .leaving)
  | .waiting, .go => some ({ s with locked := false, waiters := s.waiters ++ [id] }, .parked)
  | .parked, .go =>
    if s.waiters.contains id || s.locked then none else some ({ s with locked := true }, .testing)
  | .leaving, .go =>
    if s.shutdown && s.queue.isEmpty then
      some ({ s with locked := false, exited := s.exited ++ [id] }, .exited)
    else if s.queue.isEmpty then some (s.unlock, .locking)
    else none
  | .leaving, .pop i =>
    (s.greatest i).map fun t => ({ s with queue := s.queue.eraseIdx i }, .popped t)
  | .popped t, .go => some ((s.addDepth t.priority (-1)).unlock, .starting t)
  | .starting t, .go =>
    some ({ s.addActive 1 with started := s.started ++ [t.task] }, .running t)
  | .running t, .ends panicked nanos =>
    some ({ s with finished := s.finished ++ [t.task] }, .measuring panicked nanos)
  | .measuring panicked nanos, .go => some (s.addExecutionTime nanos, .resting panicked)
  | .resting panicked, .go => some (s.addActive (-1), .counting panicked)
  | .counting panicked, .go => some (s.countEnded panicked, .locking)
  | _, _ => none

/-- The workers are joined one after the other. -/
def Drop.proceed (s : Pool) : Drop → Choice → Option (Pool × Drop)
  | .storing, .go => some ({ s with shutdown := true }, .notifying)
  | .notifying, .go => some ({ s with waiters := [] }, .joining 0)
  | .joining i, .go =>
    if i = s.capacity then some (s, .returned)
    else if s.exited.contains i then some (s, .joining (i + 1)) else none
  | _, _ => none

def proceed (s : Pool) : Thread → Choice → Option (Pool × Thread)
  | .spawn t, o => (t.proceed s o).map fun r => (r.1, .spawn r.2)
  | .worker id t, o => (t.proceed s id o).map fun r => (r.1, .worker id r.2)
  | .drop t, o => (t.proceed s o).map fun r => (r.1, .drop r.2)

def system : Machine Pool Thread Input Choice where
  env := enter
  act := proceed

abbrev State := Config Pool Thread

abbrev Step := Action Input Choice

def ComputePoolMetrics.new : ComputePoolMetrics := ⟨0, 0, 0, 0, fun _ => 0, 0⟩

def Pool.new (capacity : ℕ) : Pool where
  capacity := capacity
  queue := []
  locked := false
  waiters := []
  shutdown := false
  sequence := 0
  metrics := .new
  exited := []
  calls := 0
  borrows := 0
  dropped := false
  spawned := []
  started := []
  finished := []

/-- A new pool, whose workers have passed the barrier. -/
def initial (capacity : ℕ) : State :=
  ⟨.new capacity, (List.range capacity).map fun id => .worker id .locking⟩

/-! ## What a thread can do -/

inductive Acts (s : Pool) : Thread → Pool → Thread → Prop
  | push (t : PriorityTask) : s.locked = false →
      Acts s (.spawn (.locking t)) (s.push t) (.spawn (.pushed t))
  | countSubmitted (t : PriorityTask) :
      Acts s (.spawn (.pushed t)) s.countSubmitted (.spawn (.submitted t))
  | deepen (t : PriorityTask) :
      Acts s (.spawn (.submitted t)) (s.addDepth t.priority 1).unlock (.spawn (.notifying t))
  | notifyOne (t : PriorityTask) (i : ℕ) : i < s.waiters.length ∨ s.waiters = [] →
      Acts s (.spawn (.notifying t))
        { s with waiters := s.waiters.eraseIdx i, borrows := s.borrows - 1 } (.spawn .returned)
  | lock (id : ℕ) : s.locked = false →
      Acts s (.worker id .locking) { s with locked := true } (.worker id .testing)
  | findEmpty (id : ℕ) : s.queue = [] → s.shutdown = false →
      Acts s (.worker id .testing) s (.worker id .waiting)
  | leaveLoop (id : ℕ) : s.queue ≠ [] ∨ s.shutdown = true →
      Acts s (.worker id .testing) s (.worker id .leaving)
  | park (id : ℕ) :
      Acts s (.worker id .waiting) { s with locked := false, waiters := s.waiters ++ [id] }
        (.worker id .parked)
  | wakeUp (id : ℕ) : id ∉ s.waiters → s.locked = false →
      Acts s (.worker id .parked) { s with locked := true } (.worker id .testing)
  | exit (id : ℕ) : s.queue = [] → s.shutdown = true →
      Acts s (.worker id .leaving) { s with locked := false, exited := s.exited ++ [id] }
        (.worker id .exited)
  | popNothing (id : ℕ) : s.queue = [] → s.shutdown = false →
      Acts s (.worker id .leaving) s.unlock (.worker id .locking)
  | pop (id i : ℕ) (t : PriorityTask) : s.greatest i = some t →
      Acts s (.worker id .leaving) { s with queue := s.queue.eraseIdx i } (.worker id (.popped t))
  | lessen (id : ℕ) (t : PriorityTask) :
      Acts s (.worker id (.popped t)) (s.addDepth t.priority (-1)).unlock
        (.worker id (.starting t))
  | start (id : ℕ) (t : PriorityTask) :
      Acts s (.worker id (.starting t)) { s.addActive 1 with started := s.started ++ [t.task] }
        (.worker id (.running t))
  | finish (id : ℕ) (t : PriorityTask) (panicked : Bool) (nanos : ℕ) :
      Acts s (.worker id (.running t)) { s with finished := s.finished ++ [t.task] }
        (.worker id (.measuring panicked nanos))
  | measure (id : ℕ) (panicked : Bool) (nanos : ℕ) :
      Acts s (.worker id (.measuring panicked nanos)) (s.addExecutionTime nanos)
        (.worker id (.resting panicked))
  | rest (id : ℕ) (panicked : Bool) :
      Acts s (.worker id (.resting panicked)) (s.addActive (-1)) (.worker id (.counting panicked))
  | countEnded (id : ℕ) (panicked : Bool) :
      Acts s (.worker id (.counting panicked)) (s.countEnded panicked) (.worker id .locking)
  | shutDown : Acts s (.drop .storing) { s with shutdown := true } (.drop .notifying)
  | notifyAll : Acts s (.drop .notifying) { s with waiters := [] } (.drop (.joining 0))
  | join (i : ℕ) : i ∈ s.exited → i ≠ s.capacity →
      Acts s (.drop (.joining i)) s (.drop (.joining (i + 1)))
  | allJoined : Acts s (.drop (.joining s.capacity)) s (.drop .returned)

section

variable {s s' : Pool} {t t' : Thread} {o : Choice}

theorem acts_of_spawn {t t' : Spawn} (h : t.proceed s o = some (s', t')) :
    Acts s (.spawn t) s' (.spawn t') := by
  unfold Spawn.proceed at h
  split at h
  · split at h
    · cases h
    · rename_i hfree
      cases h
      exact .push _ (by simpa using hfree)
  · cases h
    exact .countSubmitted _
  · cases h
    exact .deepen _
  · split at h
    · rename_i hwake
      cases h
      exact .notifyOne _ _ (by simpa using hwake)
    · cases h
  · cases h

theorem acts_of_worker {id : ℕ} {t t' : Worker} (h : t.proceed s id o = some (s', t')) :
    Acts s (.worker id t) s' (.worker id t') := by
  unfold Worker.proceed at h
  split at h
  · split at h
    · cases h
    · rename_i hfree
      cases h
      exact .lock id (by simpa using hfree)
  · split at h
    · rename_i hempty
      cases h
      have hboth : s.queue = [] ∧ s.shutdown = false := by simpa using hempty
      exact .findEmpty id hboth.1 hboth.2
    · rename_i hleave
      cases h
      refine .leaveLoop id ?_
      by_contra hnot
      refine hleave ?_
      push Not at hnot
      simp [hnot.1, hnot.2]
  · cases h
    exact .park id
  · split at h
    · cases h
    · rename_i hawake
      cases h
      have hboth : id ∉ s.waiters ∧ s.locked = false := by simpa using hawake
      exact .wakeUp id hboth.1 hboth.2
  · split at h
    · rename_i hend
      cases h
      have hboth : s.shutdown = true ∧ s.queue = [] := by simpa using hend
      exact .exit id hboth.2 hboth.1
    · rename_i hend
      split at h
      · rename_i hempty
        cases h
        have hqueue : s.queue = [] := List.isEmpty_iff.1 hempty
        exact .popNothing id hqueue (by simpa [hqueue] using hend)
      · cases h
  · obtain ⟨t, ht, heq⟩ := Option.map_eq_some_iff.1 h
    cases heq
    exact .pop id _ t ht
  · cases h
    exact .lessen id _
  · cases h
    exact .start id _
  · cases h
    exact .finish id _ _ _
  · cases h
    exact .measure id _ _
  · cases h
    exact .rest id _
  · cases h
    exact .countEnded id _
  · cases h

theorem acts_of_drop {t t' : Drop} (h : t.proceed s o = some (s', t')) :
    Acts s (.drop t) s' (.drop t') := by
  unfold Drop.proceed at h
  split at h
  · cases h
    exact .shutDown
  · cases h
    exact .notifyAll
  · split at h
    · rename_i hall
      cases h
      subst hall
      exact .allJoined
    · rename_i hmore
      split at h
      · rename_i hexited
        cases h
        exact .join _ (by simpa using hexited) hmore
      · cases h
  · cases h

theorem acts_of_proceed (h : proceed s t o = some (s', t')) : Acts s t s' t' := by
  cases t with
  | spawn t =>
    obtain ⟨r, hr, heq⟩ := Option.map_eq_some_iff.1 h
    cases heq
    exact acts_of_spawn hr
  | worker id t =>
    obtain ⟨r, hr, heq⟩ := Option.map_eq_some_iff.1 h
    cases heq
    exact acts_of_worker hr
  | drop t =>
    obtain ⟨r, hr, heq⟩ := Option.map_eq_some_iff.1 h
    cases heq
    exact acts_of_drop hr

end

/-- What enters: a call of `spawn` on a pool that has its owner, or the drop of a pool
    that nobody borrows. -/
inductive Enters (s : Pool) : Input → Pool → Thread → Prop
  | spawn (priority : TaskPriority) : s.dropped = false →
      Enters s (.spawn priority)
        { s with sequence := s.sequence + 1, calls := s.calls + 1, borrows := s.borrows + 1 }
        (.spawn (.locking ⟨s.calls, priority, s.sequence⟩))
  | drop : s.dropped = false → s.borrows = 0 →
      Enters s .drop { s with dropped := true } (.drop .storing)

theorem enters_of_enter {s s' : Pool} {e : Input} {ts : List Thread}
    (h : enter s e = some (s', ts)) : ∃ t, ts = [t] ∧ Enters s e s' t := by
  unfold enter at h
  split at h
  · split at h
    · cases h
    · rename_i hlive
      cases h
      exact ⟨_, rfl, .spawn _ (by simpa using hlive)⟩
  · split at h
    · cases h
    · rename_i hfree
      cases h
      have hboth : s.dropped = false ∧ s.borrows = 0 := by simpa using hfree
      exact ⟨_, rfl, .drop hboth.1 hboth.2⟩

/-- A step of the system is an entry or a step of one thread. -/
theorem step_cases {s u : State} {a : Step} (h : system.step s a = some u) :
    (∃ e x t, a = .env e ∧ Enters s.shared e x t ∧ u = ⟨x, s.threads ++ [t]⟩) ∨
    (∃ o t x t', ∃ l l' : List Thread, a = .act l.length o ∧ s.threads = l ++ t :: l' ∧
      Acts s.shared t x t' ∧ u = ⟨x, l ++ t' :: l'⟩) := by
  rcases Machine.step_cases h with ⟨e, r, rfl, hr, rfl⟩ | ⟨o, t, r, l, l', rfl, hts, hr, rfl⟩
  · obtain ⟨x, ts⟩ := r
    obtain ⟨t, rfl, henters⟩ := enters_of_enter hr
    exact .inl ⟨e, x, t, rfl, henters, rfl⟩
  · exact .inr ⟨o, t, r.1, r.2, l, l', rfl, hts, acts_of_proceed hr, rfl⟩

theorem invariant_of_run {I J : State → Prop} {ok : State → Step → Prop} {capacity : ℕ}
    {as : List Step} {s : State} (h : Run system.step ok (initial capacity) as s)
    (hJ : ∀ as t, Run system.step ok (initial capacity) as t → J t) (h0 : I (initial capacity))
    (henv : ∀ s ts e s' t, J ⟨s, ts⟩ → I ⟨s, ts⟩ → Enters s e s' t → I ⟨s', ts ++ [t]⟩)
    (hact : ∀ s l l' t o s' t', J ⟨s, l ++ t :: l'⟩ → I ⟨s, l ++ t :: l'⟩ →
      ok ⟨s, l ++ t :: l'⟩ (.act l.length o) → Acts s t s' t' → I ⟨s', l ++ t' :: l'⟩) :
    I s := by
  refine Machine.invariant_of_run h hJ h0 ?_ ?_
  · intro x ts e y ts' hJx hIx _ henter
    obtain ⟨t, rfl, henters⟩ := enters_of_enter henter
    exact henv x ts e y t hJx hIx henters
  · exact fun x l l' t o y t' hJx hIx hok hact' => hact x l l' t o y t' hJx hIx hok
      (acts_of_proceed hact')

end ComputePool
