-- SUMMARY: The counters of the compute pool: how they account for every task, and when a snapshot misses one.
import MillIo.ComputePool.Conservation
import Mathlib.Tactic.Ring
import Mathlib.Tactic.Linarith

/-!
# The metrics of the compute pool

A task is counted as queued, then as active, and then as completed or failed, and goes
from one counter to the next in two steps. Each counter is the number of tasks that are
queued, or in hand, up to those whose thread is in between. The model counts without
bound, as the counters do until `2 ^ 64` tasks have been spawned.
-/

namespace ComputePool

open Interleaving

/-! ## Where the threads are -/

/-- The task that a call of `spawn` has pushed and not yet entered in its depth counter. -/
def Thread.entering : Thread → List PriorityTask
  | .spawn (.pushed t) => [t]
  | .spawn (.submitted t) => [t]
  | _ => []

/-- The task that a worker has popped and not yet taken out of its depth counter. -/
def Thread.leaving : Thread → List PriorityTask
  | .worker _ (.popped t) => [t]
  | _ => []

/-- The worker counts as active. -/
def Thread.active : Thread → ℕ
  | .worker _ (.running _) => 1
  | .worker _ (.measuring _ _) => 1
  | .worker _ (.resting _) => 1
  | _ => 0

/-- The task of the thread is in none of the counters and has been submitted. -/
def Thread.unaccounted : Thread → ℕ
  | .spawn (.submitted _) => 1
  | .worker _ (.starting _) => 1
  | .worker _ (.counting _) => 1
  | _ => 0

/-- The call of `spawn` is in its critical section. -/
def Thread.inSection : Thread → Bool
  | .spawn (.pushed _) => true
  | .spawn (.submitted _) => true
  | _ => false

/-- The worker is between a pop and its last update of the metrics. -/
def Thread.atTask : Thread → Bool
  | .worker _ (.popped _) => true
  | .worker _ (.starting _) => true
  | .worker _ (.running _) => true
  | .worker _ (.measuring _ _) => true
  | .worker _ (.resting _) => true
  | .worker _ (.counting _) => true
  | _ => false

/-- How many of the tasks have the priority. -/
def ofPriority (p : TaskPriority) (ts : List PriorityTask) : ℕ := ts.countP fun t => t.priority = p

def ComputePoolMetrics.queueDepths (m : ComputePoolMetrics) : ℤ :=
  m.queueDepth .low + m.queueDepth .normal + m.queueDepth .high + m.queueDepth .critical

/-! ## The balance of the counters -/

/-- Each counter is what it counts, up to the threads that are between two updates. -/
structure Balanced (s : State) : Prop where
  depth : ∀ p, s.shared.metrics.queueDepth p + ofPriority p (s.threads.flatMap Thread.entering) =
    ofPriority p s.shared.queue + ofPriority p (s.threads.flatMap Thread.leaving)
  active : s.shared.metrics.activeWorkers = Machine.total Thread.active s.threads
  submitted : s.shared.metrics.tasksSubmitted = s.shared.metrics.queueDepths +
    s.shared.metrics.activeWorkers + s.shared.metrics.tasksCompleted +
    s.shared.metrics.tasksFailed + Machine.total Thread.unaccounted s.threads

section

variable {s s' : Pool} {t t' : Thread} {l l' : List Thread} {p : TaskPriority}

theorem queueDepth_addDepth (q : TaskPriority) (n : ℤ) :
    (s.addDepth q n).metrics.queueDepth p =
      s.metrics.queueDepth p + if q = p then n else 0 := by
  rcases eq_or_ne p q with rfl | hne
  · simp [Pool.addDepth]
  · simp [Pool.addDepth, hne, hne.symm]

theorem queueDepths_addDepth (q : TaskPriority) (n : ℤ) :
    (s.addDepth q n).metrics.queueDepths = s.metrics.queueDepths + n := by
  simp only [ComputePoolMetrics.queueDepths, queueDepth_addDepth]
  cases q <;> simp only [reduceCtorEq, if_false, if_true] <;> ring

@[simp] theorem queue_addDepth (q : TaskPriority) (n : ℤ) : (s.addDepth q n).queue = s.queue := rfl

@[simp] theorem ofPriority_nil : ofPriority p [] = 0 := rfl

theorem ofPriority_append (ps qs : List PriorityTask) :
    ofPriority p (ps ++ qs) = ofPriority p ps + ofPriority p qs :=
  List.countP_append

theorem ofPriority_singleton (q : PriorityTask) :
    ofPriority p [q] = if q.priority = p then 1 else 0 := by
  simp [ofPriority, List.countP_cons]

theorem depth_act (h : Acts s t s' t') (p : TaskPriority) :
    s'.metrics.queueDepth p + ofPriority p t'.entering + (ofPriority p s.queue +
        ofPriority p t.leaving) =
      s.metrics.queueDepth p + ofPriority p t.entering + (ofPriority p s'.queue +
        ofPriority p t'.leaving) := by
  cases h with
  | push q hfree =>
    simp only [Thread.entering, Thread.leaving, Pool.push, ofPriority_append, ofPriority_nil]
    push_cast
    ring
  | deepen q =>
    simp only [Thread.entering, Thread.leaving, Pool.unlock, queueDepth_addDepth,
      ofPriority_singleton, queue_addDepth, ofPriority_nil]
    push_cast
    ring
  | pop id i q hq =>
    have hqueue : ofPriority p s.queue = ofPriority p [q] + ofPriority p (s.queue.eraseIdx i) :=
      ((perm_of_greatest hq).countP_eq _).symm.trans (ofPriority_append [q] _)
    simp only [Thread.entering, Thread.leaving, hqueue, ofPriority_nil]
    push_cast
    ring
  | lessen id q =>
    simp only [Thread.entering, Thread.leaving, Pool.unlock, queueDepth_addDepth,
      ofPriority_singleton, queue_addDepth, ofPriority_nil]
    split <;> push_cast <;> ring
  | countEnded id panicked => cases panicked <;> rfl
  | _ => rfl

theorem active_act (h : Acts s t s' t') :
    s'.metrics.activeWorkers + t.active = s.metrics.activeWorkers + t'.active := by
  cases h with
  | start id q => exact add_assoc _ _ _
  | rest id panicked =>
    simp only [Thread.active, Pool.addActive]
    push_cast
    ring
  | countEnded id panicked => cases panicked <;> rfl
  | _ => rfl

/-- A task that leaves one counter is unaccounted for until it enters the next. -/
theorem submitted_act (h : Acts s t s' t') :
    s'.metrics.tasksSubmitted + (s.metrics.queueDepths + s.metrics.activeWorkers +
        s.metrics.tasksCompleted + s.metrics.tasksFailed + t.unaccounted) =
      s.metrics.tasksSubmitted + (s'.metrics.queueDepths + s'.metrics.activeWorkers +
        s'.metrics.tasksCompleted + s'.metrics.tasksFailed + t'.unaccounted) := by
  cases h with
  | countSubmitted q =>
    simp only [Pool.countSubmitted, Thread.unaccounted, ComputePoolMetrics.queueDepths]
    push_cast
    ring
  | deepen q =>
    simp only [Pool.unlock, queueDepths_addDepth, Thread.unaccounted]
    simp only [Pool.addDepth]
    push_cast
    ring
  | lessen id q =>
    simp only [Pool.unlock, queueDepths_addDepth, Thread.unaccounted]
    simp only [Pool.addDepth]
    push_cast
    ring
  | start id q =>
    simp only [Pool.addActive, Thread.unaccounted, ComputePoolMetrics.queueDepths]
    push_cast
    ring
  | rest id panicked =>
    simp only [Pool.addActive, Thread.unaccounted, ComputePoolMetrics.queueDepths]
    push_cast
    ring
  | countEnded id panicked =>
    cases panicked <;>
      simp only [Pool.countEnded, Thread.unaccounted, ComputePoolMetrics.queueDepths, if_true,
        if_false, reduceCtorEq] <;> push_cast <;> ring
  | _ => rfl

theorem Balanced.act (h : Balanced ⟨s, l ++ t :: l'⟩) (hact : Acts s t s' t') :
    Balanced ⟨s', l ++ t' :: l'⟩ := by
  obtain ⟨hdepth, hactive, hsubmitted⟩ := h
  simp only [List.flatMap_append, List.flatMap_cons, ofPriority_append, Machine.total_append,
    Machine.total_cons] at hdepth hactive hsubmitted
  refine ⟨fun p => ?_, ?_, ?_⟩ <;>
    simp only [List.flatMap_append, List.flatMap_cons, ofPriority_append, Machine.total_append,
      Machine.total_cons]
  · have hold := hdepth p
    have hmove := depth_act hact p
    push_cast at hold hmove ⊢
    linarith
  · have hmove := active_act hact
    push_cast at hactive ⊢
    linarith
  · have hmove := submitted_act hact
    push_cast at hsubmitted ⊢
    linarith

theorem Balanced.env {e : Input} {ts : List Thread} (h : Balanced ⟨s, ts⟩)
    (henters : Enters s e s' t) : Balanced ⟨s', ts ++ [t]⟩ := by
  obtain ⟨hdepth, hactive, hsubmitted⟩ := h
  cases henters <;>
    exact ⟨by simpa [Thread.entering, Thread.leaving] using hdepth,
      by simpa [Thread.active] using hactive, by simpa [Thread.unaccounted] using hsubmitted⟩

theorem balanced_of_run {ok : State → Step → Prop} {capacity : ℕ} {as : List Step} {s : State}
    (h : Run system.step ok (initial capacity) as s) : Balanced s := by
  refine invariant_of_run (I := Balanced) (J := fun _ => True) h (fun _ _ _ => trivial) ?_ ?_ ?_
  · have hnone : ∀ f : Thread → List PriorityTask, (∀ i, f (.worker i .locking) = []) →
        (initial capacity).threads.flatMap f = [] := by
      intro f hf
      simp [initial, hf]
    have hzero : ∀ w : Thread → ℕ, (∀ i, w (.worker i .locking) = 0) →
        Machine.total w (initial capacity).threads = 0 := by
      intro w hw
      refine Machine.total_eq_zero fun t ht => ?_
      obtain ⟨i, -, rfl⟩ := List.mem_map.1 ht
      exact hw i
    refine ⟨fun p => ?_, ?_, ?_⟩
    · rw [hnone Thread.entering fun _ => rfl, hnone Thread.leaving fun _ => rfl]
      rfl
    · rw [hzero Thread.active fun _ => rfl]
      rfl
    · rw [hzero Thread.unaccounted fun _ => rfl]
      rfl
  · exact fun s ts e s' t _ hs henters => hs.env henters
  · exact fun s l l' t o s' t' _ hs _ hact => hs.act hact

/-! ## The depth counters and the lock -/

/-- A task stays in the queue while the call that has pushed it has the lock. -/
def Entered (s : State) : Prop :=
  ∀ t ∈ s.threads, ∀ q ∈ t.entering, q ∈ s.shared.queue

theorem holds_of_entering {q : PriorityTask} (h : q ∈ t.entering) : t.holds = 1 := by
  cases t with
  | spawn t => cases t <;> first | rfl | cases h
  | _ => cases h

theorem entering_act {q : PriorityTask} (h : Acts s t s' t') (hq : q ∈ t'.entering) :
    q ∈ t.entering ∧ s'.queue = s.queue ∨ q ∈ s'.queue := by
  cases h with
  | push p hfree =>
    obtain rfl := List.mem_singleton.1 hq
    exact .inr (List.mem_append_right _ List.mem_cons_self)
  | countSubmitted p => exact .inl ⟨hq, rfl⟩
  | _ => cases hq

/-- Only a thread with the lock takes tasks out of the queue. -/
theorem queue_subset_act (h : Acts s t s' t') : s.queue ⊆ s'.queue ∨ t.holds = 1 := by
  cases h with
  | push p hfree => exact .inl (List.subset_append_left _ _)
  | pop id i p hp => exact .inr rfl
  | _ => exact .inl (List.Subset.refl _)

theorem entered_of_run {ok : State → Step → Prop} {capacity : ℕ} {as : List Step} {s : State}
    (h : Run system.step ok (initial capacity) as s) : Entered s := by
  refine invariant_of_run (I := Entered) (J := Exclusive) h (fun _ _ ht => exclusive_of_run ht)
    ?_ ?_ ?_
  · intro t ht q hq
    obtain ⟨i, -, rfl⟩ := List.mem_map.1 ht
    cases hq
  · intro s ts e s' t _ hs henters u hu q hq
    rcases List.mem_append.1 hu with hold | hnew
    · cases henters <;> exact hs u hold q hq
    · cases List.mem_singleton.1 hnew
      cases henters <;> cases hq
  · intro s l l' t o s' t' hexclusive hs _ hact
    refine Machine.forall_threads_at.2 ⟨fun q hq => ?_, fun u hu q hq => ?_⟩
    · obtain ⟨hown, -⟩ := Machine.forall_threads_at.1 hs
      rcases entering_act hact hq with ⟨hbefore, hqueue⟩ | hqueue
      · exact hqueue ▸ hown q hbefore
      · exact hqueue
    · obtain ⟨-, hothers⟩ := Machine.forall_threads_at.1 hs
      rcases queue_subset_act hact with hsub | hlock
      · exact hsub (hothers u hu q hq)
      · -- The lock is not both with a worker that pops and with the call that has pushed.
        have hzero := Guarded.others hexclusive hlock hu
        rw [holds_of_entering hq] at hzero
        cases hzero

theorem length_entering_le (t : Thread) : t.entering.length + t.leaving.length ≤ t.holds := by
  cases t with
  | spawn t => cases t <;> exact Nat.le_refl _
  | worker id w => cases w <;> first | exact Nat.le_refl _ | exact Nat.zero_le _
  | drop t => exact Nat.le_refl _

theorem length_flatMap_le (ts : List Thread) : (ts.flatMap Thread.entering).length +
    (ts.flatMap Thread.leaving).length ≤ Machine.total Thread.holds ts := by
  induction ts with
  | nil => exact Nat.le_refl _
  | cons t ts ih =>
    simp only [List.flatMap_cons, List.length_append, Machine.total_cons]
    have hown := length_entering_le t
    omega

/-- The tasks between the queue and a depth counter are at most one, which is queued. -/
theorem ofPriority_entering_le {s : State} (hexclusive : Exclusive s) (h : Entered s) :
    ofPriority p (s.threads.flatMap Thread.entering) ≤ ofPriority p s.shared.queue := by
  have hlength := length_flatMap_le s.threads
  have hlock : Machine.total Thread.holds s.threads = s.shared.locked.toNat := hexclusive
  have hone := Bool.toNat_le s.shared.locked
  cases hentering : s.threads.flatMap Thread.entering with
  | nil => exact Nat.zero_le _
  | cons q rest =>
    rw [hentering, List.length_cons] at hlength
    obtain rfl : rest = [] := List.eq_nil_of_length_eq_zero (by omega)
    have hmem : q ∈ s.threads.flatMap Thread.entering := hentering ▸ List.mem_cons_self
    obtain ⟨t, ht, hq⟩ := List.mem_flatMap.1 hmem
    exact (List.singleton_sublist.2 (h t ht q hq)).countP_le

theorem total_active_le (ts : List Thread) :
    Machine.total Thread.active ts ≤ (ts.filterMap Thread.workerId).length := by
  induction ts with
  | nil => exact Nat.le_refl _
  | cons t ts ih =>
    cases t with
    | worker id w =>
      have hone : Thread.active (.worker id w) ≤ 1 := by
        cases w <;> first | exact Nat.le_refl _ | exact Nat.zero_le _
      have hself : Thread.workerId (.worker id w) = some id := rfl
      rw [Machine.total_cons, List.filterMap_cons_some hself, List.length_cons]
      omega
    | spawn t => exact (Nat.zero_add _).trans_le ih
    | drop t => exact (Nat.zero_add _).trans_le ih

theorem active_of_quiet (h : t.atTask = false) : t.active = 0 := by
  cases t with
  | worker id w => cases w <;> first | rfl | cases h
  | _ => rfl

theorem unaccounted_of_quiet (hsection : t.inSection = false) (h : t.atTask = false) :
    t.unaccounted = 0 := by
  cases t with
  | worker id w => cases w <;> first | rfl | cases h
  | spawn t => cases t <;> first | rfl | cases hsection
  | drop t => rfl

end

/-! ## What the metrics promise -/

/-- While the queue lock is free each depth counter is exact; no counter goes below zero,
    and no more workers are active than there are; and when no call of `spawn` is in its
    critical section and no worker between a pop and its last update, every task that was
    submitted is queued, completed or failed. -/
theorem metrics_balance {capacity : ℕ} {as : List Step} {s : State}
    (h : Run system.step Unrestricted (initial capacity) as s) :
    (s.shared.locked = false → ∀ p, s.shared.metrics.queueDepth p =
      s.shared.queue.countP fun t => t.priority = p) ∧
    ((∀ p, 0 ≤ s.shared.metrics.queueDepth p) ∧ 0 ≤ s.shared.metrics.activeWorkers ∧
      s.shared.metrics.activeWorkers ≤ capacity) ∧
    ((∀ t ∈ s.threads, t.inSection = false ∧ t.atTask = false) →
      s.shared.metrics.tasksSubmitted = s.shared.metrics.queueDepths +
        s.shared.metrics.tasksCompleted + s.shared.metrics.tasksFailed ∧
      s.shared.metrics.activeWorkers = 0) := by
  have hbalanced := balanced_of_run h
  have hexclusive := exclusive_of_run h
  obtain ⟨hroster, rfl⟩ := roster_of_run h
  have hactive := hbalanced.active
  refine ⟨fun hfree p => ?_, ⟨fun p => ?_, ?_, ?_⟩, fun hquiet => ?_⟩
  · have hlength := length_flatMap_le s.threads
    have hlock : Machine.total Thread.holds s.threads = s.shared.locked.toNat := hexclusive
    rw [hlock, hfree, Bool.toNat_false] at hlength
    have hdepth := hbalanced.depth p
    rw [List.eq_nil_of_length_eq_zero (l := s.threads.flatMap Thread.entering) (by omega),
      List.eq_nil_of_length_eq_zero (l := s.threads.flatMap Thread.leaving) (by omega)] at hdepth
    simpa [ofPriority] using hdepth
  · have hdepth := hbalanced.depth p
    have hle := ofPriority_entering_le (p := p) hexclusive (entered_of_run h)
    omega
  · exact hactive ▸ Int.natCast_nonneg _
  · have hle := total_active_le s.threads
    rw [hroster, List.length_range] at hle
    rw [hactive]
    exact Int.ofNat_le.2 hle
  · have hnone : Machine.total Thread.active s.threads = 0 := Machine.total_eq_zero fun t ht =>
      active_of_quiet (hquiet t ht).2
    have haccounted : Machine.total Thread.unaccounted s.threads = 0 :=
      Machine.total_eq_zero fun t ht => unaccounted_of_quiet (hquiet t ht).1 (hquiet t ht).2
    have hsubmitted := hbalanced.submitted
    rw [hactive, hnone, haccounted] at hsubmitted
    exact ⟨by simpa using hsubmitted, by rw [hactive, hnone]; rfl⟩

/-- Two tasks, the first of which panics, have been run. -/
theorem metrics_balance_two_tasks : ∃ s, Run system.step Unrestricted (initial 1) twoTasks s ∧
    s.shared.metrics.tasksSubmitted = s.shared.metrics.queueDepths +
      s.shared.metrics.tasksCompleted + s.shared.metrics.tasksFailed ∧
    s.shared.metrics.tasksSubmitted = 2 ∧ s.shared.metrics.tasksFailed = 1 := by
  obtain ⟨s, hrun, hquiet, htwo, hone⟩ : ∃ s,
      Run system.step Unrestricted (initial 1) twoTasks s ∧
      (∀ t ∈ s.threads, t.inSection = false ∧ t.atTask = false) ∧
      s.shared.metrics.tasksSubmitted = 2 ∧ s.shared.metrics.tasksFailed = 1 :=
    Run.exists_of_exec (by decide +kernel)
  exact ⟨s, hrun, ((metrics_balance hrun).2.2 hquiet).1, htwo, hone⟩

/-- A snapshot that is taken without the lock accounts for every task submitted if and only
    if no call of `spawn` is between its two counters, and no worker is between the depth
    and the active counter or between the active counter and the last one. -/
theorem snapshot_accounts_iff {capacity : ℕ} {as : List Step} {s : State}
    (h : Run system.step Unrestricted (initial capacity) as s) :
    s.shared.metrics.tasksSubmitted ≤ s.shared.metrics.queueDepths +
        s.shared.metrics.activeWorkers + s.shared.metrics.tasksCompleted +
        s.shared.metrics.tasksFailed ↔
      ∀ t ∈ s.threads, t.unaccounted = 0 := by
  have hsubmitted := (balanced_of_run h).submitted
  constructor
  · intro hle t ht
    have hmem := Machine.le_total (w := Thread.unaccounted) ht
    omega
  · intro hnone
    rw [Machine.total_eq_zero hnone] at hsubmitted
    omega

/-- One task is running and another waits. -/
theorem snapshot_accounts_running : ∃ s, Run system.step Unrestricted (initial 1)
      (twoTasks.take 15) s ∧
    s.shared.metrics.tasksSubmitted = 2 ∧ s.shared.metrics.activeWorkers = 1 ∧
    s.shared.metrics.tasksSubmitted ≤ s.shared.metrics.queueDepths +
      s.shared.metrics.activeWorkers + s.shared.metrics.tasksCompleted +
      s.shared.metrics.tasksFailed := by
  obtain ⟨s, hrun, hnone, htwo, hone⟩ : ∃ s,
      Run system.step Unrestricted (initial 1) (twoTasks.take 15) s ∧
      (∀ t ∈ s.threads, t.unaccounted = 0) ∧
      s.shared.metrics.tasksSubmitted = 2 ∧ s.shared.metrics.activeWorkers = 1 :=
    Run.exists_of_exec (by decide +kernel)
  exact ⟨s, hrun, htwo, hone, (snapshot_accounts_iff hrun).2 hnone⟩

/-- A reader looks while `spawn` has counted its task as submitted and not yet as queued. -/
theorem snapshot_misses_task : ∃ s, Run system.step Unrestricted (initial 1)
      [.env (.spawn .low), .act 1 .go, .act 1 .go] s ∧
    ¬ s.shared.metrics.tasksSubmitted ≤ s.shared.metrics.queueDepths +
      s.shared.metrics.activeWorkers + s.shared.metrics.tasksCompleted +
      s.shared.metrics.tasksFailed :=
  Run.exists_of_exec (by decide +kernel)

end ComputePool
