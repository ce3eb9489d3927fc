-- SUMMARY: The order in which the compute pool serves its queue: the order of `PriorityTask` is lawful, a pop takes a foremost task, and one worker runs what waits together as a stable sort lists it.
import MillIo.ComputePool.Conservation
import MillIo.Scheduling.Selection
import Mathlib.Order.Compare

/-!
# The order of the compute pool

The heap compares tasks by priority and, among equals, by the sequence number drawn at
the call of `spawn`. While the only worker is blocked nothing is popped, so all that a
thread queues in the meantime waits together, and is then served in that order. The
sequence number is a `u64` that wraps, which is the one way for the order of the calls
to be lost.
-/

namespace ComputePool

open Interleaving Selection

namespace PriorityTask

/-! ## The order of tasks -/

/-- `PartialEq`. What the task does is not compared. -/
def eq (a b : PriorityTask) : Bool := a.priority == b.priority && a.sequence == b.sequence

/-- The heap gives `a` away before `b`. -/
def Precedes (a b : PriorityTask) : Prop := a.cmp b = .gt

instance : DecidableRel Precedes := fun a b => inferInstanceAs (Decidable (a.cmp b = .gt))

/-- The priority of `b` is not higher. -/
def Outranks (a b : PriorityTask) : Prop := b.priority.rank ≤ a.priority.rank

instance : DecidableRel Outranks :=
  fun a b => inferInstanceAs (Decidable (b.priority.rank ≤ a.priority.rank))

instance : Std.Total Outranks := ⟨fun a b => Nat.le_total b.priority.rank a.priority.rank⟩

instance : IsTrans PriorityTask Outranks := ⟨fun _ _ _ hab hbc => Nat.le_trans hbc hab⟩

theorem cmp_eq_compareLex : cmp = compareLex (compareOn fun t => t.priority.rank)
    (fun a b => compare b.sequence a.sequence) := by
  funext a b
  simp only [cmp, compareLex, compareOn]
  cases compare a.priority.rank b.priority.rank <;> rfl

instance : Std.TransCmp cmp := by
  have hsequence : Std.TransCmp fun a b : PriorityTask => compare b.sequence a.sequence :=
    inferInstanceAs (Std.TransCmp fun a b => compareOn sequence b a)
  rw [cmp_eq_compareLex]
  infer_instance

theorem rank_injective {p q : TaskPriority} (h : p.rank = q.rank) : p = q := by
  cases p <;> cases q <;> first | rfl | cases h

theorem cmp_eq_iff {a b : PriorityTask} : a.cmp b = .eq ↔ a.eq b = true := by
  rw [cmp_eq_compareLex, compareLex, Ordering.then_eq_eq, compareOn, Std.compare_eq_iff_eq,
    Std.compare_eq_iff_eq, PriorityTask.eq, Bool.and_eq_true, beq_iff_eq, beq_iff_eq]
  constructor
  · rintro ⟨hrank, hsequence⟩
    exact ⟨rank_injective hrank, hsequence.symm⟩
  · rintro ⟨hpriority, hsequence⟩
    exact ⟨congrArg TaskPriority.rank hpriority, hsequence.symm⟩

theorem precedes_iff {a b : PriorityTask} : a.Precedes b ↔ b.priority.rank < a.priority.rank ∨
    (a.priority = b.priority ∧ a.sequence < b.sequence) := by
  rw [Precedes, cmp_eq_compareLex, compareLex, Ordering.then_eq_gt, compareOn, Std.compare_eq_gt,
    Std.compare_eq_iff_eq, Std.compare_eq_gt]
  exact or_congr_right (and_congr_left fun _ => ⟨rank_injective, congrArg TaskPriority.rank⟩)

/-- Among tasks of one priority the first call goes first. -/
theorem precedes_of_outranks {a b : PriorityTask} (h : a.Outranks b)
    (hsequence : a.sequence < b.sequence) : a.Precedes b := by
  rw [precedes_iff]
  rcases Nat.lt_or_eq_of_le h with hlt | heq
  · exact .inl hlt
  · exact .inr ⟨rank_injective heq.symm, hsequence⟩

theorem outranks_of_not_precedes {a b : PriorityTask} (h : ¬ a.Precedes b) :
    a.priority.rank < b.priority.rank ∨ (a.priority = b.priority ∧ b.sequence ≤ a.sequence) := by
  rw [precedes_iff, not_or, not_and, Nat.not_lt, UInt64.not_lt] at h
  rcases Nat.lt_or_eq_of_le h.1 with hlt | heq
  · exact .inl hlt
  · exact .inr ⟨rank_injective heq, h.2 (rank_injective heq)⟩

end PriorityTask

section

variable {s s' : Pool} {t t' : Thread} {l l' : List Thread}

theorem foremost_of_greatest {i : ℕ} {p : PriorityTask} (h : s.greatest i = some p) :
    Foremost PriorityTask.Precedes s.queue p := by
  refine ⟨(perm_of_greatest h).subset List.mem_cons_self, fun u hu hgt => ?_⟩
  have hall := List.all_eq_true.1 (Option.filter_eq_some_iff.1 h).2 u hu
  exact bne_iff_ne.1 hall hgt

theorem pop_of_step {s u : State} {i j : ℕ} (h : system.step s (.act i (.pop j)) = some u) :
    ∃ id p, s.shared.greatest j = some p ∧ u.threads[i]? = some (.worker id (.popped p)) := by
  obtain ⟨t, ⟨x, t'⟩, ht, hact, rfl⟩ := Machine.step_act_iff.1 h
  have hlt : i < s.threads.length := (List.getElem?_eq_some_iff.1 ht).1
  cases t with
  | worker id w =>
    obtain ⟨⟨y, w'⟩, hw, heq⟩ := Option.map_eq_some_iff.1 hact
    cases heq
    cases w with
    | leaving =>
      obtain ⟨p, hp, heq⟩ := Option.map_eq_some_iff.1 hw
      cases heq
      exact ⟨id, p, hp, List.getElem?_set_self hlt⟩
    | _ => cases hw
  | spawn t => cases t <;> cases hact
  | drop t => cases t <;> cases hact

/-! ## Tasks that wait together -/

/-- No worker takes a step. -/
def Blocked : State → Step → Prop := Machine.ThreadSteps fun _ t _ => t.workerId = none

/-- One thread calls `spawn` for these tasks, each call after the one before has returned,
    while no worker takes a step. Other threads act in between. -/
inductive Queues (s : State) : List PriorityTask → State → Prop
  | nil : Queues s [] s
  | call {ts : List PriorityTask} {x y z : State} {priority : TaskPriority} {bs : List Step} :
      Queues s ts x → system.step x (.env (.spawn priority)) = some y →
      Run system.step Blocked y bs z →
      z.threads[x.threads.length]? = some (.spawn .returned) →
      Queues s (ts ++ [⟨x.shared.calls, priority, x.shared.sequence⟩]) z

/-- While the workers are blocked tasks are only pushed. -/
theorem queue_of_blocked (h : Acts s t s' t') (hblocked : t.workerId = none) :
    s.queue ⊆ s'.queue ∧ ∀ p, t = .spawn (.locking p) → p ∈ s'.queue := by
  cases h with
  | push p hfree =>
    refine ⟨List.subset_append_left _ _, ?_⟩
    rintro q ⟨⟩
    exact List.mem_append_right _ List.mem_cons_self
  | countSubmitted | deepen | notifyOne | shutDown | notifyAll | join | allJoined =>
    exact ⟨List.Subset.refl _, nofun⟩
  | _ => cases hblocked

end

/-- The task is still to be pushed by the thread, or waits. -/
def Awaited (i : ℕ) (p : PriorityTask) (s : State) : Prop :=
  s.threads[i]? = some (.spawn (.locking p)) ∨ p ∈ s.shared.queue

theorem queue_of_step {s u : State} {a : Step} (hblocked : Blocked s a)
    (h : system.step s a = some u) : s.shared.queue ⊆ u.shared.queue := by
  rcases step_cases h with ⟨e, x, t, rfl, henters, rfl⟩ | ⟨o, t, x, t', l, l', rfl, hts, hact, rfl⟩
  · cases henters <;> exact List.Subset.refl _
  · have hown : t.workerId = none := hblocked t (by simp [hts])
    exact (queue_of_blocked hact hown).1

theorem Awaited.step {s u : State} {a : Step} {i : ℕ} {p : PriorityTask} (h : Awaited i p s)
    (hblocked : Blocked s a) (hs : system.step s a = some u) : Awaited i p u := by
  rcases h with hlocking | hqueue
  · rcases Machine.step_getElem? hs hlocking with ⟨o, ⟨x, t'⟩, rfl, hact, hshared, -⟩ | hsame
    · have hacts : Acts s.shared (.spawn (.locking p)) x t' := acts_of_proceed hact
      exact .inr (hshared ▸ (queue_of_blocked hacts rfl).2 p rfl)
    · exact .inl hsame
  · exact .inr (queue_of_step hblocked hs hqueue)

/-! ## Sequence numbers -/

/-- The sequence number counts the calls of `spawn`, as far as a `u64` goes. -/
def Numbered (s : State) : Prop := s.shared.sequence.toNat = s.shared.calls % 2 ^ 64

theorem numbered_of_run {ok : State → Step → Prop} {capacity : ℕ} {as : List Step} {s : State}
    (h : Run system.step ok (initial capacity) as s) : Numbered s := by
  refine invariant_of_run (I := Numbered) (J := fun _ => True) h (fun _ _ _ => trivial) rfl ?_ ?_
  · intro s ts e s' t _ hs henters
    cases henters with
    | spawn priority hlive =>
      have hold : s.sequence.toNat = s.calls % 2 ^ 64 := hs
      simp only [Numbered, UInt64.toNat_add, hold, UInt64.toNat_one]
      omega
    | drop hlive hfree => exact hs
  · intro s l l' t o s' t' _ hs _ hact
    cases hact <;> exact hs

theorem calls_of_step {s u : State} {a : Step} (h : system.step s a = some u) :
    s.shared.calls ≤ u.shared.calls := by
  rcases step_cases h with ⟨e, x, t, rfl, henters, rfl⟩ | ⟨o, t, x, t', l, l', rfl, hts, hact, rfl⟩
  · cases henters
    · exact Nat.le_succ _
    · exact Nat.le_refl _
  · exact (calls_act hact).ge

theorem calls_of_run {ok : State → Step → Prop} {s u : State} {as : List Step}
    (h : Run system.step ok s as u) : s.shared.calls ≤ u.shared.calls :=
  h.invariant (I := fun u => s.shared.calls ≤ u.shared.calls) (Nat.le_refl _)
    fun _ _ _ ht _ hstep => ht.trans (calls_of_step hstep)

theorem spawn_of_step {s u : State} {priority : TaskPriority}
    (h : system.step s (.env (.spawn priority)) = some u) :
    u.shared = { s.shared with
      sequence := s.shared.sequence + 1, calls := s.shared.calls + 1,
      borrows := s.shared.borrows + 1 } ∧
    u.threads = s.threads ++ [.spawn (.locking ⟨s.shared.calls, priority, s.shared.sequence⟩)] := by
  rcases step_cases h with ⟨e, x, t, he, henters, rfl⟩ | ⟨o, t, x, t', l, l', ha, -⟩
  · cases he
    cases henters
    exact ⟨rfl, rfl⟩
  · cases ha

/-! ## What has been queued -/

theorem Queues.run {x y : State} {ps : List PriorityTask} (h : Queues x ps y) :
    ∃ bs, Run system.step Unrestricted x bs y := by
  induction h with
  | nil => exact ⟨[], .refl⟩
  | call _ hcall hrun _ ih =>
    obtain ⟨cs, hcs⟩ := ih
    exact ⟨_, hcs.trans (.cons trivial hcall hrun.unrestricted)⟩

/-- What is known of the tasks that were queued together. -/
structure Queued (s x : State) (ts : List PriorityTask) : Prop where
  waits : ∀ p ∈ ts, p ∈ x.shared.queue
  drawn : ∀ p ∈ ts, s.shared.calls ≤ p.task ∧ p.task < x.shared.calls
  numbered : ∀ p ∈ ts, p.sequence.toNat = p.task % 2 ^ 64
  increasing : ts.Pairwise fun p q => p.task < q.task

theorem Queues.queued {s x : State} {ts : List PriorityTask} {capacity : ℕ} {as : List Step}
    (hs : Run system.step Unrestricted (initial capacity) as s) (h : Queues s ts x) :
    Queued s x ts := by
  induction h with
  | nil => exact ⟨nofun, nofun, nofun, .nil⟩
  | @call ts x y z priority bs h hcall hrun hreturned ih =>
    obtain ⟨cs, hcs⟩ := h.run
    have hnumber : Numbered x := numbered_of_run (hs.trans hcs)
    obtain ⟨hy, hthreads⟩ := spawn_of_step hcall
    have hlater : y.shared.calls ≤ z.shared.calls := calls_of_run hrun
    have hsub : x.shared.queue ⊆ z.shared.queue := by
      refine hrun.invariant (I := fun u => x.shared.queue ⊆ u.shared.queue) ?_ ?_
      · rw [hy]
        exact List.Subset.refl _
      · exact fun t a u ht hblocked hstep =>
          List.Subset.trans ht (queue_of_step hblocked hstep)
    have hwaits : (⟨x.shared.calls, priority, x.shared.sequence⟩ : PriorityTask) ∈ z.shared.queue := by
      have hawaited : Awaited x.threads.length ⟨x.shared.calls, priority, x.shared.sequence⟩ z := by
        refine hrun.invariant (I := Awaited _ _) (.inl ?_) ?_
        · simp [hthreads]
        · exact fun t a u ht hblocked hstep => ht.step hblocked hstep
      rcases hawaited with hlocking | hqueue
      · rw [hreturned] at hlocking
        cases hlocking
      · exact hqueue
    have hnext : y.shared.calls = x.shared.calls + 1 := by rw [hy]
    refine ⟨?_, ?_, ?_, ?_⟩
    · rw [List.forall_mem_append, List.forall_mem_singleton]
      exact ⟨fun p hp => hsub (ih.waits p hp), hwaits⟩
    · rw [List.forall_mem_append, List.forall_mem_singleton]
      refine ⟨fun p hp => ⟨(ih.drawn p hp).1, ?_⟩, calls_of_run hcs, ?_⟩
      · have hlt := (ih.drawn p hp).2
        omega
      · show x.shared.calls < z.shared.calls
        omega
    · rw [List.forall_mem_append, List.forall_mem_singleton]
      exact ⟨ih.numbered, hnumber⟩
    · rw [List.pairwise_append]
      refine ⟨ih.increasing, List.pairwise_singleton _ _, fun p hp q hq => ?_⟩
      rw [List.mem_singleton.1 hq]
      exact (ih.drawn p hp).2

/-- Unless the counter has wrapped in between, the tasks bear increasing numbers. -/
theorem Queued.sequence_lt {s x : State} {ts : List PriorityTask} (h : Queued s x ts)
    (hs : Numbered s)
    (hbound : s.shared.sequence.toNat + (x.shared.calls - s.shared.calls) ≤ 2 ^ 64) :
    ts.Pairwise fun p q => p.sequence < q.sequence := by
  have hmod : s.shared.sequence.toNat = s.shared.calls % 2 ^ 64 := hs
  have hexact : ∀ p ∈ ts, p.sequence.toNat =
      s.shared.sequence.toNat + (p.task - s.shared.calls) := by
    intro p hp
    obtain ⟨hle, hlt⟩ := h.drawn p hp
    rw [h.numbered p hp]
    omega
  refine h.increasing.imp_of_mem fun {p q} hp hq hpq => ?_
  have hle := (h.drawn p hp).1
  rw [UInt64.lt_iff_toNat_lt, hexact p hp, hexact q hq]
  omega

/-- The order in which tasks that wait together are run. -/
def inOrder (ts : List PriorityTask) : List PriorityTask := ts.insertionSort PriorityTask.Outranks

theorem pairwise_inOrder {ts : List PriorityTask}
    (h : ts.Pairwise fun p q => p.sequence < q.sequence) :
    (inOrder ts).Pairwise PriorityTask.Precedes := by
  refine pairwise_insertionSort_of_ties (fun p q _ hnot => ?_) ?_
  · exact PriorityTask.precedes_iff.2 (.inl (Nat.lt_of_not_le hnot))
  · exact h.imp fun hlt houtranks => PriorityTask.precedes_of_outranks houtranks hlt

/-! ## One worker -/

/-- The task that the worker has popped and not yet started. -/
def Thread.chosen : Thread → List ℕ
  | .worker _ (.popped t) => [t.task]
  | .worker _ (.starting t) => [t.task]
  | _ => []

/-- The tasks in the order in which they are started, with the one that is started next. -/
def taken (s : State) : List ℕ := s.shared.started ++ s.threads.flatMap Thread.chosen

/-- Of the tasks `ws` that waited together those taken so far are the first ones. -/
structure Serving (ws : List PriorityTask) (s : State) : Prop where
  spawned : ∀ p ∈ ws, p.task ∈ s.shared.spawned
  own : ∀ p ∈ ws, ∀ q ∈ s.shared.queue, q.task = p.task → q = p
  serves : ∃ done, Serves ws s.shared.queue done ∧
    done.map PriorityTask.task = (taken s).filter fun id => id ∈ ws.map PriorityTask.task

section

variable {s s' : Pool} {t t' : Thread} {l l' : List Thread} {ws : List PriorityTask}

theorem Roster.alone {w : Worker} {id : ℕ} (h : Roster ⟨s, l ++ .worker id w :: l'⟩)
    (hone : s.capacity = 1) (ht : t ∈ l ++ l') : t.workerId = none := by
  cases t with
  | spawn t => rfl
  | drop t => rfl
  | worker i v =>
    have hi : i < s.capacity := h.lt (w := v) (by
      rw [List.mem_append] at ht
      exact List.mem_append.2 (ht.imp_right (List.mem_cons_of_mem _)))
    have hid : id < s.capacity := h.lt (w := w) (by simp)
    obtain rfl : i = id := by omega
    exact absurd rfl (h.others ht)

theorem chosen_of_alone {ts : List Thread} (h : ∀ t ∈ ts, t.workerId = none) :
    ts.flatMap Thread.chosen = [] := by
  rw [List.flatMap_eq_nil_iff]
  intro t ht
  cases t with
  | worker id w => cases h _ ht
  | _ => rfl

/-- What a step does to the queue and to what the thread has chosen. -/
theorem choice_act (h : Acts s t s' t') :
    (s'.queue = s.queue ∧ s'.started ++ t'.chosen = s.started ++ t.chosen) ∨
    (∃ p, s'.queue = s.queue ++ [p] ∧ t.unpushed = [p.task] ∧ s'.started = s.started ∧
      t'.chosen = [] ∧ t.chosen = []) ∨
    ∃ p, Foremost PriorityTask.Precedes s.queue p ∧ (p :: s'.queue).Perm s.queue ∧
      s'.started = s.started ∧ t.chosen = [] ∧ t'.chosen = [p.task] ∧ ∃ id w, t = .worker id w := by
  cases h with
  | push p hfree => exact .inr (.inl ⟨p, rfl, rfl, rfl, rfl, rfl⟩)
  | pop id i p hp =>
    exact .inr (.inr ⟨p, foremost_of_greatest hp, perm_of_greatest hp, rfl, rfl, rfl, id, _, rfl⟩)
  | start id p => exact .inl ⟨rfl, by simp [Thread.chosen]⟩
  | _ => exact .inl ⟨rfl, rfl⟩

theorem taken_at : taken ⟨s, l ++ t :: l'⟩ = s.started ++ (l.flatMap Thread.chosen ++
    (t.chosen ++ l'.flatMap Thread.chosen)) := by
  simp only [taken, List.flatMap_append, List.flatMap_cons]

theorem chosen_of_not_worker (h : t.workerId = none) : t.chosen = [] := by
  cases t with
  | worker id w => cases h
  | _ => rfl

/-- With one worker the tasks are taken in the order in which they are popped. -/
theorem taken_act (hroster : Roster ⟨s, l ++ t :: l'⟩) (hone : s.capacity = 1)
    (h : Acts s t s' t') :
    (s'.queue = s.queue ∧ taken ⟨s', l ++ t' :: l'⟩ = taken ⟨s, l ++ t :: l'⟩) ∨
    (∃ p, s'.queue = s.queue ++ [p] ∧ t.unpushed = [p.task] ∧
      taken ⟨s', l ++ t' :: l'⟩ = taken ⟨s, l ++ t :: l'⟩) ∨
    ∃ p, Foremost PriorityTask.Precedes s.queue p ∧ (p :: s'.queue).Perm s.queue ∧
      taken ⟨s', l ++ t' :: l'⟩ = taken ⟨s, l ++ t :: l'⟩ ++ [p.task] := by
  simp only [taken_at]
  have hothers : ∀ id w, t = .worker id w →
      l.flatMap Thread.chosen = [] ∧ l'.flatMap Thread.chosen = [] := by
    rintro id w rfl
    exact ⟨chosen_of_alone fun u hu => hroster.alone hone (List.mem_append_left _ hu),
      chosen_of_alone fun u hu => hroster.alone hone (List.mem_append_right _ hu)⟩
  rcases choice_act h with ⟨hqueue, hchoice⟩ | ⟨p, hqueue, hunpushed, hstarted, hnew, hold⟩ |
    ⟨p, hfirst, hperm, hstarted, hold, hnew, id, w, hw⟩
  · refine .inl ⟨hqueue, ?_⟩
    cases hid : t.workerId with
    | none =>
      rw [chosen_of_not_worker hid, chosen_of_not_worker ((workerId_act h).trans hid),
        List.append_nil, List.append_nil] at hchoice
      rw [chosen_of_not_worker hid, chosen_of_not_worker ((workerId_act h).trans hid), hchoice]
    | some id =>
      cases t with
      | worker i w =>
        obtain ⟨hl, hr⟩ := hothers i w rfl
        simpa only [hl, hr, List.nil_append, List.append_nil] using hchoice
      | _ => cases hid
  · exact .inr (.inl ⟨p, hqueue, hunpushed, by rw [hstarted, hnew, hold]⟩)
  · obtain ⟨hl, hr⟩ := hothers id w hw
    refine .inr (.inr ⟨p, hfirst, hperm, ?_⟩)
    simp only [hstarted, hnew, hold, hl, hr, List.append_nil, List.nil_append]

theorem Conserved.not_spawned {id : ℕ} (h : Conserved ⟨s, l ++ t :: l'⟩)
    (ht : t.unpushed = [id]) : id ∉ s.spawned := by
  intro hmem
  have hone := h.once id
  have hpos : 0 < s.spawned.count id := List.count_pos_iff.2 hmem
  simp only [List.flatMap_append, List.flatMap_cons, ht, List.count_append,
    List.count_singleton_self] at hone
  omega

theorem Conserved.nodup_queue {s : State} (h : Conserved s) :
    (s.shared.queue.map PriorityTask.task).Nodup := by
  rw [List.nodup_iff_count_le_one]
  intro id
  have hone := h.once id
  have hplaces := h.spawned id
  omega

theorem spawned_mono (h : Acts s t s' t') : s.spawned ⊆ s'.spawned := by
  cases h with
  | push p hfree => exact List.subset_append_left _ _
  | _ => exact List.Subset.refl _

theorem Serving.pop {p : PriorityTask} {x y : State} (h : Serving ws x)
    (hws : ws.Pairwise PriorityTask.Precedes) (hnodup : ws.Nodup)
    (hqueue : (x.shared.queue.map PriorityTask.task).Nodup)
    (hspawned : x.shared.spawned ⊆ y.shared.spawned)
    (hfirst : Foremost PriorityTask.Precedes x.shared.queue p)
    (hperm : (p :: y.shared.queue).Perm x.shared.queue) (htaken : taken y = taken x ++ [p.task]) :
    Serving ws y := by
  have hsplit : p ∉ y.shared.queue :=
    (List.nodup_cons.1 (hperm.nodup_iff.2 hqueue.of_map)).1
  obtain ⟨done, hserves, hdone⟩ := h.serves
  have hstays : ∀ q, q ∈ y.shared.queue ↔ q ∈ x.shared.queue ∧ q ≠ p := by
    intro q
    rw [← hperm.mem_iff, List.mem_cons]
    constructor
    · intro hq
      exact ⟨.inr hq, fun heq => hsplit (heq ▸ hq)⟩
    · rintro ⟨hq, hne⟩
      exact hq.resolve_left hne
  refine ⟨fun q hq => hspawned (h.spawned q hq), ?_, ?_⟩
  · intro q hq r hr heq
    exact h.own q hq r ((hstays r).1 hr).1 heq
  · by_cases hp : p.task ∈ ws.map PriorityTask.task
    · -- The task popped is one of `ws`, and by its place in the order the next of them.
      obtain ⟨q, hq, heq⟩ := List.mem_map.1 hp
      obtain rfl : p = q := h.own q hq p hfirst.mem heq.symm
      refine ⟨done ++ [p], hserves.take hws hnodup hq hfirst fun q _ => hstays q, ?_⟩
      rw [htaken, List.filter_append, ← hdone, List.map_append,
        List.filter_cons_of_pos (by simpa using hp)]
      rfl
    · refine ⟨done, hserves.congr fun q hq => ?_, ?_⟩
      · rw [hstays q]
        refine and_iff_left_of_imp fun _ heq => hp ?_
        exact heq ▸ List.mem_map_of_mem hq
      · rw [htaken, List.filter_append, List.filter_cons_of_neg (by simpa using hp), hdone]
        exact (List.append_nil _).symm

theorem Serving.act (h : Serving ws ⟨s, l ++ t :: l'⟩)
    (hws : ws.Pairwise PriorityTask.Precedes) (hnodup : ws.Nodup)
    (hconserved : Conserved ⟨s, l ++ t :: l'⟩) (hroster : Roster ⟨s, l ++ t :: l'⟩)
    (hone : s.capacity = 1) (hact : Acts s t s' t') : Serving ws ⟨s', l ++ t' :: l'⟩ := by
  have hspawned : ∀ p ∈ ws, p.task ∈ s'.spawned := fun p hp => spawned_mono hact (h.spawned p hp)
  rcases taken_act hroster hone hact with ⟨hqueue, htaken⟩ | ⟨p, hqueue, hunpushed, htaken⟩ |
    ⟨p, hfirst, hperm, htaken⟩
  · refine ⟨hspawned, ?_, ?_⟩
    · rw [hqueue]
      exact h.own
    · rw [hqueue, htaken]
      exact h.serves
  · -- A task that is pushed is none of `ws`, which have been spawned before.
    have hnew : ∀ q ∈ ws, q.task ≠ p.task := by
      intro q hq heq
      exact hconserved.not_spawned hunpushed (heq ▸ h.spawned q hq)
    have hmem : ∀ q ∈ ws, q ∈ s'.queue ↔ q ∈ s.queue := by
      intro q hq
      rw [hqueue, List.mem_append, List.mem_singleton]
      exact or_iff_left fun heq => hnew q hq (congrArg _ heq)
    obtain ⟨done, hserves, hdone⟩ := h.serves
    refine ⟨hspawned, ?_, done, hserves.congr hmem, htaken ▸ hdone⟩
    intro q hq r hr heq
    rw [hqueue, List.mem_append, List.mem_singleton] at hr
    rcases hr with hold | rfl
    · exact h.own q hq r hold heq
    · exact absurd heq.symm (hnew q hq)
  · exact h.pop hws hnodup hconserved.nodup_queue (spawned_mono hact) hfirst hperm htaken

theorem Serving.env {e : Input} {ts : List Thread} (h : Serving ws ⟨s, ts⟩)
    (henters : Enters s e s' t) : Serving ws ⟨s', ts ++ [t]⟩ := by
  obtain ⟨hspawned, hown, hserves⟩ := h
  cases henters <;> exact ⟨hspawned, hown, by simpa [taken, Thread.chosen] using hserves⟩

theorem Serving.step {x y : State} {a : Step} (h : Serving ws x)
    (hws : ws.Pairwise PriorityTask.Precedes) (hnodup : ws.Nodup) (hconserved : Conserved x)
    (hroster : Roster x) (hone : x.shared.capacity = 1) (hstep : system.step x a = some y) :
    Serving ws y := by
  obtain ⟨s, ts⟩ := x
  rcases step_cases hstep with ⟨e, s', t, rfl, henters, rfl⟩ |
    ⟨o, t, s', t', l, l', rfl, hts, hact, rfl⟩
  · exact h.env henters
  · obtain rfl : ts = l ++ t :: l' := hts
    exact h.act hws hnodup hconserved hroster hone hact

/-- A task in the queue has not been taken. -/
theorem Conserved.not_taken {x : State} {p : PriorityTask} (h : Conserved x)
    (hp : p ∈ x.shared.queue) : p.task ∉ taken x := by
  have hsub : ∀ ts : List Thread, (ts.flatMap Thread.chosen).Sublist (inHand ts) := by
    intro ts
    induction ts with
    | nil => exact .slnil
    | cons t ts ih =>
      have hown : t.chosen.Sublist t.inHand := by
        cases t with
        | worker id w => cases w <;> first | exact List.Sublist.refl _ | exact List.nil_sublist _
        | _ => exact .slnil
      exact hown.append ih
  have hqueue : 0 < (x.shared.queue.map PriorityTask.task).count p.task :=
    List.count_pos_iff.2 (List.mem_map_of_mem hp)
  have hrunning := (running_sublist x.threads).count_le p.task
  have hchosen := (hsub x.threads).count_le p.task
  have hone := h.once p.task
  have hplaces := h.spawned p.task
  have hstarted := h.started p.task
  rw [← List.count_eq_zero, taken, List.count_append]
  omega

/-- A task that is still to be spawned has not been started. -/
theorem Conserved.not_started {x : State} {id : ℕ} (h : Conserved x) (hid : x.shared.calls ≤ id) :
    id ∉ x.shared.started := by
  have hdrawn := h.drawn id hid
  have hplaces := h.spawned id
  have hstarted := h.started id
  have hrunning := (running_sublist x.threads).count_le id
  rw [← List.count_eq_zero]
  omega

theorem Queued.serving {s x : State} {ts : List PriorityTask} (h : Queued s x ts)
    (hconserved : Conserved x) : Serving (inOrder ts) x := by
  have hmem : ∀ p, p ∈ inOrder ts ↔ p ∈ ts := fun p => List.mem_insertionSort _
  refine ⟨fun p hp => ?_, fun p hp q hq heq => ?_, [], ?_, ?_⟩
  · have hqueue : 0 < (x.shared.queue.map PriorityTask.task).count p.task :=
      List.count_pos_iff.2 (List.mem_map_of_mem (h.waits p ((hmem p).1 hp)))
    have hplaces := hconserved.spawned p.task
    exact List.count_pos_iff.1 (by omega)
  · exact List.inj_on_of_nodup_map hconserved.nodup_queue hq (h.waits p ((hmem p).1 hp)) heq
  · exact Serves.start fun p hp => h.waits p ((hmem p).1 hp)
  · symm
    rw [List.map_nil, List.filter_eq_nil_iff]
    intro id hid hids
    obtain ⟨p, hp, rfl⟩ := List.mem_map.1 (of_decide_eq_true hids)
    exact hconserved.not_taken (h.waits p ((hmem p).1 hp)) hid

end

theorem serving_of_run {s x y : State} {ts : List PriorityTask} {as bs : List Step}
    (hs : Run system.step Unrestricted (initial 1) as s) (hqueues : Queues s ts x)
    (hbound : s.shared.sequence.toNat + (x.shared.calls - s.shared.calls) ≤ 2 ^ 64)
    (hrun : Run system.step Unrestricted x bs y) : Serving (inOrder ts) y := by
  obtain ⟨cs, hcs⟩ := hqueues.run
  have h := hqueues.queued hs
  have hx : Run system.step Unrestricted (initial 1) (as ++ cs) x := hs.trans hcs
  have hordered := pairwise_inOrder (h.sequence_lt (numbered_of_run hs) hbound)
  have hnodup : (inOrder ts).Nodup := by
    refine (List.perm_insertionSort _ ts).nodup_iff.2 (h.increasing.imp fun hlt heq => ?_)
    exact absurd (congrArg PriorityTask.task heq) hlt.ne
  refine hrun.invariant_of (J := fun z => Conserved z ∧ Roster z ∧ z.shared.capacity = 1)
    (fun ds z hz => ?_) (h.serving (conserved_of_run hx)) ?_
  · exact ⟨conserved_of_run (hx.trans hz), roster_of_run (hx.trans hz)⟩
  · rintro z a z' ⟨hconserved, hroster, hone⟩ hserving - hstep
    exact hserving.step hordered hnodup hconserved hroster hone hstep

/-- What has been started of `ws` is the beginning of `ws`. -/
theorem Serving.started_begins {y : State} {ws : List PriorityTask} (h : Serving ws y) :
    (y.shared.started.filter fun id => id ∈ ws.map PriorityTask.task) <+:
      ws.map PriorityTask.task := by
  obtain ⟨done, ⟨rest, rfl, -⟩, hdone⟩ := h.serves
  have hstarted : y.shared.started <+: taken y := List.prefix_append _ _
  refine (hstarted.filter _).trans ?_
  rw [← hdone, List.map_append]
  exact List.prefix_append _ _

/-- A prefix of a list without repetition that has all its elements is the whole list. -/
theorem eq_of_prefix_of_subset {xs ys : List ℕ} (h : xs <+: ys) (hnodup : ys.Nodup)
    (hsub : ys ⊆ xs) : xs = ys :=
  h.eq_of_length_le (List.subperm_of_subset hnodup hsub).length_le

/-- The order of tasks is lawful; a worker pops the oldest of the tasks of the highest
    priority; and a single worker runs the tasks that a thread has queued while it was
    blocked as a stable sort by descending priority lists them, unless the sequence number
    has wrapped while they were queued. -/
theorem served_by_priority {capacity : ℕ} {as : List Step} {s : State}
    (h : Run system.step Unrestricted (initial capacity) as s) :
    (Std.TransCmp PriorityTask.cmp ∧ ∀ a b : PriorityTask, a.cmp b = .eq ↔ a.eq b = true) ∧
    (∀ i j u, system.step s (.act i (.pop j)) = some u → ∃ id, ∃ p ∈ s.shared.queue,
      u.threads[i]? = some (.worker id (.popped p)) ∧ ∀ q ∈ s.shared.queue,
        q.priority.rank < p.priority.rank ∨
          (q.priority = p.priority ∧ p.sequence ≤ q.sequence)) ∧
    (capacity = 1 → ∀ ts x, Queues s ts x →
      s.shared.sequence.toNat + (x.shared.calls - s.shared.calls) ≤ 2 ^ 64 →
      ∀ bs y, Run system.step Unrestricted x bs y →
        (y.shared.started.filter fun id => id ∈ ts.map PriorityTask.task) <+:
          (ts.insertionSort PriorityTask.Outranks).map PriorityTask.task ∧
        ((∀ p ∈ ts, p.task ∈ y.shared.started) →
          (y.shared.started.filter fun id => id ∈ ts.map PriorityTask.task) =
            (ts.insertionSort PriorityTask.Outranks).map PriorityTask.task)) := by
  refine ⟨⟨inferInstance, fun a b => PriorityTask.cmp_eq_iff⟩, fun i j u hstep => ?_, ?_⟩
  · obtain ⟨id, p, hgreatest, hthread⟩ := pop_of_step hstep
    have hfirst := foremost_of_greatest hgreatest
    exact ⟨id, p, hfirst.mem, hthread, fun q hq =>
      PriorityTask.outranks_of_not_precedes (hfirst.first q hq)⟩
  · rintro rfl ts x hqueues hbound bs y hrun
    have hqueued := hqueues.queued h
    have hids : ∀ id, id ∈ (inOrder ts).map PriorityTask.task ↔ id ∈ ts.map PriorityTask.task :=
      fun id => ((List.perm_insertionSort _ ts).map _).mem_iff
    have hbegins := (serving_of_run h hqueues hbound hrun).started_begins
    simp only [hids] at hbegins
    refine ⟨hbegins, fun hall => eq_of_prefix_of_subset hbegins ?_ fun id hid => ?_⟩
    · refine ((List.perm_insertionSort _ ts).map _).nodup_iff.2 ?_
      exact List.pairwise_map.2 (hqueued.increasing.imp fun hlt => hlt.ne)
    · have hmem : id ∈ ts.map PriorityTask.task := (hids id).1 hid
      obtain ⟨p, hp, rfl⟩ := List.mem_map.1 hmem
      exact List.mem_filter.2 ⟨hall p hp, decide_eq_true hmem⟩

/-! ## Runs of one worker -/

/-- A pool whose worker is about to take the lock, with nothing queued. -/
structure Resting (n : ℕ) (s : Pool) : Prop where
  locked : s.locked = false
  dropped : s.dropped = false
  waiters : s.waiters = []
  queue : s.queue = []
  calls : s.calls = n
  sequence : s.sequence = .ofNat n

section

variable {s s' : Pool} {ts r : List Thread} {p : PriorityTask} {n : ℕ}

theorem worker_step {w w' : Worker} {o : Choice} (h : w.proceed s 0 o = some (s', w')) :
    system.step ⟨s, .worker 0 w :: r⟩ (.act 0 o) = some ⟨s', .worker 0 w' :: r⟩ := by
  have hact : system.act s (.worker 0 w) o = some (s', .worker 0 w') :=
    congrArg (Option.map fun r : Pool × Worker => (r.1, Thread.worker 0 r.2)) h
  exact Machine.step_act_at (s := ⟨s, _⟩) (l := []) rfl hact

theorem spawn_step {t t' : Spawn} {o : Choice} (h : t.proceed s o = some (s', t')) :
    system.step ⟨s, ts ++ [.spawn t]⟩ (.act ts.length o) = some ⟨s', ts ++ [.spawn t']⟩ := by
  have hact : system.act s (.spawn t) o = some (s', .spawn t') :=
    congrArg (Option.map fun r : Pool × Spawn => (r.1, Thread.spawn r.2)) h
  exact Machine.step_act_at (s := ⟨s, ts ++ [.spawn t]⟩) rfl hact

/-- A call of `spawn` begins: it draws its number. -/
def Pool.entered (s : Pool) : Pool :=
  { s with sequence := s.sequence + 1, calls := s.calls + 1, borrows := s.borrows + 1 }

/-- The pool after a call of `spawn` that wakes nobody. -/
def Pool.called (s : Pool) (t : PriorityTask) : Pool :=
  { ((s.entered.push t).countSubmitted.addDepth t.priority 1).unlock with
    waiters := [], borrows := s.borrows }

@[simp] theorem called_locked (t : PriorityTask) : (s.called t).locked = false := rfl

@[simp] theorem called_dropped (t : PriorityTask) : (s.called t).dropped = s.dropped := rfl

@[simp] theorem called_waiters (t : PriorityTask) : (s.called t).waiters = [] := rfl

@[simp] theorem called_queue (t : PriorityTask) : (s.called t).queue = s.queue ++ [t] := rfl

@[simp] theorem called_calls (t : PriorityTask) : (s.called t).calls = s.calls + 1 := rfl

@[simp] theorem called_sequence (t : PriorityTask) : (s.called t).sequence = s.sequence + 1 := rfl

@[simp] theorem called_started (t : PriorityTask) : (s.called t).started = s.started := rfl

theorem run_call (hfree : s.locked = false) (hwaiters : s.waiters = []) (t : PriorityTask) :
    Run system.step Blocked ⟨s.entered, ts ++ [.spawn (.locking t)]⟩
      [.act ts.length .go, .act ts.length .go, .act ts.length .go, .act ts.length (.wake 0)]
      ⟨s.called t, ts ++ [.spawn .returned]⟩ := by
  have hblocked : ∀ (u : Pool) (t : Spawn) o, Blocked ⟨u, ts ++ [.spawn t]⟩ (.act ts.length o) :=
    fun u t o => Machine.threadSteps_at.2 rfl
  have hlock : Spawn.proceed s.entered (.locking t) .go = some (s.entered.push t, .pushed t) :=
    if_neg (by simp [Pool.entered, hfree])
  have hnotify : Spawn.proceed ((s.entered.push t).countSubmitted.addDepth t.priority 1).unlock
      (.notifying t) (.wake 0) = some (s.called t, .returned) := by
    simp [Spawn.proceed, Pool.called, Pool.entered, Pool.push, Pool.countSubmitted, Pool.addDepth,
      Pool.unlock, hwaiters]
  refine .cons (hblocked _ _ _) (spawn_step hlock) ?_
  refine .cons (hblocked _ _ _) (spawn_step rfl) (.cons (hblocked _ _ _) (spawn_step rfl) ?_)
  exact .single (hblocked _ _ _) (spawn_step hnotify)

theorem Queues.spawn {x : State} {ps : List PriorityTask} (h : Queues x ps ⟨s, ts⟩)
    (hfree : s.locked = false) (hlive : s.dropped = false) (hwaiters : s.waiters = [])
    (priority : TaskPriority) :
    Queues x (ps ++ [⟨s.calls, priority, s.sequence⟩])
      ⟨s.called ⟨s.calls, priority, s.sequence⟩, ts ++ [.spawn .returned]⟩ := by
  have hcall : system.step ⟨s, ts⟩ (.env (.spawn priority)) =
      some ⟨s.entered, ts ++ [.spawn (.locking ⟨s.calls, priority, s.sequence⟩)]⟩ := by
    simp [Machine.step, system, enter, hlive, Pool.entered]
  exact .call h hcall (run_call hfree hwaiters _) (by simp)

/-- The worker pops a greatest task and starts it. -/
theorem run_start {j : ℕ} (hfree : s.locked = false) (hgreatest : s.greatest j = some p) :
    Run system.step Unrestricted ⟨s, .worker 0 .locking :: r⟩
      [.act 0 .go, .act 0 .go, .act 0 (.pop j), .act 0 .go, .act 0 .go]
      ⟨{ ({ s with
            locked := true, queue := s.queue.eraseIdx j }.addDepth p.priority (-1)).unlock.addActive 1 with
          started := s.started ++ [p.task] }, .worker 0 (.running p) :: r⟩ := by
  have hlock : Worker.proceed s 0 .locking .go = some ({ s with locked := true }, .testing) :=
    if_neg (by simp [hfree])
  have htest : Worker.proceed { s with locked := true } 0 .testing .go =
      some ({ s with locked := true }, .leaving) := by
    have hne : s.queue.isEmpty = false :=
      List.isEmpty_eq_false_iff.2 (List.ne_nil_of_mem (foremost_of_greatest hgreatest).mem)
    simp [Worker.proceed, hne]
  have hpop : Worker.proceed { s with locked := true } 0 .leaving (.pop j) =
      some ({ s with locked := true, queue := s.queue.eraseIdx j }, .popped p) := by
    have hsame : { s with locked := true }.greatest j = some p := hgreatest
    rw [Worker.proceed, hsame]
    rfl
  refine .cons trivial (worker_step hlock) (.cons trivial (worker_step htest) ?_)
  refine .cons trivial (worker_step hpop) (.cons trivial (worker_step rfl) ?_)
  exact .single trivial (worker_step rfl)

theorem run_end : Run system.step Unrestricted ⟨s, .worker 0 (.running p) :: r⟩
    [.act 0 (.ends false 0), .act 0 .go, .act 0 .go, .act 0 .go]
    ⟨(({ s with
        finished := s.finished ++ [p.task] }.addExecutionTime 0).addActive (-1)).countEnded false,
      .worker 0 .locking :: r⟩ := by
  refine .cons trivial (worker_step rfl) ?_
  refine .cons trivial (worker_step rfl) ?_
  refine .cons trivial (worker_step rfl) ?_
  exact .single trivial (worker_step rfl)

theorem run_task {j : ℕ} (hfree : s.locked = false) (hgreatest : s.greatest j = some p) :
    ∃ as u, Run system.step Unrestricted ⟨s, .worker 0 .locking :: r⟩ as
        ⟨u, .worker 0 .locking :: r⟩ ∧
      u.locked = false ∧ u.dropped = s.dropped ∧ u.waiters = s.waiters ∧
      u.queue = s.queue.eraseIdx j ∧ u.calls = s.calls ∧ u.sequence = s.sequence :=
  ⟨_, _, (run_start hfree hgreatest).trans run_end, rfl, rfl, rfl, rfl, rfl, rfl⟩

/-- Two calls of one thread, while the worker is about to take the lock. -/
theorem queues_two (h : Resting n s) (p q : TaskPriority) :
    ∃ u r', Queues ⟨s, .worker 0 .locking :: r⟩
        [⟨n, p, .ofNat n⟩, ⟨n + 1, q, .ofNat n + 1⟩] ⟨u, .worker 0 .locking :: r'⟩ ∧
      u.queue = [⟨n, p, .ofNat n⟩, ⟨n + 1, q, .ofNat n + 1⟩] ∧ u.locked = false ∧
      u.calls = n + 2 ∧ u.started = s.started := by
  have hone : Queues ⟨s, .worker 0 .locking :: r⟩ _ _ :=
    Queues.nil.spawn h.locked h.dropped h.waiters p
  have htwo := hone.spawn (called_locked _) ((called_dropped _).trans h.dropped) (called_waiters _) q
  simp only [called_calls, called_sequence, h.calls, h.sequence, List.nil_append,
    List.cons_append] at htwo
  refine ⟨_, _, htwo, ?_⟩
  simp [h.queue, h.calls]

/-- After any number of tasks that were run one after the other the worker is at rest. -/
theorem exists_resting (n : ℕ) : ∃ as s r,
    Run system.step Unrestricted (initial 1) as ⟨s, .worker 0 .locking :: r⟩ ∧ Resting n s := by
  induction n with
  | zero => exact ⟨[], _, [], .refl, rfl, rfl, rfl, rfl, rfl, rfl⟩
  | succ n ih =>
    obtain ⟨as, s, r, hrun, h⟩ := ih
    have hcall : Queues ⟨s, .worker 0 .locking :: r⟩ _ _ :=
      Queues.nil.spawn h.locked h.dropped h.waiters .low
    obtain ⟨bs, hbs⟩ := hcall.run
    have hgreatest : ∀ t, (s.called t).greatest 0 = some t := by
      intro t
      simp [Pool.greatest, h.queue, PriorityTask.cmp]
    obtain ⟨cs, u, htask, hfree, hdropped, hwaiters, hqueue, hcalls, hsequence⟩ :=
      run_task (r := r ++ [.spawn .returned]) (called_locked _) (hgreatest ⟨s.calls, .low, s.sequence⟩)
    refine ⟨_, u, _, (hrun.trans hbs).trans htask, hfree, hdropped.trans h.dropped, hwaiters, ?_,
      hcalls.trans (congrArg (· + 1) h.calls), ?_⟩
    · rw [hqueue, called_queue, h.queue]
      rfl
    · rw [hsequence, called_sequence, h.sequence, UInt64.ofNat_add]
      rfl

theorem greatest_of_queue {u : Pool} {l : List PriorityTask} {j : ℕ} (h : u.queue = l)
    (hp : (l[j]?.filter fun t => l.all fun q => q.cmp t != .gt) = some p) :
    u.greatest j = some p := by
  rw [Pool.greatest, h]
  exact hp

end

/-- A low and then a critical task that are queued before the worker takes one. -/
theorem served_by_priority_two : ∃ ts x bs y, Queues (initial 1) ts x ∧
    Run system.step Unrestricted x bs y ∧
    (y.shared.started.filter fun id => id ∈ ts.map PriorityTask.task) = [1, 0] := by
  have hnew : Resting 0 (.new 1) := ⟨rfl, rfl, rfl, rfl, rfl, rfl⟩
  obtain ⟨u, r, hqueues, hqueue, hfree, hcalls, hstarted⟩ :=
    queues_two hnew (r := []) .low .critical
  have hsecond : u.greatest 1 = some ⟨1, .critical, 1⟩ := greatest_of_queue hqueue (by decide)
  have hstart := (run_start (r := r) hfree hsecond).trans run_end
  have hfirst : ∀ v : Pool, v.queue = u.queue.eraseIdx 1 → v.greatest 0 = some ⟨0, .low, 0⟩ :=
    fun v hv => greatest_of_queue (l := [⟨0, .low, 0⟩]) (by rw [hv, hqueue]; rfl) (by decide)
  have hrun := hstart.trans (run_start rfl (hfirst _ rfl))
  have hbound : (initial 1).shared.sequence.toNat + (u.calls - (initial 1).shared.calls) ≤ 2 ^ 64 := by
    rw [hcalls]
    decide
  refine ⟨_, _, _, _, hqueues, hrun, ?_⟩
  refine (((served_by_priority .refl).2.2 rfl _ _ hqueues hbound _ _ hrun).2 ?_).trans (by decide)
  simp [Pool.countEnded, Pool.addActive, Pool.addExecutionTime, Pool.unlock, Pool.addDepth]

/-- When the sequence number wraps between two calls the second task runs first. -/
theorem wrapped_runs_first : ∃ as s ts x bs y,
    Run system.step Unrestricted (initial 1) as s ∧ Queues s ts x ∧
      Run system.step Unrestricted x bs y ∧
      ¬ (y.shared.started.filter fun id => id ∈ ts.map PriorityTask.task) <+:
        (ts.insertionSort PriorityTask.Outranks).map PriorityTask.task := by
  obtain ⟨as, s, r, hrun, h⟩ := exists_resting (2 ^ 64 - 1)
  obtain ⟨u, r', hqueues, hqueue, hfree, hcalls, hstarted⟩ := queues_two h .low .low
  have hsecond : u.greatest 1 = some ⟨2 ^ 64, .low, 0⟩ := greatest_of_queue hqueue (by decide)
  have hnone : ∀ id ∈ s.started, ¬ 2 ^ 64 - 1 ≤ id :=
    fun id hmem hid => (conserved_of_run hrun).not_started (h.calls ▸ hid) hmem
  refine ⟨as, _, _, _, _, _, hrun, hqueues, run_start hfree hsecond, fun hbegins => ?_⟩
  have hfilter : ((u.started ++ [2 ^ 64]).filter fun id => id ∈ [2 ^ 64 - 1, 2 ^ 64]) = [2 ^ 64] := by
    rw [hstarted, List.filter_append, List.filter_eq_nil_iff.2]
    · rfl
    · intro id hmem hid
      refine hnone id hmem ?_
      rcases List.mem_pair.1 (of_decide_eq_true hid) with rfl | rfl <;> decide
  have hsort : (List.insertionSort PriorityTask.Outranks [⟨2 ^ 64 - 1, .low, .ofNat (2 ^ 64 - 1)⟩,
      ⟨2 ^ 64 - 1 + 1, .low, .ofNat (2 ^ 64 - 1) + 1⟩]).map PriorityTask.task =
        [2 ^ 64 - 1, 2 ^ 64] := by decide
  rw [hsort] at hbegins
  have hwrong : ((u.started ++ [2 ^ 64]).filter fun id => id ∈ [2 ^ 64 - 1, 2 ^ 64]) <+:
      [2 ^ 64 - 1, 2 ^ 64] := hbegins
  rw [hfilter] at hwrong
  exact absurd hwrong (by decide)

end ComputePool
