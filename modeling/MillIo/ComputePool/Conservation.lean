-- SUMMARY: Every task of the compute pool is queued, in the hands of one worker or finished, runs once, and has run when the drop of the pool returns.
import MillIo.ComputePool.Roster
import Mathlib.Data.List.Perm.Basic

/-!
# The tasks of the pool

A task goes from the call of `spawn` into the queue, from there to the worker that pops
it, and ends with its run, whether it returns or panics. The workers leave only when
the queue is empty, and nothing is spawned once the pool is being dropped.
-/

namespace ComputePool

open Interleaving

/-! ## Where a task is -/

/-- The tasks that a worker has popped and not yet finished. -/
def Thread.inHand : Thread → List ℕ
  | .worker _ (.popped t) => [t.task]
  | .worker _ (.starting t) => [t.task]
  | .worker _ (.running t) => [t.task]
  | _ => []

def Thread.running : Thread → List ℕ
  | .worker _ (.running t) => [t.task]
  | _ => []

/-- The tasks that a call of `spawn` has still to push. -/
def Thread.unpushed : Thread → List ℕ
  | .spawn (.locking t) => [t.task]
  | _ => []

def inHand (ts : List Thread) : List ℕ := ts.flatMap Thread.inHand

/-- The tasks that are being run. -/
def running (ts : List Thread) : List ℕ := ts.flatMap Thread.running

/-- A task that is being run is in the hands of its worker. -/
theorem running_sublist (ts : List Thread) : (running ts).Sublist (inHand ts) := by
  induction ts with
  | nil => exact .slnil
  | cons t ts ih =>
    have hown : t.running.Sublist t.inHand := by
      cases t with
      | spawn t => exact .slnil
      | drop t => exact .slnil
      | worker id w => cases w <;> first | exact List.Sublist.refl _ | exact List.nil_sublist _
    exact hown.append ih

/-- Each task is in one place, and is started as often as it is running or finished. -/
structure Conserved (s : State) : Prop where
  drawn : ∀ id, s.shared.calls ≤ id →
    (s.threads.flatMap Thread.unpushed).count id + s.shared.spawned.count id = 0
  once : ∀ id, (s.threads.flatMap Thread.unpushed).count id + s.shared.spawned.count id ≤ 1
  spawned : ∀ id, s.shared.spawned.count id = (s.shared.queue.map PriorityTask.task).count id +
    ((inHand s.threads).count id + s.shared.finished.count id)
  started : ∀ id, s.shared.started.count id =
    (running s.threads).count id + s.shared.finished.count id

section

variable {s s' : Pool} {t t' : Thread} {l l' : List Thread} {id : ℕ}

theorem perm_of_greatest {i : ℕ} {p : PriorityTask} (h : s.greatest i = some p) :
    (p :: s.queue.eraseIdx i).Perm s.queue := by
  obtain ⟨hi, -⟩ := Option.filter_eq_some_iff.1 h
  obtain ⟨hlt, rfl⟩ := List.getElem?_eq_some_iff.1 hi
  exact List.getElem_cons_eraseIdx_perm hlt

/-- Only a call of `spawn` that pushes its task adds to the tasks spawned. -/
theorem spawned_act (h : Acts s t s' t') (id : ℕ) :
    t'.unpushed.count id + s'.spawned.count id = t.unpushed.count id + s.spawned.count id := by
  cases h with
  | push p hfree => simp [Thread.unpushed, Pool.push, Nat.add_comm]
  | _ => rfl

theorem calls_act (h : Acts s t s' t') : s'.calls = s.calls := by
  cases h <;> rfl

/-- A task moves on, and none comes or goes but by a push. -/
theorem places_act (h : Acts s t s' t') (id : ℕ) :
    (s'.queue.map PriorityTask.task).count id + (t'.inHand.count id + s'.finished.count id) +
        s.spawned.count id =
      (s.queue.map PriorityTask.task).count id + (t.inHand.count id + s.finished.count id) +
        s'.spawned.count id := by
  cases h with
  | push p hfree =>
    simp only [Pool.push, Thread.inHand, List.map_append, List.map_cons, List.map_nil,
      List.count_append, List.count_nil]
    omega
  | pop i j p hp =>
    have hperm := ((perm_of_greatest hp).map PriorityTask.task).count_eq id
    simp only [List.map_cons] at hperm
    simp only [Thread.inHand, List.count_nil, ← hperm, List.count_cons]
    omega
  | finish i p panicked nanos =>
    simp only [Thread.inHand, List.count_append, List.count_nil]
    omega
  | _ => rfl

theorem started_act (h : Acts s t s' t') (id : ℕ) :
    t'.running.count id + s'.finished.count id + s.started.count id =
      t.running.count id + s.finished.count id + s'.started.count id := by
  cases h with
  | start i p =>
    simp only [Thread.running, Pool.addActive, List.count_append, List.count_nil]
    omega
  | finish i p panicked nanos =>
    simp only [Thread.running, List.count_append, List.count_nil]
    omega
  | _ => rfl

theorem Conserved.act (h : Conserved ⟨s, l ++ t :: l'⟩) (hact : Acts s t s' t') :
    Conserved ⟨s', l ++ t' :: l'⟩ := by
  obtain ⟨hdrawn, honce, hspawned, hstarted⟩ := h
  simp only [inHand, running, List.flatMap_append, List.flatMap_cons, List.count_append]
    at hdrawn honce hspawned hstarted
  refine ⟨fun id hid => ?_, fun id => ?_, fun id => ?_, fun id => ?_⟩ <;>
    simp only [inHand, running, List.flatMap_append, List.flatMap_cons, List.count_append]
  · have hzero := hdrawn id (calls_act hact ▸ hid)
    have hmove := spawned_act hact id
    omega
  · have hone := honce id
    have hmove := spawned_act hact id
    omega
  · have hold := hspawned id
    have hmove := places_act hact id
    omega
  · have hold := hstarted id
    have hmove := started_act hact id
    omega

theorem Conserved.env {e : Input} {ts : List Thread} (h : Conserved ⟨s, ts⟩)
    (henters : Enters s e s' t) : Conserved ⟨s', ts ++ [t]⟩ := by
  obtain ⟨hdrawn, honce, hspawned, hstarted⟩ := h
  simp only [inHand, running] at hdrawn honce hspawned hstarted
  cases henters with
  | spawn priority hlive =>
    refine ⟨fun id hid => ?_, fun id => ?_, fun id => ?_, fun id => ?_⟩ <;>
      simp only [inHand, running, List.flatMap_append, List.flatMap_cons, List.flatMap_nil,
        List.count_append, Thread.unpushed, Thread.inHand, Thread.running, List.append_nil]
    · simp only at hid
      have hne : s.calls ≠ id := by omega
      rw [List.count_singleton, beq_false_of_ne hne]
      exact hdrawn id (by omega)
    · rw [List.count_singleton]
      split
      · rename_i heq
        have hzero := hdrawn id (by simpa using (beq_iff_eq.1 heq).le)
        omega
      · exact honce id
    · exact hspawned id
    · exact hstarted id
  | drop hlive hfree =>
    refine ⟨fun id hid => ?_, fun id => ?_, fun id => ?_, fun id => ?_⟩ <;>
      simp only [inHand, running, List.flatMap_append, List.flatMap_cons, List.flatMap_nil,
        Thread.unpushed, Thread.inHand, Thread.running, List.append_nil]
    · exact hdrawn id hid
    · exact honce id
    · exact hspawned id
    · exact hstarted id

theorem conserved_of_run {ok : State → Step → Prop} {capacity : ℕ} {as : List Step} {s : State}
    (h : Run system.step ok (initial capacity) as s) : Conserved s := by
  refine invariant_of_run (I := Conserved) (J := fun _ => True) h (fun _ _ _ => trivial) ?_ ?_ ?_
  · have hnone : ∀ f : Thread → List ℕ, (∀ i, f (.worker i .locking) = []) →
        (initial capacity).threads.flatMap f = [] := by
      intro f hf
      simp [initial, hf]
    refine ⟨fun id _ => ?_, fun id => ?_, fun id => ?_, fun id => ?_⟩
    · rw [hnone Thread.unpushed fun _ => rfl]
      rfl
    · rw [hnone Thread.unpushed fun _ => rfl]
      exact Nat.zero_le 1
    · rw [inHand, hnone Thread.inHand fun _ => rfl]
      rfl
    · rw [running, hnone Thread.running fun _ => rfl]
      rfl
  · exact fun s ts e s' t _ hs henters => hs.env henters
  · exact fun s l l' t o s' t' _ hs _ hact => hs.act hact

/-! ## The workers leave -/

/-- A worker that has left saw the queue empty at the shutdown, and the drop has joined
    the workers up to its index. -/
structure Departed (s : State) : Prop where
  drained : s.shared.exited ≠ [] → s.shared.queue = [] ∧ s.shared.shutdown = true
  exited : ∀ id ∈ s.shared.exited, .worker id .exited ∈ s.threads
  joined : ∀ i, .drop (.joining i) ∈ s.threads → ∀ id < i, id ∈ s.shared.exited
  returned : .drop .returned ∈ s.threads → ∀ id < s.shared.capacity, id ∈ s.shared.exited

theorem exited_act (h : Acts s t s' t') : s'.exited = s.exited ∨
    ∃ id, s'.exited = s.exited ++ [id] ∧ t' = .worker id .exited ∧ s.queue = [] ∧
      s.shutdown = true := by
  cases h with
  | exit id hempty hshut => exact .inr ⟨id, rfl, rfl, hempty, hshut⟩
  | _ => exact .inl rfl

/-- Once a worker has left nothing enters the queue. -/
theorem queue_of_shutdown (hlent : Lent ⟨s, l ++ t :: l'⟩) (hact : Acts s t s' t')
    (hshut : s.shutdown = true) (hempty : s.queue = []) : s'.queue = [] := by
  cases hact with
  | push p hfree =>
    have hzero := hlent.not_borrowed (hlent.shutdown hshut) (t := .spawn (.locking p)) (by simp)
    cases hzero
  | pop id i p hp => simp [hempty]
  | _ => exact hempty

theorem Departed.act (h : Departed ⟨s, l ++ t :: l'⟩) (hlent : Lent ⟨s, l ++ t :: l'⟩)
    (hact : Acts s t s' t') : Departed ⟨s', l ++ t' :: l'⟩ := by
  have hmono : ∀ id ∈ s.exited, id ∈ s'.exited := by
    intro id hid
    rcases exited_act hact with heq | ⟨i, heq, -⟩ <;> rw [heq]
    · exact hid
    · exact List.mem_append_left _ hid
  have hthread : ∀ {x}, x ∈ l ++ t' :: l' → x = t' ∨ x ∈ l ++ t :: l' := by
    intro x hx
    rw [List.mem_append, List.mem_cons] at hx ⊢
    tauto
  refine ⟨fun hne => ?_, fun id hid => ?_, fun i hi id hlt => ?_, fun hd id hlt => ?_⟩
  · have hold : s.queue = [] ∧ s.shutdown = true := by
      rcases exited_act hact with heq | ⟨i, -, -, hempty, hshut⟩
      · exact h.drained (heq ▸ hne)
      · exact ⟨hempty, hshut⟩
    exact ⟨queue_of_shutdown hlent hact hold.2 hold.1, shutdown_mono hact hold.2⟩
  · rcases exited_act hact with heq | ⟨i, heq, rfl, -⟩
    · have hmem := h.exited id (heq ▸ hid)
      rw [List.mem_append, List.mem_cons] at hmem ⊢
      rcases hmem with hl | rfl | hr
      · exact .inl hl
      · cases hact
      · exact .inr (.inr hr)
    · rw [heq, List.mem_append, List.mem_singleton] at hid
      rcases hid with hold | rfl
      · have hmem := h.exited id hold
        rw [List.mem_append, List.mem_cons] at hmem ⊢
        rcases hmem with hl | rfl | hr
        · exact .inl hl
        · cases hact
        · exact .inr (.inr hr)
      · simp
  · rcases hthread hi with heq | hmem
    · subst heq
      cases hact with
      | notifyAll => exact absurd hlt (Nat.not_lt_zero id)
      | join i hexited hmore =>
        rcases Nat.lt_succ_iff_lt_or_eq.1 hlt with hlt | rfl
        · exact h.joined i (by simp) id hlt
        · exact hexited
    · exact hmono id (h.joined i hmem id hlt)
  · rw [capacity_act hact] at hlt
    rcases hthread hd with heq | hmem
    · subst heq
      cases hact with
      | allJoined => exact h.joined s.capacity (by simp) id hlt
    · exact hmono id (h.returned hmem id hlt)

theorem departed_of_run {ok : State → Step → Prop} {capacity : ℕ} {as : List Step} {s : State}
    (h : Run system.step ok (initial capacity) as s) : Departed s := by
  refine invariant_of_run (I := Departed) (J := Lent) h (fun as t ht => lent_of_run ht) ?_ ?_ ?_
  · refine ⟨fun hne => absurd rfl hne, nofun, fun i hi => ?_, fun hd => ?_⟩
    · obtain ⟨j, -, heq⟩ := List.mem_map.1 hi
      cases heq
    · obtain ⟨j, -, heq⟩ := List.mem_map.1 hd
      cases heq
  · intro s ts e s' t _ hs henters
    cases henters <;> exact ⟨hs.drained, fun id hid => List.mem_append_left _ (hs.exited id hid),
      fun i hi => hs.joined i (by simpa using hi), fun hd => hs.returned (by simpa using hd)⟩
  · exact fun s l l' t o s' t' hlent hs _ hact => hs.act hlent hact

end

theorem Departed.queue_of_returned {s : State} (h : Departed s) (hpos : 0 < s.shared.capacity)
    (hreturned : .drop .returned ∈ s.threads) : s.shared.queue = [] :=
  (h.drained (List.ne_nil_of_mem (h.returned hreturned 0 hpos))).1

theorem Departed.inHand_of_returned {s : State} (h : Departed s) (hroster : Roster s)
    (hreturned : .drop .returned ∈ s.threads) : inHand s.threads = [] := by
  rw [inHand, List.flatMap_eq_nil_iff]
  intro t ht
  cases t with
  | spawn t => rfl
  | drop t => rfl
  | worker id w =>
    have hexited := h.exited id (h.returned hreturned id (hroster.lt ht))
    obtain rfl := hroster.unique ht hexited
    rfl

/-! ## Whole runs -/

/-- The tasks spawned are those queued, in the hands of a worker, and finished, and no
    task is in two of these places or twice in one; no task is started twice; and when
    the drop of the pool has returned, all tasks are finished. -/
theorem tasks_conserved {capacity : ℕ} {as : List Step} {s : State} (hpos : 0 < capacity)
    (h : Run system.step Unrestricted (initial capacity) as s) :
    (s.shared.spawned.Perm (s.shared.queue.map PriorityTask.task ++
        (inHand s.threads ++ s.shared.finished)) ∧ s.shared.spawned.Nodup) ∧
      (s.shared.started.Perm (running s.threads ++ s.shared.finished) ∧ s.shared.started.Nodup) ∧
      (.drop .returned ∈ s.threads → ∀ id ∈ s.shared.spawned, id ∈ s.shared.finished) := by
  have hconserved := conserved_of_run h
  have hdeparted := departed_of_run h
  obtain ⟨hroster, rfl⟩ := roster_of_run h
  have honce : s.shared.spawned.Nodup := by
    rw [List.nodup_iff_count_le_one]
    intro id
    have hone := hconserved.once id
    omega
  have hperm : s.shared.spawned.Perm (s.shared.queue.map PriorityTask.task ++
      (inHand s.threads ++ s.shared.finished)) := by
    rw [List.perm_iff_count]
    intro id
    simp only [List.count_append]
    exact hconserved.spawned id
  have hstarted : s.shared.started.Perm (running s.threads ++ s.shared.finished) := by
    rw [List.perm_iff_count]
    intro id
    simp only [List.count_append]
    exact hconserved.started id
  refine ⟨⟨hperm, honce⟩, ⟨hstarted, ?_⟩, fun hreturned id hid => ?_⟩
  · rw [List.nodup_iff_count_le_one] at honce ⊢
    intro id
    have hone := honce id
    have hle := (running_sublist s.threads).count_le id
    have hspawned := hconserved.spawned id
    have hstarts := hconserved.started id
    omega
  · rw [hperm.mem_iff, hdeparted.queue_of_returned hpos hreturned,
      hdeparted.inHand_of_returned hroster hreturned] at hid
    simpa using hid

/-- Two tasks on one worker, the first of which panics, and then the drop. -/
def twoTasks : List Step :=
  let push (i : ℕ) : List Step := [.act i .go, .act i .go, .act i .go, .act i (.wake 0)]
  let task (i : ℕ) (panicked : Bool) : List Step :=
    [.act 0 .go, .act 0 .go, .act 0 (.pop i), .act 0 .go, .act 0 .go, .act 0 (.ends panicked 5),
      .act 0 .go, .act 0 .go, .act 0 .go]
  [.env (.spawn .low), .env (.spawn .high)] ++ push 1 ++ push 2 ++ task 1 true ++
    [.env .drop, .act 3 .go, .act 3 .go] ++ task 0 false ++
    [.act 0 .go, .act 0 .go, .act 0 .go, .act 3 .go, .act 3 .go]

theorem tasks_conserved_two_tasks : ∃ s, Run system.step Unrestricted (initial 1) twoTasks s ∧
    s.shared.spawned = [0, 1] ∧ s.shared.started.Nodup ∧ ∀ id ∈ [0, 1], id ∈ s.shared.finished := by
  obtain ⟨s, hrun, hreturned, hspawned⟩ : ∃ s, Run system.step Unrestricted (initial 1) twoTasks s ∧
      .drop .returned ∈ s.threads ∧ s.shared.spawned = [0, 1] := Run.exists_of_exec (by decide +kernel)
  obtain ⟨-, ⟨-, hstarted⟩, hfinished⟩ := tasks_conserved (by decide) hrun
  exact ⟨s, hrun, hspawned, hstarted, hspawned ▸ hfinished hreturned⟩

end ComputePool
