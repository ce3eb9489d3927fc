-- SUMMARY: The condvar of the compute pool: no queued task is left with all workers asleep, and when the shutdown of the pool reaches every worker.
import MillIo.ComputePool.Roster

/-!
# Waking the workers

`spawn` notifies after it has pushed its task, so the worker it wakes finds the task,
or another worker has taken it. The drop of the pool stores the flag and notifies
without the queue lock: a worker that has tested the flag and not yet parked misses
both.
-/

namespace ComputePool

open Interleaving

section

variable {s s' : Pool} {t t' : Thread} {l l' : List Thread} {id : ℕ}

/-! ## The waiters of the condvar -/

/-- The waiters are parked workers, each once. A worker about to wait has seen an empty
    queue and still has the lock. -/
structure Waiting (s : State) : Prop where
  parked : ∀ id ∈ s.shared.waiters, .worker id .parked ∈ s.threads
  nodup : s.shared.waiters.Nodup
  empty : ∀ id, .worker id .waiting ∈ s.threads → s.shared.queue = []
  exited : ∀ id, .worker id .exited ∈ s.threads → s.shared.shutdown = true

theorem waiters_act (h : Acts s t s' t') :
    s'.waiters.Sublist s.waiters ∨
      ∃ id, s'.waiters = s.waiters ++ [id] ∧ t = .worker id .waiting ∧ t' = .worker id .parked := by
  cases h with
  | notifyOne t i hi => exact .inl (List.eraseIdx_sublist _ _)
  | notifyAll => exact .inl (List.nil_sublist _)
  | park id => exact .inr ⟨id, rfl, rfl, rfl⟩
  | _ => exact .inl (List.Sublist.refl _)

/-- A worker that is parked goes on only when it has been notified. -/
theorem notified_of_act (h : Acts s (.worker id .parked) s' t') : id ∉ s.waiters := by
  cases h with
  | wakeUp id hawake hfree => exact hawake

theorem queue_act (h : Acts s t s' t') :
    (s.queue = [] → s'.queue = []) ∨ (s.locked = false ∧ ∃ p, t = .spawn (.locking p)) := by
  cases h with
  | push p hfree => exact .inr ⟨hfree, p, rfl⟩
  | pop id i p hp =>
    left
    intro hempty
    simp [hempty]
  | _ => exact .inl fun hempty => hempty

/-- The queue stays empty while another worker is about to wait. -/
theorem Waiting.empty_act (h : Waiting ⟨s, l ++ t :: l'⟩) (hexclusive : Exclusive ⟨s, l ++ t :: l'⟩)
    (hact : Acts s t s' t') (hid : .worker id .waiting ∈ l ++ l') : s'.queue = [] := by
  have hmem : .worker id .waiting ∈ l ++ t :: l' := by
    rw [List.mem_append] at hid ⊢
    exact hid.imp_right (List.mem_cons_of_mem _)
  rcases queue_act hact with hkeep | ⟨hfree, -⟩
  · exact hkeep (h.empty id hmem)
  · have hzero := Guarded.free hexclusive hfree hmem
    cases hzero

theorem Waiting.act (h : Waiting ⟨s, l ++ t :: l'⟩) (hroster : Roster ⟨s, l ++ t :: l'⟩)
    (hexclusive : Exclusive ⟨s, l ++ t :: l'⟩) (hact : Acts s t s' t') :
    Waiting ⟨s', l ++ t' :: l'⟩ := by
  have hstays : ∀ id ∈ s.waiters, .worker id .parked ∈ l ++ l' := by
    intro id hid
    have hmem := h.parked id hid
    rw [List.mem_append, List.mem_cons] at hmem
    rw [List.mem_append]
    rcases hmem with hl | rfl | hr
    · exact .inl hl
    · exact absurd hid (notified_of_act hact)
    · exact .inr hr
  have hadd : ∀ {x : Thread}, x ∈ l ++ l' → x ∈ l ++ t' :: l' := by
    intro x hx
    rw [List.mem_append] at hx ⊢
    exact hx.imp_right (List.mem_cons_of_mem _)
  refine ⟨?_, ?_, ?_, ?_⟩
  · intro id hid
    rcases waiters_act hact with hsub | ⟨i, heq, -, rfl⟩
    · exact hadd (hstays id (hsub.subset hid))
    · rw [heq, List.mem_append, List.mem_singleton] at hid
      rcases hid with hold | rfl
      · exact hadd (hstays id hold)
      · simp
  · rcases waiters_act hact with hsub | ⟨i, heq, rfl, -⟩
    · exact h.nodup.sublist hsub
    · rw [heq]
      refine List.Nodup.append h.nodup (List.nodup_singleton i) ?_
      intro j hj hi
      rw [List.mem_singleton] at hi
      subst hi
      exact hroster.others (hstays j hj) rfl
  · intro id hid
    rcases List.mem_append.1 hid with hl | hr
    · exact h.empty_act hexclusive hact (List.mem_append_left _ hl)
    · rcases List.mem_cons.1 hr with heq | hr
      · subst heq
        cases hact with
        | findEmpty id hempty hlive => exact hempty
      · exact h.empty_act hexclusive hact (List.mem_append_right _ hr)
  · intro id hid
    rcases List.mem_append.1 hid with hl | hr
    · exact shutdown_mono hact (h.exited id (List.mem_append_left _ hl))
    · rcases List.mem_cons.1 hr with heq | hr
      · subst heq
        cases hact with
        | exit id hempty hshut => exact hshut
      · exact shutdown_mono hact (h.exited id (by simp [hr]))

theorem waiting_of_run {ok : State → Step → Prop} {capacity : ℕ} {as : List Step} {s : State}
    (h : Run system.step ok (initial capacity) as s) : Waiting s := by
  refine invariant_of_run (I := Waiting) (J := fun s => Roster s ∧ Exclusive s) h
    (fun as t ht => ⟨(roster_of_run ht).1, exclusive_of_run ht⟩) ?_ ?_ ?_
  · refine ⟨nofun, List.nodup_nil, fun id hid => rfl, ?_⟩
    intro id hid
    obtain ⟨i, -, heq⟩ := List.mem_map.1 hid
    cases heq
  · intro s ts e s' t _ hs henters
    cases henters <;> exact
      ⟨fun id hid => List.mem_append_left _ (hs.parked id hid), hs.nodup,
        fun id hid => hs.empty id (by simpa using hid),
        fun id hid => hs.exited id (by simpa using hid)⟩
  · exact fun s l l' t o s' t' hJ hs _ hact => hs.act hJ.1 hJ.2 hact

/-! ## No queued task is stranded -/

/-- The call has pushed its task and not yet called `notify_one`. -/
def Thread.owesNotify : Thread → Bool
  | .spawn (.pushed _) => true
  | .spawn (.submitted _) => true
  | .spawn (.notifying _) => true
  | _ => false

/-- A worker that is neither asleep nor at its end. -/
def Thread.awake (s : Pool) : Thread → Bool
  | .worker id .parked => !s.waiters.contains id
  | .worker _ .exited => false
  | .worker _ _ => true
  | _ => false

/-- A worker that is parked and has not been notified. -/
def Thread.asleep (s : Pool) : Thread → Bool
  | .worker id .parked => s.waiters.contains id
  | _ => false

/-- Tasks are queued, no notification is on its way, and all workers are asleep. -/
def Stranded (s : State) : Prop :=
  s.shared.queue ≠ [] ∧ (∀ t ∈ s.threads, t.owesNotify = false) ∧
    ∀ t ∈ s.threads, t.workerId.isSome → t.asleep s.shared = true

/-- Someone sees to the tasks in the queue. -/
def Served (s : State) : Prop :=
  s.shared.shutdown = false → s.shared.queue ≠ [] →
    (∃ t ∈ s.threads, t.owesNotify = true) ∨ ∃ t ∈ s.threads, t.awake s.shared = true

/-- A worker of a pool that is not shut down is awake, or waits to be notified. -/
theorem Waiting.awake_of_not_asleep {s : State} (h : Waiting s) (hlive : s.shared.shutdown = false)
    (ht : t ∈ s.threads) (hworker : t.workerId.isSome) (hasleep : t.asleep s.shared = false) :
    t.awake s.shared = true := by
  cases t with
  | spawn t => cases hworker
  | drop t => cases hworker
  | worker id w =>
    cases w with
    | exited => cases hlive.symm.trans (h.exited id ht)
    | parked => simpa [Thread.awake, Thread.asleep] using hasleep
    | _ => rfl

theorem awake_mono (hsub : s'.waiters ⊆ s.waiters) (h : t.awake s = true) : t.awake s' = true := by
  cases t with
  | spawn t => cases h
  | drop t => cases h
  | worker id w =>
    cases w with
    | parked =>
      have hid : id ∉ s.waiters := by simpa [Thread.awake] using h
      have hid' : id ∉ s'.waiters := fun hmem => hid (hsub hmem)
      simpa [Thread.awake] using hid'
    | _ => exact h

/-- `notify_one` wakes a worker, or finds all workers awake. -/
theorem awake_of_notifyOne {p : PriorityTask} {i : ℕ}
    (h : Waiting ⟨s, l ++ .spawn (.notifying p) :: l'⟩)
    (hroster : Roster ⟨s, l ++ .spawn (.notifying p) :: l'⟩) (hpos : 0 < s.capacity)
    (hlive : s.shutdown = false) (hi : i < s.waiters.length ∨ s.waiters = []) :
    ∃ t ∈ l ++ l', t.awake { s with
      waiters := s.waiters.eraseIdx i, borrows := s.borrows - 1 } = true := by
  have hother : ∀ {id w}, .worker id w ∈ l ++ .spawn (.notifying p) :: l' →
      .worker id w ∈ l ++ l' := by
    intro id w hmem
    simpa using hmem
  rcases hi with hlt | hnone
  · refine ⟨_, hother (h.parked _ (List.getElem_mem hlt)), ?_⟩
    have hgone : s.waiters[i] ∉ s.waiters.eraseIdx i := by
      rw [← h.nodup.erase_getElem i hlt]
      exact h.nodup.not_mem_erase
    simpa [Thread.awake] using hgone
  · obtain ⟨w, hw⟩ := hroster.exists_worker hpos
    refine ⟨_, hother hw, awake_mono (List.eraseIdx_subset) ?_⟩
    refine h.awake_of_not_asleep hlive hw rfl ?_
    cases w <;> simp [Thread.asleep, hnone]

theorem Served.act (h : Served ⟨s, l ++ t :: l'⟩) (hwaiting : Waiting ⟨s, l ++ t :: l'⟩)
    (hroster : Roster ⟨s, l ++ t :: l'⟩) (hpos : 0 < s.capacity) (hact : Acts s t s' t') :
    Served ⟨s', l ++ t' :: l'⟩ := by
  intro hlive hne
  cases hact with
  | push p hfree => exact .inl (Machine.exists_threads_at.2 (.inl rfl))
  | countSubmitted p => exact .inl (Machine.exists_threads_at.2 (.inl rfl))
  | deepen p => exact .inl (Machine.exists_threads_at.2 (.inl rfl))
  | notifyOne p i hi =>
    obtain ⟨t, ht, hawake⟩ := awake_of_notifyOne hwaiting hroster hpos hlive hi
    exact .inr (Machine.exists_threads_at.2 (.inr ⟨t, ht, hawake⟩))
  | park id => exact absurd (hwaiting.empty id (by simp)) hne
  | exit id hempty hshut => exact absurd hempty hne
  | lock | findEmpty | leaveLoop | wakeUp | popNothing | pop | lessen | start | finish | measure
    | rest | countEnded => exact .inr (Machine.exists_threads_at.2 (.inl rfl))
  | shutDown => cases hlive
  | notifyAll =>
    refine (h hlive hne).imp ?_ ?_
    · intro hsome
      exact Machine.exists_threads_at.2 (.inr ((Machine.exists_threads_at.1 hsome).resolve_left
        (by simp [Thread.owesNotify])))
    · intro hsome
      obtain ⟨t, ht, hawake⟩ := (Machine.exists_threads_at.1 hsome).resolve_left
        (by simp [Thread.awake])
      exact Machine.exists_threads_at.2 (.inr ⟨t, ht, awake_mono (List.nil_subset _) hawake⟩)
  | join | allJoined =>
    refine (h hlive hne).imp ?_ ?_
    all_goals
      intro hsome
      exact Machine.exists_threads_at.2 (.inr ((Machine.exists_threads_at.1 hsome).resolve_left
        (by simp [Thread.owesNotify, Thread.awake])))

theorem served_of_run {ok : State → Step → Prop} {capacity : ℕ} {as : List Step} {s : State}
    (hpos : 0 < capacity) (h : Run system.step ok (initial capacity) as s) : Served s := by
  refine invariant_of_run (I := Served)
    (J := fun s => Waiting s ∧ Roster s ∧ s.shared.capacity = capacity) h
    (fun as t ht => ⟨waiting_of_run ht, roster_of_run ht⟩) ?_ ?_ ?_
  · exact fun _ hne => absurd rfl hne
  · intro s ts e s' t _ hs henters hlive hne
    have hold : (∃ t ∈ ts, t.owesNotify = true) ∨ ∃ t ∈ ts, t.awake s = true := by
      cases henters <;> exact hs hlive hne
    refine hold.imp ?_ ?_
    · rintro ⟨t, ht, howes⟩
      exact ⟨t, List.mem_append_left _ ht, howes⟩
    · rintro ⟨t, ht, hawake⟩
      refine ⟨t, List.mem_append_left _ ht, ?_⟩
      cases henters <;> exact awake_mono (List.Subset.refl _) hawake
  · rintro s l l' t o s' t' ⟨hwaiting, hroster, rfl⟩ hs - hact
    exact hs.act hwaiting hroster hpos hact

/-- Before the shutdown no task is stranded in the queue, however many threads spawn
    tasks. -/
theorem not_stranded {capacity : ℕ} {as : List Step} {s : State} (hpos : 0 < capacity)
    (h : Run system.step Unrestricted (initial capacity) as s) (hlive : s.shared.shutdown = false) :
    ¬ Stranded s := by
  rintro ⟨hne, howes, hasleep⟩
  rcases served_of_run hpos h hlive hne with ⟨t, ht, hnotify⟩ | ⟨t, ht, hawake⟩
  · rw [howes t ht] at hnotify
    cases hnotify
  · cases t with
    | spawn t => cases hawake
    | drop t => cases hawake
    | worker id w =>
      have hsleeps := hasleep _ ht rfl
      cases w <;> simp_all [Thread.awake, Thread.asleep]

end

/-- A task is pushed while the only worker is asleep, which `notify_one` then wakes. -/
def pushedWhileAsleep : List Step :=
  [.act 0 .go, .act 0 .go, .act 0 .go, .env (.spawn .normal), .act 1 .go, .act 1 .go, .act 1 .go,
    .act 1 (.wake 0)]

theorem not_stranded_one_worker :
    ∃ s, Run system.step Unrestricted (initial 1) pushedWhileAsleep s ∧ s.shared.queue.length = 1 ∧
      ¬ Stranded s := by
  obtain ⟨s, hrun, hlive, hqueue⟩ : ∃ s, Run system.step Unrestricted (initial 1) pushedWhileAsleep s ∧
      s.shared.shutdown = false ∧ s.shared.queue.length = 1 := Run.exists_of_exec (by decide +kernel)
  exact ⟨s, hrun, hqueue, not_stranded (by decide) hrun hlive⟩

/-! ## The shutdown -/

/-- The drop of the pool has called `notify_all`. -/
def Thread.hasNotified : Thread → Bool
  | .drop (.joining _) => true
  | .drop .returned => true
  | _ => false

/-- The thread has still to notify the condvar. -/
def Thread.notifies : Thread → Bool
  | .spawn .returned => false
  | .spawn _ => true
  | .drop .storing => true
  | .drop .notifying => true
  | _ => false

/-- The pool is shut down and its workers have been notified, but the worker is parked
    and no notification is to come. -/
def Lost (s : State) (id : ℕ) : Prop :=
  s.shared.shutdown = true ∧ (∃ t ∈ s.threads, t.hasNotified = true) ∧
    (.worker id .parked ∈ s.threads ∧ id ∈ s.shared.waiters) ∧ ∀ t ∈ s.threads, t.notifies = false

instance (s : State) (id : ℕ) : Decidable (Lost s id) := by unfold Lost; infer_instance

/-- The drop of the pool calls `notify_all` while no worker is between its test of the
    queue and the flag and its wait. -/
def Unhurried : State → Step → Prop := Machine.ThreadSteps fun s t _ =>
  t = .drop .notifying → ∀ t' ∈ s.threads, ∀ id ∈ t'.workerId, t' ≠ .worker id .waiting

instance : DecidableRel Unhurried := by unfold Unhurried; infer_instance

/-- All workers have been reached: none is asleep or about to be. -/
def Reached (s : State) : Prop :=
  (∃ t ∈ s.threads, t.hasNotified = true) →
    s.shared.waiters = [] ∧ ∀ id, .worker id .waiting ∉ s.threads

section

variable {s s' : Pool} {t t' : Thread} {l l' : List Thread}

theorem hasNotified_act (h : Acts s t s' t') (hnotified : t'.hasNotified = true) :
    t.hasNotified = true ∨ t = .drop .notifying := by
  cases h with
  | notifyAll => exact .inr rfl
  | join | allJoined => exact .inl rfl
  | _ => cases hnotified

theorem Reached.act {o : Choice} (h : Reached ⟨s, l ++ t :: l'⟩) (hlent : Lent ⟨s, l ++ t :: l'⟩)
    (hok : Unhurried ⟨s, l ++ t :: l'⟩ (.act l.length o)) (hact : Acts s t s' t') :
    Reached ⟨s', l ++ t' :: l'⟩ := by
  intro hsome
  have hbefore : (∃ d ∈ l ++ t :: l', d.hasNotified = true) ∨ t = .drop .notifying := by
    rcases Machine.exists_threads_at.1 hsome with hown | hrest
    · exact (hasNotified_act hact hown).imp_left fun hold => Machine.exists_threads_at.2 (.inl hold)
    · exact .inl (Machine.exists_threads_at.2 (.inr hrest))
  have hothers : ∀ id, .worker id .waiting ∉ l ++ t :: l' → t' ≠ .worker id .waiting →
      .worker id .waiting ∉ l ++ t' :: l' := by
    intro id hnone hne hmem
    rw [List.mem_append, List.mem_cons] at hnone hmem
    rcases hmem with hl | heq | hr
    · exact hnone (.inl hl)
    · exact hne heq.symm
    · exact hnone (.inr (.inr hr))
  rcases hbefore with hold | rfl
  · obtain ⟨hwaiters, hwaiting⟩ := h hold
    have hshut : s.shutdown = true := by
      obtain ⟨d, hd, hnotified⟩ := hold
      cases d with
      | spawn d => cases hnotified
      | worker id w => cases hnotified
      | drop d =>
        refine (hlent.stored d hd).resolve_left ?_
        rintro rfl
        cases hnotified
    refine ⟨?_, fun id => hothers id (hwaiting id) ?_⟩
    · rcases waiters_act hact with hsub | ⟨id, -, rfl, -⟩
      · have hwaiters : s.waiters = [] := hwaiters
        rw [hwaiters] at hsub
        exact List.sublist_nil.1 hsub
      · exact absurd (by simp) (hwaiting id)
    · rintro rfl
      cases hact with
      | findEmpty id hempty hlive => cases hlive.symm.trans hshut
  · have hnone := Machine.threadSteps_at.1 hok rfl
    cases hact with
    | notifyAll =>
      exact ⟨rfl, fun id => hothers id (fun hmem => hnone _ hmem id rfl rfl) nofun⟩

/-- When the drop of the pool notifies while no worker is about to wait, no worker is
    left parked for ever. -/
theorem not_lost {capacity : ℕ} {as : List Step} {s : State}
    (h : Run system.step Unhurried (initial capacity) as s) (id : ℕ) : ¬ Lost s id := by
  have hreached : Reached s := by
    refine invariant_of_run (I := Reached) (J := Lent) h (fun as t ht => lent_of_run ht) ?_ ?_ ?_
    · rintro ⟨t, ht, hnotified⟩
      obtain ⟨i, -, rfl⟩ := List.mem_map.1 ht
      cases hnotified
    · rintro s ts e s' t - hs henters ⟨t', ht', hnotified⟩
      have hold : ∃ t ∈ ts, t.hasNotified = true := by
        refine ⟨t', ?_, hnotified⟩
        rcases List.mem_append.1 ht' with hmem | hmem
        · exact hmem
        · cases List.mem_singleton.1 hmem
          cases henters <;> cases hnotified
      obtain ⟨hwaiters, hwaiting⟩ := hs hold
      cases henters <;> exact ⟨hwaiters, fun i => by simpa using hwaiting i⟩
    · exact fun s l l' t o s' t' hlent hs hok hact => hs.act hlent hok hact
  rintro ⟨-, hnotified, ⟨-, hid⟩, -⟩
  rw [(hreached hnotified).1] at hid
  cases hid

end

/-- The worker is asleep when the pool is dropped, and is woken. -/
def droppedWhileAsleep : List Step :=
  [.act 0 .go, .act 0 .go, .act 0 .go, .env .drop, .act 1 .go, .act 1 .go, .act 0 .go, .act 0 .go,
    .act 0 .go, .act 1 .go, .act 1 .go]

theorem not_lost_asleep :
    ∃ s, Run system.step Unhurried (initial 1) droppedWhileAsleep s ∧
      .drop .returned ∈ s.threads ∧ ¬ Lost s 0 := by
  obtain ⟨s, hrun, hreturned⟩ : ∃ s, Run system.step Unhurried (initial 1) droppedWhileAsleep s ∧
      .drop .returned ∈ s.threads := Run.exists_of_exec (by decide +kernel)
  exact ⟨s, hrun, hreturned, not_lost hrun 0⟩

/-- The flag is stored and `notify_all` called between the test of the only worker and
    its wait. -/
theorem worker_lost :
    ∃ s, Run system.step Unrestricted (initial 1)
      [.act 0 .go, .act 0 .go, .env .drop, .act 1 .go, .act 1 .go, .act 0 .go] s ∧ Lost s 0 :=
  Run.exists_of_exec (by decide +kernel)

end ComputePool
