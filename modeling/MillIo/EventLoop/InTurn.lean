-- SUMMARY: Without a panic each worker of the thread pool runs what it was sent in the order of the sends, and every task is run once.
import MillIo.EventLoop.Panic
import Mathlib.Data.List.Perm.Subperm
import Mathlib.Data.List.Nodup

/-!
# The tasks of the thread pool in turn

A task is sent to the worker whose number its call has drawn, waits in that worker's
channel behind what was sent before, and is started, and finished, before the next.
The history tells it: what has been sent to a worker is what it has started followed by
what still waits for it.
-/
namespace Workers

open Interleaving

/-! ## Reading the history -/

def Event.sentAs : Event → Option (ℕ × ℕ)
  | .sent task worker => some (task, worker)
  | _ => none

def Event.startedAs : Event → Option (ℕ × ℕ)
  | .started task worker => some (task, worker)
  | _ => none

def Event.finishedAs : Event → Option (ℕ × ℕ)
  | .finished task worker => some (task, worker)
  | _ => none

/-- The tasks sent, each with its worker, in the order of the sends. -/
def sent (history : List Event) : List (ℕ × ℕ) := history.filterMap Event.sentAs

def started (history : List Event) : List (ℕ × ℕ) := history.filterMap Event.startedAs

def finished (history : List Event) : List (ℕ × ℕ) := history.filterMap Event.finishedAs

/-- The tasks of one worker. -/
def ofWorker (id : ℕ) (ps : List (ℕ × ℕ)) : List ℕ := (ps.filter fun p => p.2 = id).map Prod.fst

def Message.asTask : Message → Option ℕ
  | .task n => some n
  | .terminate => none

/-- The tasks that wait for a worker. -/
def Pool.tasks (s : Pool) (id : ℕ) : List ℕ := (s.queue id).filterMap Message.asTask

/-- The task that the worker is running. -/
def Thread.running (id : ℕ) : Thread → List ℕ
  | .worker i (.running n) => if i = id then [n] else []
  | _ => []

/-- The task that a call of `exec` has still to send. -/
def Thread.unsent : Thread → List ℕ
  | .exec _ (.sending n _) => [n]
  | _ => []

/-- What has been sent to a worker was started by it or waits, in this order; what it has
    started is finished up to the task it is running; and each call sends its task once. -/
structure InTurn (s : State) : Prop where
  received : ∀ id, ofWorker id (sent s.shared.history) =
    ofWorker id (started s.shared.history) ++ s.shared.tasks id
  ran : ∀ id, ofWorker id (started s.shared.history) =
    ofWorker id (finished s.shared.history) ++ s.threads.flatMap (Thread.running id)
  once : ∀ n, ((sent s.shared.history).map Prod.fst).count n +
    (s.threads.flatMap Thread.unsent).count n = (List.range s.shared.calls).count n

section

variable {s s' : Pool} {t t' : Thread} {l l' : List Thread} {history : List Event}

@[simp] theorem ofWorker_append (id : ℕ) (ps qs : List (ℕ × ℕ)) :
    ofWorker id (ps ++ qs) = ofWorker id ps ++ ofWorker id qs := by
  simp [ofWorker]

@[simp] theorem ofWorker_self (id n : ℕ) : ofWorker id [(n, id)] = [n] := by
  simp [ofWorker]

@[simp] theorem ofWorker_of_ne {id i : ℕ} (n : ℕ) (h : i ≠ id) : ofWorker id [(n, i)] = [] := by
  simp [ofWorker, h]

@[simp] theorem ofWorker_nil (id : ℕ) : ofWorker id [] = [] := rfl

theorem filterMap_concat {α β : Type*} (f : α → Option β) (xs : List α) (x : α) :
    (xs ++ [x]).filterMap f = xs.filterMap f ++ (f x).toList := by
  rw [List.filterMap_append]
  cases hx : f x <;> simp [hx]

theorem sent_concat (ev : Event) : sent (history ++ [ev]) = sent history ++ ev.sentAs.toList :=
  filterMap_concat _ _ _

theorem started_concat (ev : Event) :
    started (history ++ [ev]) = started history ++ ev.startedAs.toList :=
  filterMap_concat _ _ _

theorem finished_concat (ev : Event) :
    finished (history ++ [ev]) = finished history ++ ev.finishedAs.toList :=
  filterMap_concat _ _ _

theorem count_ofWorker (n id : ℕ) (ps : List (ℕ × ℕ)) :
    (ofWorker id ps).count n = ps.count (n, id) := by
  induction ps with
  | nil => rfl
  | cons p ps ih =>
    obtain ⟨m, i⟩ := p
    rcases eq_or_ne i id with rfl | hne
    · simp [ofWorker, List.count_cons] at ih ⊢
      rw [ih]
    · simp [ofWorker, hne] at ih ⊢
      rw [ih]

theorem tasks_concat {id i : ℕ} {m : Message}
    (h : s'.queue = Function.update s.queue i (s.queue i ++ [m])) :
    s'.tasks id = s.tasks id ++ if id = i then m.asTask.toList else [] := by
  rw [Pool.tasks, Pool.tasks, h]
  rcases eq_or_ne id i with rfl | hne
  · rw [Function.update_self, List.filterMap_append, if_pos rfl]
    cases m <;> rfl
  · rw [Function.update_of_ne hne, if_neg hne, List.append_nil]

theorem tasks_recv {id i : ℕ} {m : Message} {pool : ThreadPool Message}
    (h : s.pool.recv i = some (m, pool)) :
    s.tasks id = (if id = i then m.asTask.toList else []) ++ (pool.queue id).filterMap Message.asTask := by
  obtain ⟨hhead, hrest⟩ := ThreadPool.queue_recv h
  rw [Pool.tasks]
  rcases eq_or_ne id i with rfl | hne
  · have hqueue : s.queue id = m :: pool.queue id := hhead
    rw [hqueue, if_pos rfl]
    cases m <;> rfl
  · rw [hrest, Function.update_of_ne hne, if_neg hne]
    rfl

/-- No other thread runs a task as the worker. -/
theorem running_others {id : ℕ} {w : Worker} (h : Regular ⟨s, l ++ .worker id w :: l'⟩)
    (hw : w ≠ .exited) : l.flatMap (Thread.running id) = [] ∧ l'.flatMap (Thread.running id) = [] := by
  have hself : Thread.lives id (.worker id w) = 1 := by
    cases w <;> first | exact absurd rfl hw | simp [Thread.lives]
  have hnone : ∀ t ∈ l ++ l', t.running id = [] := by
    intro t ht
    have hzero := (h.alive id).others hself ht
    cases t with
    | worker i v =>
      cases v with
      | running n =>
        have hne : i ≠ id := by simpa [Thread.lives] using hzero
        exact if_neg hne
      | _ => rfl
    | _ => rfl
  constructor <;> rw [List.flatMap_eq_nil_iff] <;> intro t ht
  · exact hnone t (List.mem_append_left _ ht)
  · exact hnone t (List.mem_append_right _ ht)

/-- A send fails only after a panic. -/
theorem not_rejected {events : Option ℕ} {task index : ℕ}
    (h : Regular ⟨s, l ++ .exec events (.sending task index) :: l'⟩)
    (hended : s.ended index ≠ none) : s.Panicked := by
  have hact : Acts s (.exec events (.sending task index)) s.release (.exec events (.returned false)) :=
    .reject events task index hended
  exact h.fits_act (h.grows hact) hact

/-- A worker that exits leaves no task behind. -/
theorem tasks_exit {id : ℕ} {pool : ThreadPool Message} (hsound : s.Sound)
    (hrecv : s.pool.recv id = some (.terminate, pool)) (j : ℕ) :
    ({ s with pool }.close id .terminated).tasks j = s.tasks j := by
  have hqueue : ({ s with pool }.close id .terminated).queue = Function.update s.queue id [] :=
    queue_close (.inr ⟨_, hrecv⟩)
  rw [Pool.tasks, hqueue]
  rcases eq_or_ne j id with rfl | hne
  · rw [Function.update_self, Pool.tasks]
    symm
    rw [List.filterMap_nil, List.filterMap_eq_nil_iff]
    intro m hm
    cases m with
    | terminate => rfl
    | task n => exact absurd hm (task_notMem_of_terminate hsound hrecv)
  · rw [Function.update_of_ne hne, Pool.tasks]

/-- A step that records nothing, and changes nothing that the invariant speaks of. -/
theorem InTurn.same (h : InTurn ⟨s, l ++ t :: l'⟩) (hhistory : s'.history = s.history)
    (htasks : ∀ id, s'.tasks id = s.tasks id) (hcalls : s'.calls = s.calls)
    (hrunning : ∀ id, t'.running id = t.running id) (hunsent : t'.unsent = t.unsent) :
    InTurn ⟨s', l ++ t' :: l'⟩ := by
  obtain ⟨hreceived, hran, honce⟩ := h
  simp only [List.flatMap_append, List.flatMap_cons, List.count_append] at hreceived hran honce
  refine ⟨fun id => ?_, fun id => ?_, fun n => ?_⟩ <;>
    simp only [List.flatMap_append, List.flatMap_cons, List.count_append, hhistory]
  · rw [htasks]
    exact hreceived id
  · rw [hrunning]
    exact hran id
  · rw [hunsent, hcalls]
    exact honce n

/-- A step that records an event, by what the event is to each of the three lists. -/
theorem InTurn.record (h : InTurn ⟨s, l ++ t :: l'⟩) (ev : Event)
    (hhistory : s'.history = s.history ++ [ev]) (hcalls : s'.calls = s.calls)
    (hqueue : ∀ id, ofWorker id (sent s.history) ++ ofWorker id ev.sentAs.toList =
      ofWorker id (started s.history) ++ (ofWorker id ev.startedAs.toList ++ s'.tasks id))
    (hrunning : ∀ id, ofWorker id (started s.history) ++ ofWorker id ev.startedAs.toList =
      ofWorker id (finished s.history) ++ (ofWorker id ev.finishedAs.toList ++
        (l ++ t' :: l').flatMap (Thread.running id)))
    (hunsent : ∀ n, (ev.sentAs.toList.map Prod.fst).count n + t'.unsent.count n =
      t.unsent.count n) : InTurn ⟨s', l ++ t' :: l'⟩ := by
  refine ⟨fun id => ?_, fun id => ?_, fun n => ?_⟩ <;> simp only [hhistory]
  · rw [sent_concat, started_concat, ofWorker_append, ofWorker_append, hqueue, List.append_assoc]
  · rw [started_concat, finished_concat, ofWorker_append, ofWorker_append, hrunning,
      List.append_assoc]
  · have hold := h.once n
    have hmove := hunsent n
    rw [sent_concat, hcalls]
    simp only [List.map_append, List.flatMap_append, List.flatMap_cons, List.count_append] at hold ⊢
    omega

theorem InTurn.act (h : InTurn ⟨s, l ++ t :: l'⟩) (hregular : Regular ⟨s, l ++ t :: l'⟩)
    (hact : Acts s t s' t') (hcalm : ¬ s'.Panicked) : InTurn ⟨s', l ++ t' :: l'⟩ := by
  have hreceived := h.received
  have hran := h.ran
  simp only [List.flatMap_append, List.flatMap_cons] at hreceived hran
  cases hact with
  | draw events =>
    refine ⟨hreceived, fun id => ?_, fun n => ?_⟩
    · simp only [List.flatMap_append, List.flatMap_cons]
      exact hran id
    · have hold := h.once n
      have hcalls : s.draw.calls = s.calls + 1 := rfl
      have hhistory : s.draw.history = s.history := rfl
      simp only [List.flatMap_append, List.flatMap_cons, List.count_append, hcalls, hhistory,
        List.range_succ, Thread.unsent, List.count_nil] at hold ⊢
      omega
  | accept events task index hlive =>
    have hindex : (Thread.exec events (.sending task index)).Fits s := hregular.fits _ (by simp)
    refine h.record (.sent task index) rfl rfl (fun id => ?_) (fun id => ?_) fun n => ?_
    · rw [tasks_concat (queue_accept task hindex), hreceived id]
      rcases eq_or_ne id index with rfl | hne
      · simp [Event.sentAs, Event.startedAs, Message.asTask]
      · simp [Event.sentAs, Event.startedAs, hne, hne.symm]
    · simpa [Event.startedAs, Event.finishedAs, Thread.running] using hran id
    · simp [Event.sentAs, Thread.unsent]
  | reject events task index hended => exact absurd (not_rejected hregular hended) hcalm
  | receive id n pool hrecv =>
    obtain ⟨hl, hr⟩ := running_others hregular (by simp : Worker.receiving ≠ .exited)
    refine h.record (.started n id) rfl rfl (fun j => ?_) (fun j => ?_) fun m => ?_
    · rw [hreceived j, tasks_recv hrecv]
      rcases eq_or_ne j id with rfl | hne
      · simp [Event.sentAs, Event.startedAs, Message.asTask, Pool.record, Pool.tasks, Pool.queue]
      · simp [Event.sentAs, Event.startedAs, hne, hne.symm, Pool.record, Pool.tasks, Pool.queue]
    · rw [hran j]
      rcases eq_or_ne j id with rfl | hne
      · simp [Event.startedAs, Event.finishedAs, Thread.running, hl, hr]
      · simp [Event.startedAs, Event.finishedAs, Thread.running, hne.symm]
    · rfl
  | exit id pool hrecv =>
    exact h.same rfl (tasks_exit hregular.sound hrecv) rfl (fun _ => rfl) rfl
  | finish id n =>
    obtain ⟨hl, hr⟩ := running_others hregular (by simp : Worker.running n ≠ .exited)
    refine h.record (.finished n id) rfl rfl (fun j => ?_) (fun j => ?_) fun m => ?_
    · have hold : ofWorker j (sent s.history) =
          ofWorker j (started s.history) ++ (s.record (.finished n id)).tasks j := hreceived j
      simpa [Event.sentAs, Event.startedAs] using hold
    · rw [hran j]
      rcases eq_or_ne j id with rfl | hne
      · simp [Event.startedAs, Event.finishedAs, Thread.running, hl, hr]
      · simp [Event.startedAs, Event.finishedAs, Thread.running, hne.symm]
    · rfl
  | panic id n => exact absurd ⟨n, id, by simp [Pool.close, Pool.record]⟩ hcalm
  | terminate i hi hlive =>
    refine h.same rfl (fun id => ?_) rfl (fun _ => rfl) rfl
    rw [tasks_concat (queue_terminate hi)]
    simp [Message.asTask]
  | _ => exact h.same rfl (fun _ => rfl) rfl (fun _ => rfl) rfl

theorem InTurn.env {e : Input} {ts ts' : List Thread} (h : InTurn ⟨s, ts⟩)
    (henter : enter s e = some (s', ts')) : InTurn ⟨s', ts ++ ts'⟩ := by
  obtain ⟨hreceived, hran, honce⟩ := h
  cases e <;> simp only [enter] at henter <;> split at henter <;> cases henter
  all_goals
    refine ⟨hreceived, fun id => ?_, fun n => ?_⟩
    · simpa [Thread.running, Pool.borrow] using hran id
    · simpa [Thread.unsent, Pool.borrow] using honce n

theorem inTurn_of_run {capacity : ℕ} {as : List Step} {s : State} (hpos : 0 < capacity)
    (h : Run system.step Unrestricted (initial capacity) as s) (hcalm : ¬ s.shared.Panicked) :
    InTurn s := by
  refine Machine.invariant_of_run (I := fun s => ¬ s.shared.Panicked → InTurn s) (J := Regular) h
    (fun as t ht => regular_of_run hpos ht) ?_ ?_ ?_ hcalm
  · have hnone : ∀ f : Thread → List ℕ, (∀ i, f (.worker i .receiving) = []) →
        (initial capacity).threads.flatMap f = [] := by
      intro f hf
      simp [initial, hf]
    refine fun _ => ⟨fun id => ?_, fun id => ?_, fun n => ?_⟩
    · rw [Pool.tasks, initial, queue_new]
      rfl
    · rw [hnone (Thread.running id) fun _ => rfl]
      rfl
    · rw [hnone Thread.unsent fun _ => rfl]
      rfl
  · intro x ts e y ts' _ hx _ he hcalm
    have hsame := (history_enter he).1
    have hbefore : ¬ x.Panicked := by
      rintro ⟨n, i, hmem⟩
      exact hcalm ⟨n, i, hsame ▸ hmem⟩
    exact (hx hbefore).env he
  · intro x l l' t o y t' hregular hx _ hr hcalm
    have hacts := acts_of_proceed hr
    exact (hx fun hpanicked => hcalm (panicked_act hacts hpanicked)).act hregular hacts hcalm

/-! ## Exactly once -/

theorem InTurn.started_subperm {s : State} (h : InTurn s) :
    (started s.shared.history).Subperm (sent s.shared.history) := by
  rw [List.subperm_ext_iff]
  rintro ⟨n, id⟩ -
  rw [← count_ofWorker, ← count_ofWorker, h.received id, List.count_append]
  exact Nat.le_add_right _ _

theorem InTurn.finished_subperm {s : State} (h : InTurn s) :
    (finished s.shared.history).Subperm (started s.shared.history) := by
  rw [List.subperm_ext_iff]
  rintro ⟨n, id⟩ -
  rw [← count_ofWorker, ← count_ofWorker, h.ran id, List.count_append]
  exact Nat.le_add_right _ _

theorem count_map_le {ps qs : List (ℕ × ℕ)} (h : ps.Subperm qs) (n : ℕ) :
    (ps.map Prod.fst).count n ≤ (qs.map Prod.fst).count n := by
  obtain ⟨rs, hperm, hsub⟩ := h
  rw [← (hperm.map Prod.fst).count_eq]
  exact (hsub.map Prod.fst).count_le n

theorem InTurn.count_sent_le {s : State} (h : InTurn s) (n : ℕ) :
    ((sent s.shared.history).map Prod.fst).count n ≤ 1 := by
  have honce := h.once n
  have hrange : (List.range s.shared.calls).count n ≤ 1 :=
    List.nodup_iff_count_le_one.1 List.nodup_range n
  omega

end

/-- When no task panics, a task is started and finished at most once, each worker starts
    its tasks in the order in which they were sent to it, and finishes each before it
    starts the next; when the drop of the pool has returned, every task has been run
    exactly once; and every task is run in the end, dropped or not. -/
theorem runs_in_turn {capacity : ℕ} {as : List Step} {s : State} (hpos : 0 < capacity)
    (h : Run system.step Returning (initial capacity) as s) :
    (∀ n, ((started s.shared.history).map Prod.fst).count n ≤ 1 ∧
      ((finished s.shared.history).map Prod.fst).count n ≤ 1) ∧
    (∀ id, ofWorker id (started s.shared.history) <+: ofWorker id (sent s.shared.history) ∧
      ofWorker id (finished s.shared.history) <+: ofWorker id (started s.shared.history)) ∧
    (.drop .returned ∈ s.threads → ∀ n < s.shared.calls,
      ((finished s.shared.history).map Prod.fst).count n = 1) ∧
    Inevitably Advances Settled s := by
  have hcalm := not_panicked_of_run h
  have hinTurn := inTurn_of_run hpos h.unrestricted hcalm
  have haccounted := accounted_of_run hpos h.unrestricted hcalm
  have hregular := regular_of_run hpos h.unrestricted
  have hstarted : ∀ n, ((started s.shared.history).map Prod.fst).count n ≤ 1 := fun n =>
    (count_map_le hinTurn.started_subperm n).trans (hinTurn.count_sent_le n)
  have hfinished : ∀ n, ((finished s.shared.history).map Prod.fst).count n ≤ 1 := fun n =>
    (count_map_le hinTurn.finished_subperm n).trans (hstarted n)
  refine ⟨fun n => ⟨hstarted n, hfinished n⟩, fun id => ⟨?_, ?_⟩, fun hreturned n hn => ?_, ?_⟩
  · exact ⟨_, (hinTurn.received id).symm⟩
  · exact ⟨_, (hinTurn.ran id).symm⟩
  · obtain ⟨i, hmem⟩ := allRun_of_returned hregular haccounted hreturned n hn
      fun i hpanicked => hcalm ⟨n, i, hpanicked⟩
    have hfst : n ∈ (finished s.shared.history).map Prod.fst :=
      List.mem_map.2 ⟨(n, i), List.mem_filterMap.2 ⟨_, hmem, rfl⟩, rfl⟩
    exact Nat.le_antisymm (hfinished n) (List.count_pos_iff.2 hfst)
  · exact inevitably_settled hregular hcalm haccounted

/-- Three tasks for two workers, and then the drop. The second worker is the first to
    finish. -/
def threeTasks : List Step :=
  let exec (i : ℕ) : List Step := [.env .exec, .act i .goes, .act i .goes]
  let task (id : ℕ) : List Step := [.act id .goes, .act id .goes]
  exec 2 ++ exec 3 ++ exec 4 ++ task 1 ++
    ([.env .drop, .act 5 .goes, .act 5 .goes, .act 5 .goes] : List Step) ++ task 0 ++ task 0 ++
    ([.act 0 .goes, .act 1 .goes, .act 5 .goes, .act 5 .goes, .act 5 .goes] : List Step)

theorem runs_in_turn_three_tasks : ∃ s, Run system.step Returning (initial 2) threeTasks s ∧
    ofWorker 0 (finished s.shared.history) = [0, 2] ∧
    ∀ n < 3, ((finished s.shared.history).map Prod.fst).count n = 1 := by
  obtain ⟨s, hrun, hcalls, hreturned, hfirst⟩ : ∃ s,
      Run system.step Returning (initial 2) threeTasks s ∧ s.shared.calls = 3 ∧
      .drop .returned ∈ s.threads ∧ ofWorker 0 (finished s.shared.history) = [0, 2] :=
    Run.exists_of_exec (by decide +kernel)
  exact ⟨s, hrun, hfirst, hcalls ▸ (runs_in_turn (by decide) hrun).2.2.1 hreturned⟩

end Workers
