-- SUMMARY: A panic of a task ends its worker; without one every send succeeds, every task is run and the pool is dropped in peace.
import MillIo.EventLoop.Channels
import MillIo.Interleaving.Progress

/-!
# Panics of tasks

A worker calls its tasks without catching what they panic with. A panic unwinds the
thread of the worker: what waits in its channel is never run, every later call of
`exec` whose turn falls on it fails, and so does the dispatch of an event by the
reactor, and the drop of the pool panics when it joins the thread.
-/
namespace Workers

open Interleaving

/-- No task panics. -/
def Returning : State → Step → Prop := Machine.ThreadSteps fun _ _ o => o ≠ .panics

instance : DecidableRel Returning := by unfold Returning; infer_instance

/-- No call of `exec` has failed, no call of `run` because of one, and the drop of the
    pool has not panicked. -/
structure Harmless (s : State) : Prop where
  accepted : ∀ events, .exec events (.returned false) ∉ s.threads
  dispatched : .loop .dispatchFailed ∉ s.threads
  joined : .drop .panicked ∉ s.threads

/-- Every task that does not panic itself has been run. -/
def AllRun (s : State) : Prop :=
  ∀ n < s.shared.calls, (∀ i, .panicked n i ∉ s.shared.history) → ∃ i, .finished n i ∈ s.shared.history

/-- Every call of `exec` has succeeded and its task has been run, and the drop of the
    pool has returned, if it has been called. -/
structure Settled (s : State) : Prop where
  ran : AllRun s
  accepted : ∀ events t, .exec events t ∈ s.threads → t = .returned true
  dropped : ∀ t, .drop t ∈ s.threads → t = .returned

/-- A thread goes on, and no task panics. The loop of the reactor does not poll for
    further events. -/
inductive Advances : State → State → Prop
  | step {s s' : Pool} {l l' : List Thread} {t t' : Thread} {o : Choice}
      (hpolled : t ≠ .loop .polling) (hreturns : o ≠ .panics)
      (hact : proceed s t o = some (s', t')) : Advances ⟨s, l ++ t :: l'⟩ ⟨s', l ++ t' :: l'⟩

/-- The task that a thread has in hand. -/
def Thread.task : Thread → Option ℕ
  | .exec _ (.sending task _) => some task
  | .worker _ (.running task) => some task
  | _ => none

/-- Where a task is: in the hands of a thread, in a channel, or run. -/
def Placed (s : State) (n : ℕ) : Prop :=
  (∃ t ∈ s.threads, t.task = some n) ∨ (∃ i, .task n ∈ s.shared.queue i) ∨
    ∃ i, .finished n i ∈ s.shared.history

def Accounted (s : State) : Prop := ∀ n < s.shared.calls, Placed s n

section

variable {s s' : Pool} {t t' : Thread} {l l' : List Thread} {o : Choice}

/-! ## Panics -/

theorem panicked_of_proceed (h : proceed s t .panics = some (s', t')) : s'.Panicked := by
  cases t with
  | exec events t => rcases events with _ | events <;> rcases t with _ | _ | (_ | _) <;> cases h
  | loop t => rcases t with _ | (_ | _) | _ | _ | _ <;> cases h
  | worker id t =>
    cases t with
    | running n =>
      cases h
      exact ⟨n, id, by simp [Pool.close, Pool.record]⟩
    | _ => cases h
  | drop t => cases t <;> cases h

theorem not_panicked_of_proceed (h : proceed s t o = some (s', t')) (ho : o ≠ .panics)
    (hs : ¬ s.Panicked) : ¬ s'.Panicked := by
  have hacts : Acts s t s' t' := acts_of_proceed h
  rintro ⟨n, i, hmem⟩
  have hold : ∀ ev, s'.history = s.history ++ [ev] → (∀ n i, ev ≠ .panicked n i) → False := by
    intro ev heq hev
    rw [heq, List.mem_append, List.mem_singleton] at hmem
    exact hmem.elim (fun hmem => hs ⟨n, i, hmem⟩) fun heq => hev n i heq.symm
  cases hacts with
  | accept | receive | finish => exact hold _ rfl nofun
  | panic id m =>
    cases o with
    | panics => exact ho rfl
    | goes => simp [proceed, Worker.proceed] at h
    | _ => cases h
  | _ => exact hs ⟨n, i, hmem⟩

theorem history_enter {e : Input} {ts : List Thread} (h : enter s e = some (s', ts)) :
    s'.history = s.history ∧ s'.calls = s.calls ∧ s'.queue = s.queue := by
  cases e with
  | _ =>
    simp only [enter] at h
    split at h
    · cases h
    · cases h
      exact ⟨rfl, rfl, rfl⟩

theorem not_panicked_of_run {capacity : ℕ} {as : List Step} {s : State}
    (h : Run system.step Returning (initial capacity) as s) : ¬ s.shared.Panicked := by
  refine Machine.invariant_of_run (I := fun s => ¬ s.shared.Panicked) (J := fun _ => True) h
    (fun _ _ _ => trivial) ?_ ?_ ?_
  · rintro ⟨n, i, hmem⟩
    cases hmem
  · rintro x ts e y ts' - hx - he ⟨n, i, hmem⟩
    exact hx ⟨n, i, (history_enter he).1 ▸ hmem⟩
  · intro x l l' t o y t' _ hx hok hr
    exact not_panicked_of_proceed hr (Machine.threadSteps_at.1 hok) hx

/-- A run in which a task panics ends in a state that has it on record. -/
theorem returning_or_panicked {capacity : ℕ} {as : List Step} {s : State}
    (h : Run system.step Unrestricted (initial capacity) as s) :
    Run system.step Returning (initial capacity) as s ∨ s.shared.Panicked := by
  induction h with
  | refl => exact .inl .refl
  | @snoc as x y a _ _ hs ih =>
    have hstep := hs
    rcases Machine.step_cases hs with ⟨e, r, rfl, hr, rfl⟩ | ⟨o, t, ⟨z, t'⟩, l, l', rfl, hts, hr, rfl⟩
    · refine ih.imp (fun hrun => hrun.snoc trivial hstep) ?_
      rintro ⟨n, i, hmem⟩
      exact ⟨n, i, (history_enter hr).1 ▸ hmem⟩
    · by_cases ho : o = .panics
      · subst ho
        exact .inr (panicked_of_proceed hr)
      · refine ih.imp (fun hrun => hrun.snoc ?_ hstep) (panicked_act (acts_of_proceed hr))
        obtain ⟨x, ts⟩ := x
        obtain rfl : ts = l ++ t :: l' := hts
        exact Machine.threadSteps_at.2 ho

theorem Regular.harmless {s : State} (h : Regular s) (hcalm : ¬ s.shared.Panicked) : Harmless s :=
  ⟨fun _ ht => hcalm (h.fits _ ht), fun ht => hcalm (h.fits _ ht), fun ht => hcalm (h.fits _ ht).2⟩

/-! ## Where the tasks are -/

/-- A task that is in no one's hand is where it was, and one that has been run stays run. -/
theorem Placed.act {n : ℕ} (h : Placed ⟨s, l ++ t :: l'⟩ n) (hact : Acts s t s' t')
    (htask : t.task = some n → Placed ⟨s', l ++ t' :: l'⟩ n)
    (hqueued : ∀ i, .task n ∈ s.queue i → Placed ⟨s', l ++ t' :: l'⟩ n) :
    Placed ⟨s', l ++ t' :: l'⟩ n := by
  rcases h with hthread | ⟨i, hqueue⟩ | ⟨i, hran⟩
  · rcases Machine.exists_threads_at.1 hthread with hown | hother
    · exact htask hown
    · exact .inl (Machine.exists_threads_at.2 (.inr hother))
  · exact hqueued i hqueue
  · rcases history_act hact with heq | ⟨ev, heq⟩
    · exact .inr (.inr ⟨i, heq ▸ hran⟩)
    · exact .inr (.inr ⟨i, heq ▸ List.mem_append_left _ hran⟩)

/-- Behind a message to terminate there is no task. -/
theorem task_notMem_of_terminate {id n : ℕ} {pool : ThreadPool Message} (hsound : s.Sound)
    (hrecv : s.pool.recv id = some (.terminate, pool)) : .task n ∉ s.queue id := by
  have hhead : s.queue id = .terminate :: pool.queue id := (ThreadPool.queue_recv hrecv).1
  intro hmem
  rw [hhead, List.mem_cons] at hmem
  exact hsound.last id [] _ hhead n (hmem.resolve_left (by simp))

theorem Accounted.act (h : Accounted ⟨s, l ++ t :: l'⟩) (hregular : Regular ⟨s, l ++ t :: l'⟩)
    (hact : Acts s t s' t') (hcalm : ¬ s'.Panicked) : Accounted ⟨s', l ++ t' :: l'⟩ := by
  have hhand : ∀ {n}, t'.task = some n → Placed ⟨s', l ++ t' :: l'⟩ n :=
    fun htask => .inl (Machine.exists_threads_at.2 (.inl htask))
  have hold : ∀ n < s.calls, (t.task = some n → Placed ⟨s', l ++ t' :: l'⟩ n) →
      (∀ i, .task n ∈ s.queue i → Placed ⟨s', l ++ t' :: l'⟩ n) →
      Placed ⟨s', l ++ t' :: l'⟩ n :=
    fun n hn => (h n hn).act hact
  have hsame : s'.calls = s.calls → t.task = none →
      (∀ i, s.queue i ⊆ s'.queue i) → Accounted ⟨s', l ++ t' :: l'⟩ := by
    intro hcalls htask hqueue n hn
    exact hold n (hcalls ▸ hn) (fun hown => nomatch htask.symm.trans hown)
      fun i hmem => .inr (.inl ⟨i, hqueue i hmem⟩)
  cases hact with
  | draw events =>
    intro n hn
    rcases Nat.lt_succ_iff_lt_or_eq.1 hn with hn | rfl
    · exact hold n hn nofun fun i hmem => .inr (.inl ⟨i, hmem⟩)
    · exact hhand rfl
  | accept events task index hlive =>
    have hindex : (Thread.exec events (.sending task index)).Fits s := hregular.fits _ (by simp)
    have hqueue := queue_accept (s := s) task hindex
    intro n hn
    refine hold n hn (fun htask => ?_) fun i hmem =>
      .inr (.inl ⟨i, queue_subset_of_update hqueue i hmem⟩)
    cases htask
    exact .inr (.inl ⟨index, by simp [hqueue]⟩)
  | reject events task index hended =>
    exact absurd (hregular.fits_act (hregular.grows (.reject events task index hended))
      (.reject events task index hended)) hcalm
  | receive id n pool hrecv =>
    obtain ⟨hhead, hrest⟩ := ThreadPool.queue_recv hrecv
    intro m hm
    refine hold m hm nofun fun i hmem => ?_
    by_cases heq : i = id
    · subst heq
      have hmem : .task m ∈ s.pool.queue i := hmem
      rw [hhead, List.mem_cons] at hmem
      rcases hmem with heq | hmem
      · cases heq
        exact hhand rfl
      · exact .inr (.inl ⟨i, hmem⟩)
    · refine .inr (.inl ⟨i, ?_⟩)
      show .task m ∈ pool.queue i
      rw [hrest, Function.update_of_ne heq]
      exact hmem
  | exit id pool hrecv =>
    intro m hm
    refine hold m hm nofun fun i hmem => ?_
    have hne : i ≠ id := by
      rintro rfl
      exact task_notMem_of_terminate hregular.sound hrecv hmem
    refine .inr (.inl ⟨i, ?_⟩)
    rwa [queue_close (s := s) (.inr ⟨_, hrecv⟩), Function.update_of_ne hne]
  | finish id n =>
    intro m hm
    refine hold m hm (fun htask => ?_) fun i hmem => .inr (.inl ⟨i, hmem⟩)
    cases htask
    exact .inr (.inr ⟨id, by simp [Pool.record]⟩)
  | panic id n => exact absurd ⟨n, id, by simp [Pool.close, Pool.record]⟩ hcalm
  | terminate i hi hlive => exact hsame rfl rfl (queue_subset_of_update (queue_terminate hi))
  | _ => exact hsame rfl rfl fun _ => List.Subset.refl _

theorem accounted_of_run {capacity : ℕ} {as : List Step} {s : State} (hpos : 0 < capacity)
    (h : Run system.step Unrestricted (initial capacity) as s) (hcalm : ¬ s.shared.Panicked) :
    Accounted s := by
  refine Machine.invariant_of_run (I := fun s => ¬ s.shared.Panicked → Accounted s) (J := Regular) h
    (fun as t ht => regular_of_run hpos ht) ?_ ?_ ?_ hcalm
  · exact fun _ n hn => absurd hn (Nat.not_lt_zero n)
  · intro x ts e y ts' _ hx _ he hcalm n hn
    obtain ⟨hhistory, hcalls, hqueue⟩ := history_enter he
    have hbefore : ¬ x.Panicked := fun ⟨m, i, hmem⟩ => hcalm ⟨m, i, hhistory ▸ hmem⟩
    refine (hx hbefore n (hcalls ▸ hn)).imp ?_ (Or.imp ?_ ?_)
    · rintro ⟨t, ht, htask⟩
      exact ⟨t, List.mem_append_left _ ht, htask⟩
    · rintro ⟨i, hmem⟩
      exact ⟨i, hqueue ▸ hmem⟩
    · rintro ⟨i, hmem⟩
      exact ⟨i, hhistory ▸ hmem⟩
  · intro x l l' t o y t' hregular hx _ hr hcalm
    have hacts := acts_of_proceed hr
    exact (hx fun hpanicked => hcalm (panicked_act hacts hpanicked)).act hregular hacts hcalm

/-! ## Progress -/

def Exec.weight : Exec → ℕ
  | .drawing => 5
  | .sending _ _ => 4
  | .returned _ => 1

def Loop.weight : Loop → ℕ
  | .dispatching events => 6 * events + 1
  | _ => 0

def Drop.weight (capacity : ℕ) : Drop → ℕ
  | .terminating i => 3 * (capacity - i) + capacity + 3
  | .joining i => capacity - i + 1
  | _ => 0

/-- How far a thread is from its end, or from the receipt of the next message. -/
def Thread.weight (capacity : ℕ) : Thread → ℕ
  | .exec none t => t.weight
  | .exec (some events) t => t.weight + (6 * events + 1)
  | .loop t => t.weight
  | .worker _ (.running _) => 1
  | .worker _ _ => 0
  | .drop t => t.weight capacity

def remaining (s : State) : ℕ :=
  2 * s.shared.pool.waiting + Machine.total (Thread.weight s.shared.capacity) s.threads

theorem closer_of_acts (h : Acts s t s' t') (hfits : t.Fits s) (hpolled : t ≠ .loop .polling) :
    2 * s'.pool.waiting + t'.weight s.capacity < 2 * s.pool.waiting + t.weight s.capacity := by
  cases h with
  | draw events =>
    show 2 * s.pool.waiting + _ < _
    cases events <;> simp [Thread.weight, Exec.weight]
  | accept events task index hlive =>
    have hsent : (s.send task index).release.pool.waiting = s.pool.waiting + 1 :=
      ThreadPool.waiting_send hfits
    rw [hsent]
    cases events <;> simp only [Thread.weight, Exec.weight] <;> omega
  | reject events task index hended =>
    show 2 * s.pool.waiting + _ < _
    cases events <;> simp [Thread.weight, Exec.weight]
  | next events | dispatchFails events =>
    show 2 * s.pool.waiting + _ < _
    simp only [Thread.weight, Exec.weight, Loop.weight]
    omega
  | poll | stop | pollFails => exact absurd rfl hpolled
  | dispatched => exact Nat.lt_succ_self _
  | dispatch events =>
    show 2 * s.pool.waiting + _ < _
    simp only [Thread.weight, Exec.weight, Loop.weight]
    omega
  | receive id n pool hrecv =>
    rw [ThreadPool.waiting_recv hrecv]
    simp only [Pool.record, Thread.weight]
    omega
  | exit id pool hrecv =>
    rw [ThreadPool.waiting_recv hrecv]
    have hclose : (pool.close id).waiting ≤ pool.waiting := ThreadPool.waiting_close
    simp only [Pool.close, Thread.weight]
    omega
  | finish id n => exact Nat.lt_succ_self _
  | panic id n =>
    have hclose : (s.pool.close id).waiting ≤ s.pool.waiting := ThreadPool.waiting_close
    simp only [Pool.close, Pool.record, Thread.weight]
    omega
  | terminate i hi hlive =>
    have hsent : (s.terminate i).pool.waiting = s.pool.waiting + 1 := ThreadPool.waiting_send hi
    rw [hsent]
    simp only [Thread.weight, Drop.weight]
    omega
  | skip | allTerminated | join | joinPanics | allJoined =>
    simp only [Thread.weight, Drop.weight]
    omega

theorem remaining_lt (h : Regular ⟨s, l ++ t :: l'⟩) (hact : Acts s t s' t')
    (hpolled : t ≠ .loop .polling) :
    remaining ⟨s', l ++ t' :: l'⟩ < remaining ⟨s, l ++ t :: l'⟩ := by
  have hcloser := closer_of_acts hact (h.fits t (by simp)) hpolled
  simp only [remaining, capacity_act hact, Machine.total_append, Machine.total_cons]
  omega

/-- A worker that has not ended is among the threads. -/
theorem Regular.exists_worker {s : State} (h : Regular s) {id : ℕ} (hid : id < s.shared.capacity)
    (hlive : s.shared.ended id = none) : ∃ w, w ≠ .exited ∧ .worker id w ∈ s.threads := by
  by_contra hnone
  have htotal : Machine.total (Thread.lives id) s.threads = (Pool.live id s.shared).toNat := h.alive id
  have hzero : Machine.total (Thread.lives id) s.threads = 0 := by
    refine Machine.total_eq_zero fun t ht => ?_
    unfold Thread.lives
    split
    · rfl
    · rename_i i w hexited
      have hne : i ≠ id := by
        rintro rfl
        exact hnone ⟨w, hexited, ht⟩
      simp [hne]
    · rfl
  simp [hzero, Pool.live, hid, hlive] at htotal

/-- No thread can go on, except for a loop that polls. -/
def Stuck (s : State) : Prop :=
  ∀ t ∈ s.threads, t ≠ .loop .polling → ∀ o, o ≠ .panics → proceed s.shared t o = none

theorem stuck_of_not_advances {s : State} (h : ∀ u, ¬ Advances s u) : Stuck s := by
  obtain ⟨x, ts⟩ := s
  intro t ht hpolled o ho
  obtain ⟨l, l', rfl⟩ := List.append_of_mem ht
  cases hact : proceed x t o with
  | none => rfl
  | some r => exact absurd (.step hpolled ho hact) (h ⟨r.1, l ++ r.2 :: l'⟩)

theorem Stuck.exec {s : State} (h : Stuck s) {events : Option ℕ} {t : Exec}
    (ht : .exec events t ∈ s.threads) : ∃ ok, t = .returned ok := by
  have hnone := h _ ht nofun .goes nofun
  cases t with
  | drawing => cases events <;> cases hnone
  | sending task index =>
    by_cases hlive : s.shared.ended index = none
    · cases events <;> simp [proceed, Exec.proceed, hlive] at hnone
    · cases events <;> simp [proceed, Exec.proceed, hlive] at hnone
  | returned ok => exact ⟨ok, rfl⟩

theorem Stuck.worker {s : State} (h : Stuck s) {id : ℕ} {w : Worker} (hw : w ≠ .exited)
    (ht : .worker id w ∈ s.threads) : w = .receiving ∧ s.shared.queue id = [] := by
  have hnone := h _ ht nofun .goes nofun
  cases w with
  | exited => exact absurd rfl hw
  | running n => cases hnone
  | receiving =>
    refine ⟨rfl, ?_⟩
    by_contra hne
    obtain ⟨⟨m, pool⟩, hrecv⟩ := ThreadPool.exists_recv hne
    cases m <;> simp [proceed, Worker.proceed, hrecv] at hnone

theorem Stuck.queue {s : State} (h : Stuck s) (hregular : Regular s) (i : ℕ)
    (hi : i < s.shared.capacity) : s.shared.queue i = [] := by
  by_cases hlive : s.shared.ended i = none
  · obtain ⟨w, hw, ht⟩ := hregular.exists_worker hi hlive
    exact (h.worker hw ht).2
  · exact hregular.sound.closed i hlive

theorem Stuck.drop {s : State} (h : Stuck s) (hregular : Regular s) {d : Drop}
    (ht : .drop d ∈ s.threads) : d = .returned ∨ d = .panicked := by
  have hnone := h _ ht nofun .goes nofun
  cases d with
  | returned => exact .inl rfl
  | panicked => exact .inr rfl
  | terminating i =>
    by_cases hi : i < s.shared.capacity <;> simp [proceed, Drop.proceed, hi] at hnone
  | joining i =>
    by_cases hi : i < s.shared.capacity
    · -- The worker that is joined has a message to terminate, which it would receive.
      rcases (hregular.fits _ ht).2.1 i hi with hmem | hended
      · rw [h.queue hregular i hi] at hmem
        cases hmem
      · obtain ⟨e, he⟩ := Option.ne_none_iff_exists'.1 hended
        simp [proceed, Drop.proceed, hi, he] at hnone
    · simp [proceed, Drop.proceed, hi] at hnone

theorem queue_eq_nil {i : ℕ} (hi : s.capacity ≤ i) : s.queue i = [] := by
  have hnone : s.pool.queues[i]? = none := List.getElem?_eq_none hi
  simp [Pool.queue, ThreadPool.queue, hnone]

theorem Stuck.settled {s : State} (h : Stuck s) (hregular : Regular s)
    (hcalm : ¬ s.shared.Panicked) (haccounted : Accounted s) : Settled s := by
  have hharmless := hregular.harmless hcalm
  refine ⟨fun n hn _ => ?_, fun events t ht => ?_, fun d hd => ?_⟩
  · rcases haccounted n hn with ⟨t, ht, htask⟩ | ⟨i, hmem⟩ | hran
    · cases t with
      | exec events t =>
        obtain ⟨ok, rfl⟩ := h.exec ht
        cases htask
      | worker id w =>
        cases w with
        | running n => cases (h.worker (w := .running n) nofun ht).1
        | _ => cases htask
      | _ => cases htask
    · have hempty : s.shared.queue i = [] := by
        by_cases hi : i < s.shared.capacity
        · exact h.queue hregular i hi
        · exact queue_eq_nil (Nat.le_of_not_lt hi)
      rw [hempty] at hmem
      cases hmem
    · exact hran
  · obtain ⟨ok, rfl⟩ := h.exec ht
    cases ok with
    | true => rfl
    | false => exact absurd ht (hharmless.accepted events)
  · refine (h.drop hregular hd).resolve_right ?_
    rintro rfl
    exact hharmless.joined hd

/-- When the drop of the pool has returned, every task has been run. -/
theorem allRun_of_returned {s : State} (hregular : Regular s) (haccounted : Accounted s)
    (hdropped : .drop .returned ∈ s.threads) : AllRun s := by
  obtain ⟨hdrop, hended⟩ := hregular.fits _ hdropped
  rintro n hn -
  rcases haccounted n hn with ⟨t, ht, htask⟩ | ⟨i, hmem⟩ | hran
  · exfalso
    obtain ⟨x, ts⟩ := s
    obtain ⟨l, l', rfl⟩ := List.append_of_mem ht
    unfold Thread.task at htask
    split at htask
    · have hlive := hregular.lent.not_dropped (by simp [Thread.borrows, Exec.borrows])
      cases hlive.symm.trans hdrop
    · rename_i id m
      obtain ⟨hid, hlive⟩ := ended_of_lives (hregular.alive id) ht (by simp [Thread.lives])
      cases hlive.symm.trans (hended id hid)
    · cases htask
  · exfalso
    have hempty : s.shared.queue i = [] := by
      by_cases hi : i < s.shared.capacity
      · exact hregular.sound.closed i (by simp [hended i hi])
      · exact queue_eq_nil (Nat.le_of_not_lt hi)
    rw [hempty] at hmem
    cases hmem
  · exact hran

/-- As long as no task panics every way to go on settles the pool. -/
theorem inevitably_settled {s : State} (hregular : Regular s) (hcalm : ¬ s.shared.Panicked)
    (haccounted : Accounted s) : Inevitably Advances Settled s := by
  refine .of_measure (I := fun u => Regular u ∧ ¬ u.shared.Panicked ∧ Accounted u) wellFounded_lt
    remaining ?_ ?_ ?_ ⟨hregular, hcalm, haccounted⟩
  · rintro _ _ ⟨hr, hc, ha⟩ ⟨-, hreturns, hact⟩
    have hacts := acts_of_proceed hact
    have hcalm' := not_panicked_of_proceed hact hreturns hc
    exact ⟨hr.act hacts, hcalm', ha.act hr hacts hcalm'⟩
  · rintro _ _ ⟨hr, -, -⟩ ⟨hpolled, -, hact⟩
    exact remaining_lt hr (acts_of_proceed hact) hpolled
  · rintro u ⟨hr, hc, ha⟩ hnone
    exact (stuck_of_not_advances hnone).settled hr hc ha

/-! ## What a panic changes -/

/-- Without a panic, in every run of a pool with a worker, no call of `exec` fails, nor
    a call of `run` because of one, the drop of the pool does not panic, and every task
    is run in the end. When the drop of the pool is over, all this is so if and only if
    no task has panicked. -/
theorem harmless_iff_returning {capacity : ℕ} {as : List Step} {s : State} (hpos : 0 < capacity)
    (h : Run system.step Unrestricted (initial capacity) as s) :
    (Run system.step Returning (initial capacity) as s →
      Harmless s ∧ Inevitably Advances Settled s) ∧
    (.drop .returned ∈ s.threads ∨ .drop .panicked ∈ s.threads →
      (Harmless s ∧ AllRun s ↔ Run system.step Returning (initial capacity) as s)) := by
  have hregular := regular_of_run hpos h
  refine ⟨fun hrun => ?_, fun hover => ⟨fun hharmless => ?_, fun hrun => ?_⟩⟩
  · have hcalm := not_panicked_of_run hrun
    exact ⟨hregular.harmless hcalm,
      inevitably_settled hregular hcalm (accounted_of_run hpos h hcalm)⟩
  · refine (returning_or_panicked h).resolve_right ?_
    rintro ⟨n, i, hmem⟩
    obtain ⟨hi, hpanicked⟩ := hregular.sound.recorded n i hmem
    have hreturned := hover.resolve_right hharmless.1.joined
    cases ((hregular.fits _ hreturned).2 i hi).symm.trans hpanicked
  · have hcalm := not_panicked_of_run hrun
    have hharmless := hregular.harmless hcalm
    exact ⟨hharmless, allRun_of_returned hregular (accounted_of_run hpos h hcalm)
      (hover.resolve_right hharmless.joined)⟩

end

/-- A task is run, and the pool is dropped. -/
def ranAndDropped : List Step :=
  [.env .exec, .act 1 .goes, .act 1 .goes, .act 0 .goes, .act 0 .goes, .env .drop, .act 2 .goes,
    .act 2 .goes, .act 0 .goes, .act 2 .goes, .act 2 .goes]

theorem harmless_iff_returning_one_worker : ∃ s,
    Run system.step Unrestricted (initial 1) ranAndDropped s ∧ s.shared.calls = 1 ∧
      .drop .returned ∈ s.threads ∧ Harmless s ∧ AllRun s := by
  have hend : ∃ s, Run system.step Returning (initial 1) ranAndDropped s ∧ s.shared.calls = 1 ∧
      .drop .returned ∈ s.threads := Run.exists_of_exec (by decide +kernel)
  obtain ⟨s, hrun, hcalls, hreturned⟩ := hend
  have hiff := (harmless_iff_returning (by decide) hrun.unrestricted).2 (.inl hreturned)
  exact ⟨s, hrun.unrestricted, hcalls, hreturned, hiff.2 hrun⟩

/-- The first task panics while the second waits in the channel of the same worker: the
    second is never started, the third call of `exec` fails, the reactor cannot dispatch
    its event, and the drop of the pool panics. -/
theorem panic_harms : ∃ s, Run system.step Unrestricted (initial 1)
      [.env .exec, .act 1 .goes, .act 1 .goes, .act 0 .goes, .env .exec, .act 2 .goes, .act 2 .goes,
        .act 0 .panics, .env .exec, .act 3 .goes, .act 3 .goes, .env .run, .act 4 (.polls 1),
        .act 4 .goes, .act 4 .goes, .act 4 .goes, .act 4 .goes, .env .drop, .act 5 .goes,
        .act 5 .goes, .act 5 .goes] s ∧
    .exec none (.returned false) ∈ s.threads ∧ .loop .dispatchFailed ∈ s.threads ∧
    .drop .panicked ∈ s.threads ∧
    .sent 1 0 ∈ s.shared.history ∧ .started 1 0 ∉ s.shared.history :=
  Run.exists_of_exec (by decide +kernel)

end Workers
