-- SUMMARY: What holds of the channels of the thread pool in every run: who borrows the pool, which workers live, and what the messages to terminate mean.
import MillIo.EventLoop.Workers

/-!
# The channels of the pool

A pool that is being dropped is not borrowed, so a task is never sent behind a message
to terminate. A worker that has ended receives nothing, and it has ended because of a
panic or because the pool is being dropped.
-/
namespace Workers

open Interleaving

/-- Some task has panicked. -/
def Pool.Panicked (s : Pool) : Prop := ∃ n i, .panicked n i ∈ s.history

/-- The worker has been sent a message to terminate, or has ended. -/
def Pool.Told (s : Pool) (i : ℕ) : Prop := .terminate ∈ s.queue i ∨ s.ended i ≠ none

/-- What the state of a thread says about the pool. -/
def Thread.Fits (s : Pool) : Thread → Prop
  | .exec _ (.sending _ index) => index < s.capacity
  | .exec _ (.returned false) => s.Panicked
  | .loop .dispatchFailed => s.Panicked
  | .worker id _ => id < s.capacity
  | .drop (.terminating i) => s.dropped = true ∧ ∀ j < i, s.Told j
  | .drop (.joining i) =>
    s.dropped = true ∧ (∀ j < s.capacity, s.Told j) ∧ ∀ j < i, s.ended j = some .terminated
  | .drop .returned => s.dropped = true ∧ ∀ j < s.capacity, s.ended j = some .terminated
  | .drop .panicked => s.dropped = true ∧ s.Panicked
  | _ => True

/-- What holds of the channels. -/
structure Pool.Sound (s : Pool) : Prop where
  closed : ∀ i, s.ended i ≠ none → s.queue i = []
  last : ∀ i q r, s.queue i = q ++ .terminate :: r → ∀ n, .task n ∉ r
  told : ∀ i, .terminate ∈ s.queue i → s.dropped = true
  terminated : ∀ i, s.ended i = some .terminated → s.dropped = true
  panicked : ∀ i, s.ended i = some .panicked → s.Panicked
  recorded : ∀ n i, .panicked n i ∈ s.history → i < s.capacity ∧ s.ended i = some .panicked

def Exec.borrows : Exec → ℕ
  | .returned _ => 0
  | _ => 1

def Loop.borrows : Loop → ℕ
  | .polling => 1
  | .dispatching _ => 1
  | _ => 0

def Thread.borrows : Thread → ℕ
  | .exec events t => t.borrows + events.isSome.toNat
  | .loop t => t.borrows
  | _ => 0

/-- One for the worker while it lives. -/
def Thread.lives (id : ℕ) : Thread → ℕ
  | .worker _ .exited => 0
  | .worker i _ => (i == id).toNat
  | _ => 0

def Pool.live (id : ℕ) (s : Pool) : Bool := decide (id < s.capacity) && (s.ended id).isNone

structure Lent (s : State) : Prop where
  borrows : Machine.total Thread.borrows s.threads = s.shared.borrows
  dropped : s.shared.dropped = true → s.shared.borrows = 0

/-- What holds in every run of a pool with a worker. -/
structure Regular (s : State) : Prop where
  pos : 0 < s.shared.capacity
  lent : Lent s
  alive : ∀ id, Guarded (Thread.lives id) (Pool.live id) s
  fits : ∀ t ∈ s.threads, t.Fits s.shared
  sound : s.shared.Sound

section

variable {s s' : Pool} {t t' : Thread} {l l' : List Thread}

/-! ## Borrows -/

theorem borrows_act (h : Acts s t s' t') :
    (t'.borrows = t.borrows ∧ s'.borrows = s.borrows) ∨
      (t'.borrows = t.borrows + 1 ∧ s'.borrows = s.borrows + 1 ∧ t.borrows = 1) ∨
      (t.borrows = t'.borrows + 1 ∧ s'.borrows = s.borrows - 1) := by
  cases h with
  | accept | reject => exact .inr (.inr ⟨by simp [Thread.borrows, Exec.borrows]; omega, rfl⟩)
  | dispatchFails | stop | pollFails => exact .inr (.inr ⟨rfl, rfl⟩)
  | dispatch events => exact .inr (.inl ⟨rfl, rfl, rfl⟩)
  | _ => exact .inl ⟨rfl, rfl⟩

theorem dropped_act (h : Acts s t s' t') : s'.dropped = s.dropped := by
  cases h <;> rfl

theorem Lent.act (h : Lent ⟨s, l ++ t :: l'⟩) (hact : Acts s t s' t') :
    Lent ⟨s', l ++ t' :: l'⟩ := by
  have htotal : Machine.total Thread.borrows (l ++ t :: l') = s.borrows := h.borrows
  have hfree : s.dropped = true → s.borrows = 0 := h.dropped
  simp only [Machine.total_append, Machine.total_cons] at htotal
  refine ⟨?_, fun hdropped => ?_⟩
  · simp only [Machine.total_append, Machine.total_cons]
    rcases borrows_act hact with ⟨ht, hs⟩ | ⟨ht, hs, -⟩ | ⟨ht, hs⟩ <;> omega
  · have hzero := hfree ((dropped_act hact).symm.trans hdropped)
    show s'.borrows = 0
    rcases borrows_act hact with ⟨-, hs⟩ | ⟨-, -, hone⟩ | ⟨-, hs⟩ <;> omega

/-- No thread borrows a pool that is being dropped. -/
theorem Lent.not_dropped (h : Lent ⟨s, l ++ t :: l'⟩) (ht : 0 < t.borrows) :
    s.dropped = false := by
  have htotal : Machine.total Thread.borrows (l ++ t :: l') = s.borrows := h.borrows
  simp only [Machine.total_append, Machine.total_cons] at htotal
  refine Bool.eq_false_iff.2 fun hdropped => ?_
  have hzero : s.borrows = 0 := h.dropped hdropped
  omega

/-! ## The workers -/

theorem capacity_act (h : Acts s t s' t') : s'.capacity = s.capacity := by
  cases h with
  | accept => simp [Pool.capacity, Pool.send, Pool.record, Pool.release]
  | receive id n pool hrecv => exact ThreadPool.recv_length hrecv
  | exit id pool hrecv =>
    simpa [Pool.capacity, Pool.close] using ThreadPool.recv_length hrecv
  | panic => simp [Pool.capacity, Pool.close, Pool.record]
  | terminate => simp [Pool.capacity, Pool.terminate]
  | _ => rfl

/-- A worker ends by a step of its own. -/
theorem ended_act (h : Acts s t s' t') :
    (s'.ended = s.ended ∧ ∀ id, t'.lives id = t.lives id) ∨
      ∃ id e, s'.ended = Function.update s.ended id (some e) ∧
        (∀ i, t.lives i = (id == i).toNat) ∧ ∀ i, t'.lives i = 0 := by
  cases h with
  | exit id pool hrecv => exact .inr ⟨id, .terminated, rfl, fun _ => rfl, fun _ => rfl⟩
  | panic id n => exact .inr ⟨id, .panicked, rfl, fun _ => rfl, fun _ => rfl⟩
  | _ => exact .inl ⟨rfl, fun _ => rfl⟩

theorem alive_act (h : ∀ id, Guarded (Thread.lives id) (Pool.live id) ⟨s, l ++ t :: l'⟩)
    (hact : Acts s t s' t') (id : ℕ) :
    Guarded (Thread.lives id) (Pool.live id) ⟨s', l ++ t' :: l'⟩ := by
  have hcapacity := capacity_act hact
  refine (h id).act ?_
  rcases ended_act hact with ⟨hended, hlives⟩ | ⟨i, e, hended, hbefore, hafter⟩
  · simp only [Pool.live, hended, hcapacity, hlives id, true_or]
  · by_cases heq : i = id
    · subst heq
      refine .inr ⟨by simp [hbefore], hafter i, ?_⟩
      simp [Pool.live, hended]
    · refine .inl ?_
      simp [Pool.live, hended, hcapacity, hbefore, hafter, heq, Function.update_of_ne (Ne.symm heq)]

/-- A worker that lives has not ended. -/
theorem ended_of_lives {s : State} {id : ℕ} (h : Guarded (Thread.lives id) (Pool.live id) s)
    (ht : t ∈ s.threads) (hlives : t.lives id = 1) :
    id < s.shared.capacity ∧ s.shared.ended id = none := by
  have htaken := h.taken ht hlives
  simpa [Pool.live] using htaken

/-! ## The channels -/

theorem queue_accept {index : ℕ} (task : ℕ) (h : index < s.capacity) :
    (s.send task index).release.queue =
      Function.update s.queue index (s.queue index ++ [.task task]) :=
  ThreadPool.queue_send h

theorem queue_terminate {i : ℕ} (h : i < s.capacity) :
    (s.terminate i).queue = Function.update s.queue i (s.queue i ++ [.terminate]) :=
  ThreadPool.queue_send h

/-- The worker ends after it has received from its channel or not. -/
theorem queue_close {pool : ThreadPool Message} {id : ℕ} {e : Exit}
    (h : pool = s.pool ∨ ∃ m, s.pool.recv id = some (m, pool)) :
    ({ s with pool }.close id e).queue = Function.update s.queue id [] := by
  have hclose : ({ s with pool }.close id e).queue = Function.update pool.queue id [] :=
    ThreadPool.queue_close
  rcases h with rfl | ⟨m, hrecv⟩
  · exact hclose
  · rw [hclose, (ThreadPool.queue_recv hrecv).2, Function.update_idem]
    rfl

/-- What the steps of other threads leave of what a thread relies on. -/
structure Pool.Grows (s s' : Pool) : Prop where
  capacity : s'.capacity = s.capacity
  dropped : s.dropped = true → s'.dropped = true
  panicked : s.Panicked → s'.Panicked
  ended : ∀ i e, s.ended i = some e → s'.ended i = some e
  told : ∀ i, s.Told i → s'.Told i

theorem Thread.Fits.mono (h : t.Fits s) (hgrows : s.Grows s') : t.Fits s' := by
  have hcapacity := hgrows.capacity
  unfold Thread.Fits at h ⊢
  split at h
  · exact hcapacity ▸ h
  · exact hgrows.panicked h
  · exact hgrows.panicked h
  · exact hcapacity ▸ h
  · exact ⟨hgrows.dropped h.1, fun j hj => hgrows.told j (h.2 j hj)⟩
  · exact ⟨hgrows.dropped h.1, fun j hj => hgrows.told j (h.2.1 j (hcapacity ▸ hj)),
      fun j hj => hgrows.ended j _ (h.2.2 j hj)⟩
  · exact ⟨hgrows.dropped h.1, fun j hj => hgrows.ended j _ (h.2 j (hcapacity ▸ hj))⟩
  · exact ⟨hgrows.dropped h.1, hgrows.panicked h.2⟩
  · trivial

theorem history_act (h : Acts s t s' t') :
    s'.history = s.history ∨ ∃ ev, s'.history = s.history ++ [ev] := by
  cases h with
  | accept | receive | finish | panic => exact .inr ⟨_, rfl⟩
  | _ => exact .inl rfl

theorem panicked_act (h : Acts s t s' t') (hpanicked : s.Panicked) : s'.Panicked := by
  obtain ⟨n, i, hmem⟩ := hpanicked
  rcases history_act h with heq | ⟨ev, heq⟩
  · exact ⟨n, i, heq ▸ hmem⟩
  · exact ⟨n, i, heq ▸ List.mem_append_left _ hmem⟩

/-- A queue that grows keeps what is in it. -/
theorem queue_subset_of_update {queue queue' : ℕ → List Message} {worker : ℕ} {m : Message}
    (h : queue' = Function.update queue worker (queue worker ++ [m])) (i : ℕ) :
    queue i ⊆ queue' i := by
  rw [h]
  by_cases heq : i = worker
  · subst heq
    simp
  · simp [Function.update_of_ne heq]

/-- A message to terminate stays until the worker has ended. -/
theorem told_act (hfits : t.Fits s) (h : Acts s t s' t')
    (hended : ∀ i e, s.ended i = some e → s'.ended i = some e) {i : ℕ} (htold : s.Told i) :
    s'.Told i := by
  rcases htold with hmem | hsome
  · have hgrown : ∀ {worker m}, s'.queue = Function.update s.queue worker (s.queue worker ++ [m]) →
        s'.Told i :=
      fun hqueue => .inl (queue_subset_of_update hqueue i hmem)
    have hclosed : ∀ {id e}, s'.ended = Function.update s.ended id (some e) →
        s'.queue = Function.update s.queue id [] → s'.Told i := by
      intro id e hset hqueue
      by_cases heq : i = id
      · subst heq
        exact .inr (by simp [hset])
      · exact .inl (by rwa [hqueue, Function.update_of_ne heq])
    cases h with
    | accept events task index hlive => exact hgrown (queue_accept task hfits)
    | terminate i hi hlive => exact hgrown (queue_terminate hi)
    | receive id n pool hrecv =>
      obtain ⟨hhead, hrest⟩ := ThreadPool.queue_recv hrecv
      left
      show .terminate ∈ pool.queue i
      rw [hrest]
      by_cases heq : i = id
      · subst heq
        rw [Function.update_self]
        have hmem : .terminate ∈ s.pool.queue i := hmem
        rw [hhead, List.mem_cons] at hmem
        exact hmem.resolve_left nofun
      · rwa [Function.update_of_ne heq]
    | exit id pool hrecv => exact hclosed rfl (queue_close (.inr ⟨_, hrecv⟩))
    | panic id n => exact hclosed rfl (queue_close (s := s.record (.panicked n id)) (.inl rfl))
    | _ => exact .inl hmem
  · obtain ⟨e, he⟩ := Option.ne_none_iff_exists'.1 hsome
    exact .inr (by simp [hended i e he])

theorem grows_act (hlives : ∀ id, t.lives id = 1 → s.ended id = none) (hfits : t.Fits s)
    (h : Acts s t s' t') : s.Grows s' := by
  have hended : ∀ i e, s.ended i = some e → s'.ended i = some e := by
    intro i e he
    rcases ended_act h with ⟨heq, -⟩ | ⟨id, e', heq, hid, -⟩
    · rw [heq, he]
    · by_cases hi : i = id
      · subst hi
        cases (hlives i (by simp [hid])).symm.trans he
      · rw [heq, Function.update_of_ne hi, he]
  exact ⟨capacity_act h, fun hdropped => (dropped_act h).trans hdropped, panicked_act h, hended,
    fun i => told_act hfits h hended⟩

/-- Channels from which something is received, and whose workers live on. -/
theorem Pool.Sound.shrink (h : s.Sound) (hcapacity : s'.capacity = s.capacity)
    (hdropped : s'.dropped = s.dropped) (hended : s'.ended = s.ended)
    (hqueue : ∀ i, s'.queue i <:+ s.queue i)
    (hhistory : ∀ n i, .panicked n i ∈ s'.history ↔ .panicked n i ∈ s.history) : s'.Sound := by
  refine ⟨fun i hi => ?_, fun i q r heq n hn => ?_, fun i hmem => ?_, fun i hi => ?_, fun i hi => ?_,
    fun n i hmem => ?_⟩
  · rw [hended] at hi
    have hsuffix := hqueue i
    rwa [h.closed i hi, List.suffix_nil] at hsuffix
  · obtain ⟨q', hq'⟩ := hqueue i
    rw [heq, ← List.append_assoc] at hq'
    exact h.last i _ r hq'.symm n hn
  · rw [hdropped]
    exact h.told i ((hqueue i).subset hmem)
  · rw [hended] at hi
    rw [hdropped]
    exact h.terminated i hi
  · rw [hended] at hi
    obtain ⟨n, j, hmem⟩ := h.panicked i hi
    exact ⟨n, j, (hhistory n j).2 hmem⟩
  · rw [hended, hcapacity]
    exact h.recorded n i ((hhistory n i).1 hmem)

/-- The worker ends. -/
theorem Pool.Sound.close {id : ℕ} {e : Exit} (h : s.Sound) (hid : id < s.capacity)
    (hlive : s.ended id = none) (hcapacity : s'.capacity = s.capacity)
    (hdropped : s'.dropped = s.dropped) (hended : s'.ended = Function.update s.ended id (some e))
    (hqueue : s'.queue = Function.update s.queue id [])
    (hold : ∀ n i, .panicked n i ∈ s.history → .panicked n i ∈ s'.history)
    (hnew : ∀ n i, .panicked n i ∈ s'.history →
      .panicked n i ∈ s.history ∨ (i = id ∧ e = .panicked))
    (he : (e = .terminated ∧ s.dropped = true) ∨ (e = .panicked ∧ s'.Panicked)) : s'.Sound := by
  have hother : ∀ {i}, i ≠ id → s'.ended i = s.ended i ∧ s'.queue i = s.queue i := by
    intro i hne
    rw [hended, hqueue, Function.update_of_ne hne, Function.update_of_ne hne]
    exact ⟨rfl, rfl⟩
  have hself : s'.ended id = some e ∧ s'.queue id = [] := by simp [hended, hqueue]
  refine ⟨fun i hi => ?_, fun i q r heq n hn => ?_, fun i hmem => ?_, fun i hi => ?_, fun i hi => ?_,
    fun n i hmem => ?_⟩
  · by_cases heq : i = id
    · exact heq ▸ hself.2
    · rw [(hother heq).1] at hi
      exact (hother heq).2.trans (h.closed i hi)
  · by_cases hi : i = id
    · subst hi
      simp [hself.2] at heq
    · exact h.last i q r ((hother hi).2.symm.trans heq) n hn
  · rw [hdropped]
    by_cases heq : i = id
    · subst heq
      simp [hself.2] at hmem
    · exact h.told i ((hother heq).2 ▸ hmem)
  · rw [hdropped]
    by_cases heq : i = id
    · subst heq
      rcases he with ⟨-, hdrop⟩ | ⟨rfl, -⟩
      · exact hdrop
      · cases hself.1.symm.trans hi
    · exact h.terminated i ((hother heq).1.symm.trans hi)
  · by_cases heq : i = id
    · subst heq
      rcases he with ⟨rfl, -⟩ | ⟨-, hpanicked⟩
      · cases hself.1.symm.trans hi
      · exact hpanicked
    · obtain ⟨n, j, hmem⟩ := h.panicked i ((hother heq).1.symm.trans hi)
      exact ⟨n, j, hold n j hmem⟩
  · rw [hcapacity]
    rcases hnew n i hmem with hmem | ⟨rfl, rfl⟩
    · have hrecorded := h.recorded n i hmem
      have hne : i ≠ id := by
        rintro rfl
        cases hlive.symm.trans hrecorded.2
      exact ⟨hrecorded.1, (hother hne).1.trans hrecorded.2⟩
    · exact ⟨hid, hself.1⟩

/-- A message is sent to a worker that lives: a task while the pool is not being
    dropped, or a message to terminate. -/
theorem Pool.Sound.extend {id : ℕ} {m : Message} (h : s.Sound) (hlive : s.ended id = none)
    (hcapacity : s'.capacity = s.capacity) (hdropped : s'.dropped = s.dropped)
    (hended : s'.ended = s.ended)
    (hqueue : s'.queue = Function.update s.queue id (s.queue id ++ [m]))
    (hhistory : ∀ n i, .panicked n i ∈ s'.history ↔ .panicked n i ∈ s.history)
    (hm : s.dropped = decide (m = .terminate)) : s'.Sound := by
  have hother : ∀ {i}, i ≠ id → s'.queue i = s.queue i := by
    intro i hne
    rw [hqueue, Function.update_of_ne hne]
  have hself : s'.queue id = s.queue id ++ [m] := by simp [hqueue]
  refine ⟨fun i hi => ?_, fun i q r heq n hn => ?_, fun i hmem => ?_, fun i hi => ?_, fun i hi => ?_,
    fun n i hmem => ?_⟩
  · have hne : i ≠ id := by
      rintro rfl
      exact hi (hended ▸ hlive)
    rw [hended] at hi
    exact (hother hne).trans (h.closed i hi)
  · by_cases hi : i = id
    · subst hi
      rw [hself] at heq
      -- Nothing is behind a message that has just been sent, and no task is sent
      -- behind a message to terminate.
      rcases history_split heq with ⟨rfl, -⟩ | ⟨r', rfl, hqueue'⟩
      · cases hn
      · have hdrop := h.told i (by simp [hqueue'])
        rcases List.mem_append.1 hn with hn | hn
        · exact h.last i q r' hqueue' n hn
        · cases List.mem_singleton.1 hn
          cases hm.symm.trans hdrop
    · exact h.last i q r ((hother hi).symm.trans heq) n hn
  · rw [hdropped]
    by_cases heq : i = id
    · subst heq
      rw [hself, List.mem_append, List.mem_singleton] at hmem
      rcases hmem with hmem | rfl
      · exact h.told i hmem
      · exact hm
    · exact h.told i ((hother heq) ▸ hmem)
  · rw [hended] at hi
    rw [hdropped]
    exact h.terminated i hi
  · rw [hended] at hi
    obtain ⟨n, j, hmem⟩ := h.panicked i hi
    exact ⟨n, j, (hhistory n j).2 hmem⟩
  · rw [hended, hcapacity]
    exact h.recorded n i ((hhistory n i).1 hmem)

/-! ## Every run -/

theorem Regular.sound_act (h : Regular ⟨s, l ++ t :: l'⟩) (hact : Acts s t s' t') : s'.Sound := by
  have hsound : s.Sound := h.sound
  have hfits : t.Fits s := h.fits t (by simp)
  have hlives : ∀ id, t.lives id = 1 → id < s.capacity ∧ s.ended id = none :=
    fun id => ended_of_lives (h.alive id) (by simp)
  have hsame : s'.queue = s.queue → s'.ended = s.ended →
      (∀ n i, .panicked n i ∈ s'.history ↔ .panicked n i ∈ s.history) → s'.Sound := by
    intro hqueue hended hhistory
    exact hsound.shrink (capacity_act hact) (dropped_act hact) hended
      (fun i => hqueue ▸ List.suffix_refl _) hhistory
  cases hact with
  | accept events task index hlive =>
    have hdropped := h.lent.not_dropped (by simp [Thread.borrows, Exec.borrows])
    exact hsound.extend hlive (capacity_act (.accept events task index hlive)) rfl rfl
      (queue_accept task hfits) (by simp [Pool.send, Pool.release, Pool.record]) (by simp [hdropped])
  | terminate i hi hlive =>
    exact hsound.extend hlive (capacity_act (.terminate i hi hlive)) rfl rfl
      (queue_terminate hi) (fun _ _ => Iff.rfl) (by simp [hfits.1])
  | receive id n pool hrecv =>
    refine hsound.shrink (capacity_act (.receive id n pool hrecv)) rfl rfl (fun i => ?_)
      (by simp [Pool.record])
    obtain ⟨hhead, hrest⟩ := ThreadPool.queue_recv hrecv
    show pool.queue i <:+ s.pool.queue i
    by_cases heq : i = id
    · subst heq
      exact ⟨[.task n], hhead.symm⟩
    · have hsame : pool.queue i = s.pool.queue i := by rw [hrest, Function.update_of_ne heq]
      exact hsame ▸ List.suffix_refl _
  | exit id pool hrecv =>
    obtain ⟨hid, hlive⟩ := hlives id (by simp [Thread.lives])
    have hhead : s.queue id = .terminate :: pool.queue id := (ThreadPool.queue_recv hrecv).1
    exact hsound.close hid hlive (capacity_act (.exit id pool hrecv)) rfl rfl
      (queue_close (.inr ⟨_, hrecv⟩)) (fun _ _ hmem => hmem) (fun _ _ hmem => .inl hmem)
      (.inl ⟨rfl, hsound.told id (by simp [hhead])⟩)
  | panic id n =>
    obtain ⟨hid, hlive⟩ := hlives id (by simp [Thread.lives])
    refine hsound.close hid hlive (capacity_act (.panic id n)) rfl rfl
      (queue_close (s := s.record (.panicked n id)) (.inl rfl))
      (fun _ _ hmem => List.mem_append_left _ hmem) (fun m i hmem => ?_)
      (.inr ⟨rfl, n, id, by simp [Pool.close, Pool.record]⟩)
    rcases List.mem_append.1 hmem with hmem | hmem
    · exact .inl hmem
    · cases List.mem_singleton.1 hmem
      exact .inr ⟨rfl, rfl⟩
  | finish id n => exact hsame rfl rfl (by simp [Pool.record])
  | _ => exact hsame rfl rfl fun _ _ => Iff.rfl

theorem Regular.fits_act (h : Regular ⟨s, l ++ t :: l'⟩) (hgrows : s.Grows s')
    (hact : Acts s t s' t') : t'.Fits s' := by
  have hsound : s.Sound := h.sound
  have hfits : t.Fits s := h.fits t (by simp)
  cases hact with
  | draw events => exact Nat.mod_lt _ h.pos
  | reject events task index hended =>
    have hdropped := h.lent.not_dropped (by simp [Thread.borrows, Exec.borrows])
    obtain ⟨e, he⟩ := Option.ne_none_iff_exists'.1 hended
    cases e with
    | terminated => cases hdropped.symm.trans (hsound.terminated index he)
    | panicked => exact hsound.panicked index he
  | dispatchFails events => exact hfits
  | receive | exit | finish | panic => exact Nat.lt_of_lt_of_eq hfits hgrows.capacity.symm
  | terminate i hi hlive =>
    refine ⟨hfits.1, fun j hj => ?_⟩
    rcases Nat.lt_succ_iff_lt_or_eq.1 hj with hj | rfl
    · exact hgrows.told j (hfits.2 j hj)
    · exact .inl (by rw [queue_terminate hi]; simp)
  | skip i hi hended =>
    refine ⟨hfits.1, fun j hj => ?_⟩
    rcases Nat.lt_succ_iff_lt_or_eq.1 hj with hj | rfl
    · exact hfits.2 j hj
    · exact .inr hended
  | allTerminated i hi => exact ⟨hfits.1, fun j hj => hfits.2 j (Nat.lt_of_lt_of_le hj hi), nofun⟩
  | join i hi hended =>
    refine ⟨hfits.1, hfits.2.1, fun j hj => ?_⟩
    rcases Nat.lt_succ_iff_lt_or_eq.1 hj with hj | rfl
    · exact hfits.2.2 j hj
    · exact hended
  | joinPanics i hi hended => exact ⟨hfits.1, hsound.panicked i hended⟩
  | allJoined i hi => exact ⟨hfits.1, fun j hj => hfits.2.2 j (Nat.lt_of_lt_of_le hj hi)⟩
  | _ => trivial

theorem Regular.grows (h : Regular ⟨s, l ++ t :: l'⟩) (hact : Acts s t s' t') : s.Grows s' :=
  grows_act (fun id hid => (ended_of_lives (h.alive id) (by simp) hid).2) (h.fits t (by simp)) hact

theorem Regular.act (h : Regular ⟨s, l ++ t :: l'⟩) (hact : Acts s t s' t') :
    Regular ⟨s', l ++ t' :: l'⟩ := by
  have hgrows := h.grows hact
  refine ⟨hgrows.capacity ▸ h.pos, h.lent.act hact, alive_act h.alive hact, ?_, h.sound_act hact⟩
  rw [Machine.forall_threads_at]
  exact ⟨h.fits_act hgrows hact,
    fun u hu => ((Machine.forall_threads_at.1 h.fits).2 u hu).mono hgrows⟩

theorem Regular.join (h : Regular ⟨s, l⟩) (hpool : s'.pool = s.pool) (hended : s'.ended = s.ended)
    (hhistory : s'.history = s.history) (hdropped : s.dropped = true → s'.dropped = true)
    (hlent : Lent ⟨s', l ++ [t]⟩) (hlives : ∀ id, t.lives id = 0) (hfits : t.Fits s') :
    Regular ⟨s', l ++ [t]⟩ := by
  have hqueue : s'.queue = s.queue := by rw [Pool.queue, hpool]; rfl
  have hcapacity : s'.capacity = s.capacity := by rw [Pool.capacity, hpool]; rfl
  have hgrows : s.Grows s' :=
    ⟨hcapacity, hdropped, fun ⟨n, i, hmem⟩ => ⟨n, i, hhistory ▸ hmem⟩,
      fun i e he => hended ▸ he, fun i htold => by simpa only [Pool.Told, hqueue, hended] using htold⟩
  have hsound : s.Sound := h.sound
  refine ⟨hcapacity ▸ h.pos, hlent, fun id => ?_, ?_, ?_⟩
  · exact (h.alive id).env (by simp only [Pool.live, hcapacity, hended])
      (by simpa using hlives id)
  · intro u hu
    rcases List.mem_append.1 hu with hu | hu
    · exact (h.fits u hu).mono hgrows
    · exact List.mem_singleton.1 hu ▸ hfits
  · refine ⟨?_, ?_, ?_, ?_, ?_, ?_⟩
    · simpa only [hqueue, hended] using hsound.closed
    · simpa only [hqueue] using hsound.last
    · exact fun i hmem => hdropped (hsound.told i (hqueue ▸ hmem))
    · exact fun i hi => hdropped (hsound.terminated i (hended ▸ hi))
    · exact fun i hi => hgrows.panicked (hsound.panicked i (hended ▸ hi))
    · simpa only [hcapacity, hended, hhistory] using hsound.recorded

theorem Regular.enter {e : Input} {ts : List Thread} (h : Regular ⟨s, l⟩)
    (he : enter s e = some (s', ts)) : Regular ⟨s', l ++ ts⟩ := by
  have htotal : Machine.total Thread.borrows l = s.borrows := h.lent.borrows
  cases e with
  | exec =>
    simp only [Workers.enter] at he
    split at he
    · cases he
    · rename_i hlive
      cases he
      refine h.join rfl rfl rfl id ⟨?_, fun hdropped => absurd hdropped hlive⟩ (fun _ => rfl) trivial
      simp [Thread.borrows, Exec.borrows, Pool.borrow, htotal]
  | run =>
    simp only [Workers.enter] at he
    split at he
    · cases he
    · rename_i hlive
      cases he
      refine h.join rfl rfl rfl id ⟨?_, fun hdropped => absurd hdropped hlive⟩ (fun _ => rfl) trivial
      simp [Thread.borrows, Loop.borrows, Pool.borrow, htotal]
  | drop =>
    simp only [Workers.enter] at he
    split at he
    · cases he
    · rename_i hfree
      cases he
      have hborrows : s.borrows = 0 := by
        simp only [Bool.or_eq_true, bne_iff_ne, ne_eq, not_or, not_not] at hfree
        exact hfree.2
      refine h.join rfl rfl rfl (fun _ => rfl) ⟨?_, fun _ => hborrows⟩ (fun _ => rfl) ⟨rfl, nofun⟩
      simp [Thread.borrows, htotal]

theorem total_lives_new (id capacity : ℕ) :
    Machine.total (Thread.lives id) (initial capacity).threads = (decide (id < capacity)).toNat := by
  induction capacity with
  | zero => rfl
  | succ n ih =>
    have hthreads : (initial (n + 1)).threads = (initial n).threads ++ [.worker n .receiving] := by
      simp [initial, List.range_succ]
    rw [hthreads, Machine.total_append, ih]
    rcases Nat.lt_trichotomy id n with hlt | rfl | hgt
    · simp [Thread.lives, hlt, Nat.lt_succ_of_lt hlt, Nat.ne_of_gt hlt]
    · simp [Thread.lives]
    · simp [Thread.lives, Nat.not_lt_of_gt hgt, Nat.ne_of_lt hgt, show ¬ id < n + 1 by omega]

theorem queue_new (capacity i : ℕ) : (Pool.new capacity).queue i = [] := by
  show ((List.replicate capacity [])[i]?).getD [] = []
  rw [List.getElem?_replicate]
  split <;> rfl

theorem regular_initial {capacity : ℕ} (hpos : 0 < capacity) : Regular (initial capacity) := by
  have hcapacity : (Pool.new capacity).capacity = capacity := by
    simp [Pool.new, Pool.capacity, ThreadPool.new]
  have hqueue := queue_new capacity
  refine ⟨hcapacity.symm ▸ hpos, ⟨?_, nofun⟩, fun id => ?_, ?_, ?_⟩
  · refine Machine.total_eq_zero fun t ht => ?_
    obtain ⟨id, -, rfl⟩ := List.mem_map.1 ht
    rfl
  · show Machine.total (Thread.lives id) (initial capacity).threads = _
    rw [total_lives_new]
    show _ = (decide (id < (Pool.new capacity).capacity) && true).toNat
    rw [hcapacity, Bool.and_true]
  · intro t ht
    obtain ⟨id, hid, rfl⟩ := List.mem_map.1 ht
    show id < (Pool.new capacity).capacity
    rw [hcapacity]
    exact List.mem_range.1 hid
  · refine ⟨fun i _ => hqueue i, fun i q r heq => ?_, fun i hmem => ?_, nofun, nofun, nofun⟩
    · have hnil := (hqueue i).symm.trans heq
      simp at hnil
    · have hnil : .terminate ∈ (Pool.new capacity).queue i := hmem
      rw [hqueue i] at hnil
      cases hnil

theorem regular_of_run {ok : State → Step → Prop} {capacity : ℕ} {as : List Step} {s : State}
    (hpos : 0 < capacity) (h : Run system.step ok (initial capacity) as s) : Regular s := by
  refine Machine.invariant_of_run (J := fun _ => True) h (fun _ _ _ => trivial)
    (regular_initial hpos) ?_ ?_
  · exact fun x ts e y ts' _ hinv _ he => hinv.enter he
  · exact fun x l l' t o y t' _ hinv _ hr => hinv.act (acts_of_proceed hr)

end

end Workers
