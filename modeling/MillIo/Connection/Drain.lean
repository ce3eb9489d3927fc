-- SUMMARY: When everything that a source has received is handled, though each arrival is reported only once.
import MillIo.Connection.Order

/-!
# Draining a source

The poller reports an arrival once. So as long as something is unread there must be a
report on its way, a handler on its way to a read, or one that will dispose of the
source. `handle_read` reads once for each event, and the accept loop reads until it
meets an error.
-/

namespace Io

open Interleaving

variable {β : Type*} {k : Source} {workers : ℕ} {x y x' : Io β} {s u : State β} {a : Step β}
  {as : List (Step β)} {t t' : Thread} {l l' : List Thread} {o : Choice} {p' : Phase}

/-- No report is on its way, no handler is running, and the source is registered. -/
structure Quiescent (s : State β) : Prop where
  armed : s.shared.armed = false
  events : s.shared.events = []
  queues : s.shared.pool.Idle
  threads : ∀ t ∈ s.threads, t.phase = .idle
  polled : s.shared.polled = true

/-! ## The condition -/

/-- Registers the connection and has not inserted it into the map. -/
def Thread.lists (t : Thread) : Bool :=
  match t.phase with
  | .entering => true
  | .listing => true
  | _ => false

/-- A step that leaves behind what is unread: the registry does not have the handler
    under the token, a read takes less than there is, an accept fails, or the connection
    is not disposed of. -/
def Thread.neglects (k : Source) (s : State β) (t : Thread) (o : Choice) : Bool :=
  match t.phase, o with
  | .lookup e, _ => e.readable && s.shared.polled && s.shared.owner != some .self
  | .reading _, .data n => n != s.shared.unread.length
  | .reading _, .error => k = .listener && !s.shared.unread.isEmpty
  | .removing _, _ => k = .server && !s.shared.unread.isEmpty && s.threads.any Thread.lists
  | .deregistering _, .fail => true
  | _, _ => false

def Diligent (k : Source) : State β → Step β → Prop :=
  Machine.ThreadSteps fun s t o => t.neglects k s o = false

instance (k : Source) : DecidableRel (Diligent k : State β → Step β → Prop) := by
  unfold Diligent
  infer_instance

/-! ## What looks after the source -/

/-- The thread is on its way to a read or to disposing of the source. -/
def Thread.attends (k : Source) (t : Thread) : Bool :=
  match t.phase with
  | .lookup e => e.readable
  | .reading _ => true
  | .handling _ => k = .listener
  | .removing _ => true
  | .deregistering _ => true
  | _ => false

def Attended (k : Source) (s : State β) : Prop :=
  s.shared.armed = true ∨ (∃ e ∈ s.shared.events, e.readable = true) ∨
    (∃ e : Readiness, e.readable = true ∧ s.shared.pool.Queued e) ∨
    ∃ t ∈ s.threads, t.attends k = true

/-- About to insert the connection into the map, or to deregister it. -/
def Thread.settles (t : Thread) : Bool :=
  match t.phase with
  | .entering => true
  | .listing => true
  | .deregistering _ => true
  | _ => false

structure Watched (k : Source) (s : State β) : Prop where
  attended : s.shared.polled = true → s.shared.unread ≠ [] → Attended k s
  settled : k = .server → s.shared.polled = true → s.shared.listed = false →
    ∃ t ∈ s.threads, t.settles = true
  gone : s.shared.streamGone k = true → s.shared.polled = false

/-! ## One step -/

theorem Attended.append (h : Attended k s) (ts : List Thread) :
    Attended k ⟨s.shared, s.threads ++ ts⟩ := by
  refine h.imp_right (Or.imp_right (Or.imp_right ?_))
  rintro ⟨t, ht, hattends⟩
  exact ⟨t, List.mem_append_left _ ht, hattends⟩

/-- A thread that does not look after the source, or goes on to do so, makes no
    difference. -/
theorem Attended.move (h : Attended k ⟨x, l ++ t :: l'⟩) (harmed : x'.armed = x.armed)
    (hevents : x'.events = x.events) (hpool : x'.pool = x.pool)
    (ht : t.attends k = true → t'.attends k = true) : Attended k ⟨x', l ++ t' :: l'⟩ := by
  unfold Attended at h ⊢
  rw [Machine.exists_threads_at] at h ⊢
  rw [harmed, hevents, hpool]
  exact h.imp_right (Or.imp_right (Or.imp_right (Or.imp_left ht)))

theorem attended_of_thread (h : t'.attends k = true) : Attended k ⟨x', l ++ t' :: l'⟩ :=
  .inr (.inr (.inr ⟨t', by simp, h⟩))

theorem attends_handleEvent {e : Readiness} {worker : Option ℕ} (h : e.readable = true) :
    Thread.attends k ⟨worker, handleEvent k e⟩ = true := by
  cases k <;> simp [handleEvent, h, Thread.attends]

theorem attended_enters {e : Input β} {ts : List Thread} (h : Watched k s)
    (he : Enters k s.shared e y ts) (hpolled : y.polled = true) (hunread : y.unread ≠ []) :
    Attended k ⟨y, s.threads ++ ts⟩ := by
  cases he with
  | arrive items =>
    left
    change s.shared.polled = true at hpolled
    simp [hpolled]
  | ends =>
    left
    change s.shared.polled = true at hpolled
    simp [hpolled]
  | poll writable hempty =>
    rw [List.append_nil]
    rcases h.attended hpolled hunread with harmed | ⟨e, he, -⟩ | hrest
    · exact .inr (.inl ⟨_, List.mem_singleton_self _, harmed⟩)
    · rw [hempty] at he
      cases he
    · exact .inr (.inr hrest)
  | dispatch e es hevents hworkers =>
    rw [List.append_nil]
    rcases h.attended hpolled hunread with harmed | ⟨e', he', hreadable⟩ | ⟨e', hreadable, hqueued⟩ | hthreads
    · exact .inl harmed
    · rw [hevents] at he'
      rcases List.mem_cons.1 he' with rfl | he'
      · exact .inr (.inr (.inl ⟨e', hreadable, ThreadPool.queued_exec hworkers⟩))
      · exact .inr (.inl ⟨e', he', hreadable⟩)
    · exact .inr (.inr (.inl ⟨e', hreadable, hqueued.exec⟩))
    · exact .inr (.inr (.inr hthreads))
  | execShared e =>
    rw [List.append_nil]
    rcases h.attended hpolled hunread with harmed | hevents | ⟨e', hreadable, hqueued⟩ | hthreads
    · exact .inl harmed
    · exact .inr (.inl hevents)
    · exact .inr (.inr (.inl ⟨e', hreadable, hqueued.exec⟩))
    · exact .inr (.inr (.inr hthreads))
  | execOther | replace | remove =>
    rw [List.append_nil]
    exact h.attended hpolled hunread
  | closeConnection hk => exact (h.attended hpolled hunread).append _
  | disconnect hk => cases hpolled

/-- A handler that finds its connection no longer in the map leaves it to the one
    that has taken it out. -/
theorem attended_unlisted (h : Watched k ⟨x, l ++ t :: l'⟩) (hk : k = .server)
    (hlisted : x.listed = false) (hnone : (l ++ t :: l').any Thread.lists = false)
    (ht : t.settles = false) (hpolled : x.polled = true) : Attended k ⟨x, l ++ t' :: l'⟩ := by
  obtain ⟨t₂, ht₂, hsettles⟩ := (Machine.exists_threads_at.1 (h.settled hk hpolled hlisted)).resolve_left
    (by simp [ht])
  have hlists : t₂.lists = false := by
    rw [List.any_eq_false] at hnone
    refine Bool.eq_false_of_not_eq_true (hnone t₂ ?_)
    rw [List.mem_append] at ht₂ ⊢
    exact ht₂.imp_right (List.mem_cons_of_mem t)
  have hattends : t₂.attends k = true := by
    obtain ⟨worker, p⟩ := t₂
    clear ht₂
    subst hk
    revert hsettles hlists
    cases p <;> simp [Thread.settles, Thread.lists, Thread.attends]
  exact .inr (.inr (.inr (Machine.exists_threads_at.2 (.inr ⟨t₂, ht₂, hattends⟩))))

theorem attended_act (h : Watched k ⟨x, l ++ t :: l'⟩)
    (hok : t.neglects k ⟨x, l ++ t :: l'⟩ o = false) (hact : Acts k x t.worker t.phase o x' p')
    (hpolled : x'.polled = true) (hunread : x'.unread ≠ []) :
    Attended k ⟨x', l ++ ⟨t.worker, p'⟩ :: l'⟩ := by
  obtain ⟨worker, p⟩ := t
  simp only at hact
  have hmove : x.polled = true → x.unread ≠ [] → x'.armed = x.armed → x'.events = x.events →
      x'.pool = x.pool →
      (Thread.attends k ⟨worker, p⟩ = true → Thread.attends k ⟨worker, p'⟩ = true) →
      Attended k ⟨x', l ++ ⟨worker, p'⟩ :: l'⟩ :=
    fun hpolled hunread => (h.attended hpolled hunread).move
  have hdisposes : Thread.attends k ⟨worker, p'⟩ = true →
      Attended k ⟨x', l ++ ⟨worker, p'⟩ :: l'⟩ := attended_of_thread
  have hskip : ∀ {q : Phase}, Thread.attends k ⟨worker, q⟩ = false →
      Thread.attends k ⟨worker, q⟩ = true → Thread.attends k ⟨worker, p'⟩ = true := by
    intro q hfalse htrue
    rw [hfalse] at htrue
    cases htrue
  cases hact with
  | recv i e pool hworker hrecv =>
    rcases h.attended hpolled hunread with harmed | hevents | ⟨e', hreadable, hqueued⟩ | hthreads
    · exact .inl harmed
    · exact .inr (.inl hevents)
    · rcases hqueued.recv hrecv with rfl | hqueued
      · exact hdisposes hreadable
      · exact .inr (.inr (.inl ⟨e', hreadable, hqueued⟩))
    · refine .inr (.inr (.inr (Machine.exists_threads_at.2 (.inr ?_))))
      exact (Machine.exists_threads_at.1 hthreads).resolve_left (by simp [Thread.attends])
  | found e howner => exact hmove hpolled hunread rfl rfl rfl attends_handleEvent
  | missed e howner =>
    -- the event may get lost only if it is not readable
    have hreadable : e.readable = false := by
      simpa [Thread.neglects, hpolled, howner] using hok
    exact hmove hpolled hunread rfl rfl rfl (hskip hreadable)
  | gone writable hgone =>
    rw [h.gone hgone] at hpolled
    cases hpolled
  | data writable i n hworker hk hpos hmax hn =>
    have hall : n = x.unread.length := by simpa [Thread.neglects] using hok
    rw [hall] at hunread
    exact absurd List.drop_length hunread
  | accept writable c rest hk => exact hdisposes (by simp [Thread.attends, hk])
  | wouldBlock writable hempty => exact absurd hempty hunread
  | eof writable hk hempty => exact absurd hempty hunread
  | acceptError writable hk =>
    have hempty : x.unread = [] := by simpa [Thread.neglects, hk] using hok
    exact absurd hempty hunread
  | readError writable hk => exact hdisposes rfl
  | call writable i bytes rest => exact hmove hpolled hunread rfl rfl rfl (hskip rfl)
  | accepted writable o hk => exact hdisposes rfl
  | handled writable hk =>
    exact hmove hpolled hunread rfl rfl rfl (hskip (by simp [Thread.attends, hk]))
  | handledError writable hk => exact hdisposes rfl
  | remove writable => exact hdisposes rfl
  | unlisted writable hk hlisted =>
    have hnone : (l ++ ⟨worker, .removing writable⟩ :: l').any Thread.lists = false := by
      have hne : x.unread.isEmpty = false := by simpa using hunread
      simpa [Thread.neglects, hk, hne] using hok
    exact attended_unlisted h hk hlisted hnone rfl hpolled
  | drop writable => cases hpolled
  | deregister writable => cases hpolled
  | deregisterError writable => cases hok
  | leave writable => exact hmove hpolled hunread rfl rfl rfl (hskip rfl)
  | written => exact hmove hpolled hunread rfl rfl rfl (hskip rfl)
  | register hgone =>
    left
    have hne : x.unread.isEmpty = false := by simpa using hunread
    simp [hne]
  | registerError => exact hmove hpolled hunread rfl rfl rfl (hskip rfl)
  | enter => exact hmove hpolled hunread rfl rfl rfl (hskip rfl)
  | list => exact hmove hpolled hunread rfl rfl rfl (hskip rfl)
  | connect => exact hmove hpolled hunread rfl rfl rfl (hskip rfl)
  | connectError => exact hmove hpolled hunread rfl rfl rfl (hskip rfl)

theorem settled_act (h : Watched k ⟨x, l ++ t :: l'⟩)
    (hok : t.neglects k ⟨x, l ++ t :: l'⟩ o = false) (hact : Acts k x t.worker t.phase o x' p')
    (hk : k = .server) (hpolled : x'.polled = true) (hlisted : x'.listed = false) :
    ∃ t' ∈ l ++ ⟨t.worker, p'⟩ :: l', t'.settles = true := by
  obtain ⟨worker, p⟩ := t
  simp only at hact
  have hmove : x.polled = true → x.listed = false → Thread.settles ⟨worker, p⟩ = false →
      ∃ t' ∈ l ++ ⟨worker, p'⟩ :: l', t'.settles = true := by
    intro hpolled hlisted ht
    refine Machine.exists_threads_at.2 (.inr ?_)
    exact (Machine.exists_threads_at.1 (h.settled hk hpolled hlisted)).resolve_left (by simp [ht])
  have hsettles : Thread.settles ⟨worker, p'⟩ = true →
      ∃ t' ∈ l ++ ⟨worker, p'⟩ :: l', t'.settles = true :=
    fun ht => ⟨⟨worker, p'⟩, by simp, ht⟩
  cases hact with
  | remove writable => exact hsettles rfl
  | drop writable hclient => exact absurd (hk.symm.trans hclient) (by decide)
  | deregister writable => cases hpolled
  | deregisterError writable => cases hok
  | register hgone => exact hsettles rfl
  | enter =>
    subst hk
    exact hsettles rfl
  | list => cases hlisted
  | _ => exact hmove hpolled hlisted rfl

theorem gone_act {worker : Option ℕ} {p : Phase} (h : x.streamGone k = true → x.polled = false)
    (hact : Acts k x worker p o x' p') (hgone : x'.streamGone k = true) : x'.polled = false := by
  cases hact with
  | remove writable hk =>
    subst hk
    cases hgone
  | drop writable => rfl
  | deregister writable => rfl
  | register hnot => exact absurd hgone (by simpa [streamGone] using hnot)
  | list => simp [streamGone] at hgone
  | _ => exact h hgone

theorem Watched.step (h : Watched k s) (hok : Diligent k s a)
    (hs : (system β k).step s a = some u) : Watched k u := by
  rcases step_cases hs with ⟨e, y, ts, rfl, he, rfl⟩ | ⟨o, x', t, p', l, l', rfl, hts, hact, rfl⟩
  · refine ⟨attended_enters h he, ?_, ?_⟩
    · intro hk hpolled hlisted
      have hsettled : s.shared.polled = true → s.shared.listed = false →
          ∃ t ∈ s.threads ++ ts, t.settles = true := by
        intro hpolled hlisted
        obtain ⟨t, ht, hsettles⟩ := h.settled hk hpolled hlisted
        exact ⟨t, List.mem_append_left _ ht, hsettles⟩
      cases he with
      | disconnect hclient => cases hpolled
      | _ => exact hsettled hpolled hlisted
    · cases he with
      | disconnect hk => exact fun _ => rfl
      | _ => exact h.gone
  · obtain ⟨x, ts⟩ := s
    subst hts
    have hnot := Machine.threadSteps_at.1 hok
    exact ⟨attended_act h hnot hact, settled_act h hnot hact, gone_act h.gone hact⟩

/-! ## Whole runs -/

theorem watched_of_run (h : Run (system β k).step (Diligent k) (initial β k workers) as s) :
    Watched k s := by
  refine h.invariant ⟨?_, ?_, ?_⟩ fun t a u ht hok hs => ht.step hok hs
  · intro hpolled
    cases hpolled
  · intro hk hpolled
    cases hpolled
  · exact fun _ => rfl

/-- What has been received has been passed on, is held by a worker, or is unread. -/
def Conserved (x : Io β) : Prop :=
  x.received.Perm (x.delivered ++ ((x.held.map Prod.snd).flatten ++ x.unread))

theorem conserved_enters {e : Input β} {ts : List Thread} (h : Conserved x)
    (he : Enters k x e y ts) : Conserved y := by
  cases he with
  | arrive items hclosed =>
    unfold Conserved at h ⊢
    simpa only [List.append_assoc] using h.append_right items
  | _ => exact h

theorem conserved_act {worker : Option ℕ} {p : Phase} (h : Conserved x)
    (hact : Acts k x worker p o y p') : Conserved y := by
  unfold Conserved at h ⊢
  cases hact with
  | data writable i n hworker =>
    refine h.trans (List.Perm.of_eq ?_)
    simp
  | accept writable c rest hk hunread =>
    rw [hunread] at h
    refine h.trans ?_
    simp only [List.append_assoc, List.singleton_append]
    exact List.perm_middle.append_left x.delivered
  | call writable i bytes rest hworker hheld =>
    obtain ⟨pre, post, heq, rfl⟩ := heldBy_spec hheld
    rw [heq] at h
    refine h.trans ?_
    simp only [List.map_append, List.map_cons, List.flatten_append, List.flatten_cons,
      List.append_assoc]
    exact (List.perm_append_comm_assoc _ _ _).append_left x.delivered
  | _ => exact h

theorem conserved_of_run {ok : State β → Step β → Prop}
    (h : Run (system β k).step ok (initial β k workers) as s) : Conserved s.shared := by
  have hinitial : Conserved (initial β k workers).shared := .nil
  refine h.invariant (I := fun s => Conserved s.shared) hinitial fun t a u ht _ hs => ?_
  rcases step_cases hs with ⟨e, y, ts, rfl, he, rfl⟩ | ⟨o, x', t₁, p', l, l', rfl, hts, hact, rfl⟩
  · exact conserved_enters ht he
  · exact conserved_act ht hact

theorem Quiescent.not_attended (h : Quiescent s) : ¬ Attended k s := by
  rintro (harmed | ⟨e, he, -⟩ | ⟨e, -, hqueued⟩ | ⟨t, ht, hattends⟩)
  · rw [h.armed] at harmed
    cases harmed
  · rw [h.events] at he
    cases he
  · exact h.queues.not_queued hqueued
  · simp [Thread.attends, h.threads t ht] at hattends

/-- In a quiescent state nothing is held by a worker. -/
theorem Quiescent.held_eq_nil (h : Quiescent s) (hcallers : Callers s) : s.shared.held = [] := by
  have hnone : s.threads.filterMap Thread.caller = [] := by
    rw [List.filterMap_eq_nil_iff]
    intro t ht
    simp [Thread.caller, h.threads t ht]
  unfold Callers at hcallers
  rw [hnone] at hcallers
  exact List.map_eq_nil_iff.1 hcallers.eq_nil

/-- In every quiescent state of a diligent run, a source has nothing unread, and what
    it has received has been passed to `on_data`, or accepted or rejected. -/
theorem drained_of_diligent
    (h : Run (system β k).step (Diligent k) (initial β k workers) as s) (hq : Quiescent s) :
    s.shared.unread = [] ∧ s.shared.received.Perm s.shared.delivered := by
  have hunread : s.shared.unread = [] := by
    by_contra hne
    exact hq.not_attended ((watched_of_run h).attended hq.polled hne)
  have hconserved := conserved_of_run h
  unfold Conserved at hconserved
  rw [hq.held_eq_nil (callers_of_run h), hunread] at hconserved
  exact ⟨hunread, by simpa using hconserved⟩

/-- Three bytes arrive at a server connection and are read at once. -/
def threeBytes : List (Step UInt8) :=
  [.act 1 .go, .act 1 .go, .act 1 .go, .act 1 .go, .env (.arrive [1, 2, 3]), .env (.poll true),
    .env .dispatch, .act 0 .go, .act 0 .go, .act 0 (.data 3), .act 0 .go, .act 0 .go, .act 0 .go]

theorem drained_of_diligent_three_bytes :
    ∃ s, Run (system UInt8 .server).step (Diligent .server) (initial UInt8 .server 1) threeBytes s ∧
      s.shared.delivered = [1, 2, 3] ∧ s.shared.unread = [] ∧
      s.shared.received.Perm s.shared.delivered := by
  obtain ⟨s, hrun, hdelivered, harmed, hevents, hqueues, hthreads, hpolled⟩ :
      ∃ s, Run (system UInt8 .server).step (Diligent .server) (initial UInt8 .server 1) threeBytes s ∧
        s.shared.delivered = [1, 2, 3] ∧ s.shared.armed = false ∧ s.shared.events = [] ∧
        (∀ q ∈ s.shared.pool.queues, q = []) ∧ (∀ t ∈ s.threads, t.phase = .idle) ∧
        s.shared.polled = true := Run.exists_of_exec (by decide +kernel)
  have hquiescent : Quiescent s := ⟨harmed, hevents, hqueues, hthreads, hpolled⟩
  exact ⟨s, hrun, hdelivered, drained_of_diligent hrun hquiescent⟩

/-- One byte more than the buffer takes arrives at once. -/
def longBurst : List (Step UInt8) :=
  [.act 1 .go, .act 1 .go, .act 1 .go, .act 1 .go, .env (.arrive (List.replicate 8193 7)),
    .env (.poll false), .env .dispatch, .act 0 .go, .act 0 .go, .act 0 (.data 8192), .act 0 .go,
    .act 0 .go]

theorem last_byte_unread :
    ∃ s, Run (system UInt8 .server).step Unrestricted (initial UInt8 .server 1) longBurst s ∧
      Quiescent s ∧ s.shared.unread = [7] := by
  obtain ⟨s, hrun, hunread, harmed, hevents, hqueues, hthreads, hpolled⟩ :
      ∃ s, Run (system UInt8 .server).step Unrestricted (initial UInt8 .server 1) longBurst s ∧
        s.shared.unread = [7] ∧ s.shared.armed = false ∧ s.shared.events = [] ∧
        (∀ q ∈ s.shared.pool.queues, q = []) ∧ (∀ t ∈ s.threads, t.phase = .idle) ∧
        s.shared.polled = true := Run.exists_of_exec (by decide +kernel)
  exact ⟨s, hrun, ⟨harmed, hevents, hqueues, hthreads, hpolled⟩, hunread⟩

end Io
