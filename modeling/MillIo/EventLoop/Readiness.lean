-- SUMMARY: No reported event is lost while each is looked up when its handler is in the registry.
import MillIo.EventLoop.Dispatch
import MillIo.Interleaving.Progress

/-!
# Events around a registration

Once the poller has registered a source it may report its events, and each of them once.
An event that is looked up before `register` has put the handler into the registry
reaches no handler, nor does one that is looked up after the handler has been removed
or replaced.
-/
namespace Dispatch

open Interleaving EventLoop

/-- The event is one that its registration is interested in. -/
def Report.wanted (r : Report) : Bool := (r.reg.entry.select r.event).isSome

/-- If the thread is about to look an event up that is wanted, the registry has the
    handler of its registration. -/
def Thread.attended (s : Shared) : Thread → Bool
  | .dispatch _ (.looking r) => !r.wanted || s.registery r.event.token == some r.reg.entry
  | _ => true

/-- Every event is looked up while its handler is in the registry, and no handler panics. -/
def Attended : State → Step → Prop := Machine.ThreadSteps fun s t o =>
  o ≠ .panics ∧ t.attended s.shared = true

instance : DecidableRel Attended := by unfold Attended; infer_instance

def Phase.waiting : Phase → List Report
  | .looking r => [r]
  | .found r handler => if handler = r.reg.id then [r] else []
  | .handling => []

def Site.waiting : Site → List Report
  | .reactor rest => rest
  | .worker _ => []

/-- The events that the thread has still to dispatch, or is about to call the right
    handler with. -/
def Thread.waiting : Thread → List Report
  | .loop (.dispatching rest) => rest
  | .dispatch site t => t.waiting ++ site.waiting
  | _ => []

def Waits (s : State) (r : Report) : Prop :=
  (∃ t ∈ s.threads, r ∈ t.waiting) ∨ s.shared.pool.Queued r

instance (s : State) (r : Report) : Decidable (Waits s r) := by
  unfold Waits ThreadPool.Queued; infer_instance

/-- An event of a registered interest that was reported, and that the handler of its
    source has not been called with and will not be. -/
structure Lost (s : State) (r : Report) : Prop where
  reported : .reported r ∈ s.shared.history
  wanted : r.wanted = true
  uncalled : .called r r.reg.id ∉ s.shared.history
  unattended : ¬ Waits s r

/-- A thread goes on and no handler panics. The loop does not poll for further events. -/
inductive Advances : State → State → Prop
  | step {s s' : Shared} {l l' : List Thread} {t t' : Thread} {o : Choice}
      (hpolled : t ≠ .loop .polling) (hreturns : o ≠ .panics)
      (hact : proceed s t o = some (s', t')) : Advances ⟨s, l ++ t :: l'⟩ ⟨s', l ++ t' :: l'⟩

/-- No event is left to be dispatched. -/
def Idle (s : State) : Prop := ∀ r, ¬ Waits s r

def Site.staffs (id : ℕ) : Site → Bool
  | .reactor _ => false
  | .worker i => i == id

/-- The thread of the worker. -/
def Thread.staffs (id : ℕ) : Thread → Bool
  | .worker i .receiving => i == id
  | .dispatch site _ => site.staffs id
  | _ => false

/-- All workers live. -/
structure Staffed (s : State) : Prop where
  pooled : s.shared.directDispatch = true ∨ 0 < s.shared.pool.queues.length
  live : ∀ id, s.shared.ended id = false
  staffed : ∀ id < s.shared.pool.queues.length, ∃ t ∈ s.threads, t.staffs id = true

def Kept (s : State) : Prop :=
  ∀ r, .reported r ∈ s.shared.history → r.wanted = true →
    Waits s r ∨ .called r r.reg.id ∈ s.shared.history

section

variable {s s' : Shared} {t t' : Thread} {l l' : List Thread} {o : Choice}

/-! ## The workers -/

theorem staffs_resume (site : Site) (id : ℕ) : site.resume.staffs id = site.staffs id := by
  cases site <;> rfl

/-- The reactor can hand an event to a worker. -/
theorem Staffed.not_rejected {s : State} (h : Staffed s) (hpooled : s.shared.directDispatch = false) :
    ¬ (s.shared.pool.queues.length = 0 ∨ s.shared.ended s.shared.index = true) := by
  rintro (hzero | hended)
  · rcases h.pooled with hdirect | hpos
    · cases hpooled.symm.trans hdirect
    · omega
  · cases (h.live _).symm.trans hended

theorem Staffed.act (h : Staffed ⟨s, l ++ t :: l'⟩) (hreturns : o ≠ .panics)
    (hact : Acts s t o s' t') : Staffed ⟨s', l ++ t' :: l'⟩ := by
  have hthreads : (∀ id, t.staffs id = true → t'.staffs id = true) →
      ∀ id < s.pool.queues.length, ∃ u ∈ l ++ t' :: l', u.staffs id = true := by
    intro hstays id hid
    rw [Machine.exists_threads_at]
    exact (Machine.exists_threads_at.1 (h.staffed id hid)).imp_left (hstays id)
  have hlive : ∀ id, s.ended id = false := h.live
  cases hact with
  | exec r rest hpos hended =>
    have hlength : (s.pool.exec r).queues.length = s.pool.queues.length := ThreadPool.exec_length
    exact ⟨.inr (hlength ▸ hpos), hlive, fun id hid => hthreads nofun id (hlength ▸ hid)⟩
  | reject r rest hpooled hended =>
    exact ⟨h.pooled, hlive, hthreads nofun⟩
  | receive id r pool hrecv =>
    have hlength := ThreadPool.recv_length hrecv
    exact ⟨hlength ▸ h.pooled, hlive, fun i hi => hthreads (fun _ hstaffs => hstaffs) i (hlength ▸ hi)⟩
  | miss site r hlookup =>
    exact ⟨h.pooled, hlive, hthreads fun id hstaffs => (staffs_resume site id).trans hstaffs⟩
  | finish site =>
    exact ⟨h.pooled, hlive, hthreads fun id hstaffs => (staffs_resume site id).trans hstaffs⟩
  | panic site => exact absurd rfl hreturns
  | find site | call site => exact ⟨h.pooled, hlive, hthreads fun _ hstaffs => hstaffs⟩
  | _ => exact ⟨h.pooled, hlive, hthreads nofun⟩

theorem enter_frame {e : Input} {ts : List Thread} (h : enter s e = some (s', ts)) :
    s'.directDispatch = s.directDispatch ∧ s'.pool = s.pool ∧ s'.ended = s.ended ∧
      s'.history = s.history := by
  cases e with
  | _ =>
    simp only [enter] at h
    split at h
    · cases h
    · cases h
      exact ⟨rfl, rfl, rfl, rfl⟩

theorem staffed_of_run {capacity : ℕ} {directDispatch : Bool} {as : List Step} {s : State}
    (hpool : directDispatch = true ∨ 0 < capacity)
    (h : Run system.step Attended (initial capacity directDispatch) as s) : Staffed s := by
  refine Machine.invariant_of_run (J := fun _ => True) h (fun _ _ _ => trivial) ?_ ?_ ?_
  · have hlength : (ThreadPool.new capacity : ThreadPool Report).queues.length = capacity := by
      simp [ThreadPool.new]
    refine ⟨hpool.imp_right fun hpos => hlength.symm ▸ hpos, fun _ => rfl, fun id hid => ?_⟩
    refine ⟨.worker id .receiving, List.mem_map.2 ⟨id, List.mem_range.2 ?_, rfl⟩, ?_⟩
    · rw [← hlength]
      exact hid
    · simp [Thread.staffs]
  · intro x ts e y ts' _ hx _ he
    obtain ⟨hdirect, hpool, hended, -⟩ := enter_frame he
    refine ⟨?_, fun id => hended ▸ hx.live id, fun id hid => ?_⟩
    · show y.directDispatch = true ∨ 0 < y.pool.queues.length
      rw [hdirect, hpool]
      exact hx.pooled
    · obtain ⟨t, ht, hstaffs⟩ := hx.staffed id (hpool ▸ hid)
      exact ⟨t, List.mem_append_left _ ht, hstaffs⟩
  · intro x l l' t o y t' _ hx hok hr
    exact hx.act (Machine.threadSteps_at.1 hok).1 (acts_of_proceed hr)

/-! ## What becomes of an event -/

theorem history_act (h : Acts s t o s' t') : ∃ evs, s'.history = s.history ++ evs := by
  cases h with
  | poll | confirm | call => exact ⟨_, rfl⟩
  | panic site => cases site <;> exact ⟨[], (List.append_nil _).symm⟩
  | _ => exact ⟨[], (List.append_nil _).symm⟩

/-- The registry has the handler, so the look-up finds it. -/
theorem lookup_of_attended {site : Site} {r : Report} (hwanted : r.wanted = true)
    (hattended : (Thread.dispatch site (.looking r)).attended s = true) :
    s.lookup r.event = some r.reg.id := by
  have hentered : s.registery r.event.token = some r.reg.entry := by
    simpa [Thread.attended, hwanted] using hattended
  have hselect : s.lookup r.event = r.reg.entry.select r.event := by
    simp [Shared.lookup, hentered]
  rw [hselect]
  unfold Report.wanted HandlerEntry.select at hwanted
  unfold HandlerEntry.select
  split at hwanted
  · rename_i hinterested
    rw [if_pos hinterested]
    rfl
  · cases hwanted

theorem waiting_resume (site : Site) : site.resume.waiting = site.waiting := by
  cases site <;> rfl

/-- A step that leaves alone what waits elsewhere: an event that waits is still waiting, or
    has been called. -/
theorem Waits.act {r : Report} (h : Waits ⟨s, l ++ t :: l'⟩ r)
    (hthread : r ∈ t.waiting → Waits ⟨s', l ++ t' :: l'⟩ r ∨ .called r r.reg.id ∈ s'.history)
    (hqueued : s.pool.Queued r → Waits ⟨s', l ++ t' :: l'⟩ r) :
    Waits ⟨s', l ++ t' :: l'⟩ r ∨ .called r r.reg.id ∈ s'.history := by
  rcases h with hwaits | hqueue
  · rcases Machine.exists_threads_at.1 hwaits with hown | hother
    · exact hthread hown
    · exact .inl (.inl (Machine.exists_threads_at.2 (.inr hother)))
  · exact .inl (hqueued hqueue)

theorem Kept.act (h : Kept ⟨s, l ++ t :: l'⟩) (hstaffed : Staffed ⟨s, l ++ t :: l'⟩)
    (hok : o ≠ .panics ∧ t.attended s = true) (hact : Acts s t o s' t') :
    Kept ⟨s', l ++ t' :: l'⟩ := by
  intro r hreported hwanted
  have hown : r ∈ t'.waiting → Waits ⟨s', l ++ t' :: l'⟩ r :=
    fun hmem => .inl (Machine.exists_threads_at.2 (.inl hmem))
  have hold : .reported r ∈ s.history →
      (r ∈ t.waiting → Waits ⟨s', l ++ t' :: l'⟩ r ∨ .called r r.reg.id ∈ s'.history) →
      (s.pool.Queued r → Waits ⟨s', l ++ t' :: l'⟩ r) →
      Waits ⟨s', l ++ t' :: l'⟩ r ∨ .called r r.reg.id ∈ s'.history := by
    intro hmem hthread hqueued
    rcases h r hmem hwanted with hwaits | hcalled
    · exact hwaits.act hthread hqueued
    · obtain ⟨evs, heq⟩ := history_act hact
      exact .inr (heq ▸ List.mem_append_left _ hcalled)
  have hsame : s'.history = s.history → s'.pool = s.pool → t.waiting ⊆ t'.waiting →
      Waits ⟨s', l ++ t' :: l'⟩ r ∨ .called r r.reg.id ∈ s'.history := by
    intro hhistory hpool hsub
    exact hold (hhistory ▸ hreported) (fun hmem => .inl (hown (hsub hmem)))
      fun hqueue => .inr (hpool ▸ hqueue)
  cases hact with
  | poll ready =>
    rcases List.mem_append.1 hreported with hmem | hmem
    · exact hold hmem nofun .inr
    · obtain ⟨r', hr', heq⟩ := List.mem_map.1 hmem
      cases heq
      exact .inl (hown hr')
  | confirm src reg =>
    refine hold ((List.mem_append.1 hreported).resolve_right ?_) nofun .inr
    simp
  | look r' rest => exact hsame rfl rfl (List.Subset.refl _)
  | exec r' rest hpos hlive =>
    refine hold hreported (fun hmem => ?_) fun hqueue => .inr hqueue.exec
    rcases List.mem_cons.1 hmem with rfl | hmem
    · exact .inl (.inr (ThreadPool.queued_exec hpos))
    · exact .inl (hown hmem)
  | reject r' rest hpooled hended => exact absurd hended (hstaffed.not_rejected hpooled)
  | receive id r' pool hrecv =>
    refine hold hreported nofun fun hqueue => ?_
    rcases hqueue.recv hrecv with rfl | hqueue
    · exact hown (by simp [Thread.waiting, Phase.waiting])
    · exact .inr hqueue
  | find site r' handler hlookup =>
    refine hold hreported (fun hmem => .inl (hown ?_)) .inr
    rcases List.mem_append.1 hmem with hmem | hmem
    · obtain rfl : r = r' := List.mem_singleton.1 hmem
      obtain rfl : r.reg.id = handler :=
        Option.some.inj ((lookup_of_attended hwanted hok.2).symm.trans hlookup)
      simp [Thread.waiting, Phase.waiting]
    · exact List.mem_append_right _ hmem
  | miss site r' hlookup =>
    refine hold hreported (fun hmem => .inl (hown ?_)) .inr
    rw [waiting_resume]
    rcases List.mem_append.1 hmem with hmem | hmem
    · obtain rfl : r = r' := List.mem_singleton.1 hmem
      cases (lookup_of_attended hwanted hok.2).symm.trans hlookup
    · exact hmem
  | call site r' handler =>
    have hbefore : .reported r ∈ s.history :=
      (List.mem_append.1 hreported).resolve_right (by simp)
    refine hold hbefore (fun hmem => ?_) .inr
    rcases List.mem_append.1 hmem with hmem | hmem
    · simp only [Phase.waiting] at hmem
      split at hmem
      · rename_i heq
        obtain rfl : r = r' := List.mem_singleton.1 hmem
        subst heq
        exact .inr (by simp [Shared.record])
      · cases hmem
    · exact .inl (hown (List.mem_append_right _ hmem))
  | finish site => exact hsame rfl rfl (by rw [waiting_resume]; exact List.Subset.refl _)
  | panic site => exact absurd rfl hok.1
  | _ => exact hsame rfl rfl (List.nil_subset _)

theorem kept_of_run {capacity : ℕ} {directDispatch : Bool} {as : List Step} {s : State}
    (hpool : directDispatch = true ∨ 0 < capacity)
    (h : Run system.step Attended (initial capacity directDispatch) as s) : Kept s := by
  refine Machine.invariant_of_run (I := Kept) (J := Staffed) h
    (fun as t ht => staffed_of_run hpool ht) ?_ ?_ ?_
  · intro r hreported
    cases hreported
  · intro x ts e y ts' _ hx _ he r hreported hwanted
    obtain ⟨-, hpool, -, hhistory⟩ := enter_frame he
    refine (hx r (hhistory ▸ hreported) hwanted).imp ?_ fun hcalled => hhistory ▸ hcalled
    refine Or.imp ?_ fun hqueue => hpool ▸ hqueue
    rintro ⟨t, ht, hwaits⟩
    exact ⟨t, List.mem_append_left _ ht, hwaits⟩
  · intro x l l' t o y t' hstaffed hx hok hr
    exact hx.act hstaffed (Machine.threadSteps_at.1 hok) (acts_of_proceed hr)

/-! ## Every event is dispatched in the end -/

def Register.weight : Register → ℕ
  | .entering _ _ _ => 2
  | .inserting _ _ => 1
  | .returned _ => 0

def Deregister.weight : Deregister → ℕ
  | .entering _ _ => 3
  | .removing _ _ _ => 2
  | .returning _ _ => 1
  | .returned _ => 0

def Phase.weight : Phase → ℕ
  | .looking _ => 3
  | .found _ _ => 2
  | .handling => 1

def Site.weight : Site → ℕ
  | .reactor rest => 6 * rest.length + 1
  | .worker _ => 0

/-- How far a thread is from the end of what it has begun. -/
def Thread.weight : Thread → ℕ
  | .register t => t.weight
  | .deregister t => t.weight
  | .loop (.dispatching rest) => 6 * rest.length + 1
  | .dispatch site t => site.weight + t.weight
  | _ => 0

def remaining (s : State) : ℕ :=
  4 * s.shared.pool.waiting + Machine.total Thread.weight s.threads

theorem weight_resume (site : Site) : site.resume.weight = site.weight := by
  cases site <;> rfl

theorem closer_of_acts (h : Acts s t o s' t') (hreturns : o ≠ .panics)
    (hpolled : t ≠ .loop .polling) :
    4 * s'.pool.waiting + t'.weight < 4 * s.pool.waiting + t.weight := by
  cases h with
  | poll | leave => exact absurd rfl hpolled
  | look r rest =>
    simp only [Thread.weight, Site.weight, Phase.weight, List.length_cons]
    omega
  | reject r rest hpooled hended =>
    show 4 * s.pool.waiting + _ < _
    simp only [Thread.weight, List.length_cons]
    omega
  | exec r rest hpos hlive =>
    have hsent : (s.pool.exec r).waiting = s.pool.waiting + 1 :=
      ThreadPool.waiting_send (Nat.mod_lt _ hpos)
    simp only [hsent, Thread.weight, List.length_cons]
    omega
  | receive id r pool hrecv =>
    simp only [ThreadPool.waiting_recv hrecv, Thread.weight, Site.weight, Phase.weight]
    omega
  | miss site r hlookup =>
    rw [weight_resume]
    simp only [Thread.weight, Phase.weight]
    omega
  | finish site =>
    rw [weight_resume]
    exact Nat.lt_succ_self _
  | refuse | decline =>
    show 4 * s.pool.waiting + 0 < _
    simp [Thread.weight, Register.weight, Deregister.weight]
  | panic site => exact absurd rfl hreturns
  | _ => exact Nat.lt_succ_self _

theorem remaining_lt (hreturns : o ≠ .panics) (hpolled : t ≠ .loop .polling)
    (hact : Acts s t o s' t') :
    remaining ⟨s', l ++ t' :: l'⟩ < remaining ⟨s, l ++ t :: l'⟩ := by
  have hcloser := closer_of_acts hact hreturns hpolled
  simp only [remaining, Machine.total_append, Machine.total_cons]
  omega

/-- Nothing is left to be dispatched where no thread can go on. -/
theorem idle_of_not_advances {s : State} (hstaffed : Staffed s) (h : ∀ u, ¬ Advances s u) :
    Idle s := by
  obtain ⟨x, ts⟩ := s
  have hstuck : ∀ t ∈ ts, t ≠ .loop .polling → proceed x t .goes = none := by
    intro t ht hpolled
    obtain ⟨l, l', rfl⟩ := List.append_of_mem ht
    cases hact : proceed x t .goes with
    | none => rfl
    | some r => exact absurd (.step hpolled (by simp) hact) (h ⟨r.1, l ++ r.2 :: l'⟩)
  have hdispatch : ∀ site t, .dispatch site t ∉ ts := by
    intro site t ht
    have hnone := hstuck _ ht (by simp)
    cases t with
    | looking r => cases hlookup : x.lookup r.event <;> simp [proceed, Phase.proceed, hlookup] at hnone
    | _ => cases hnone
  rintro r (⟨t, ht, hwaits⟩ | ⟨q, hq, hqueue⟩)
  · cases t with
    | loop t =>
      cases t with
      | dispatching rest =>
        have hnone := hstuck _ ht (by simp)
        cases rest with
        | nil => cases hnone
        | cons r' rest =>
          simp only [proceed, Loop.proceed] at hnone
          split at hnone
          · cases hnone
          · split at hnone <;> cases hnone
      | _ => cases hwaits
    | dispatch site t => exact hdispatch site t ht
    | _ => cases hwaits
  · -- The worker of the channel is waiting for what is in it.
    obtain ⟨id, hid, rfl⟩ := List.mem_iff_getElem.1 hq
    obtain ⟨t, ht, hstaffs⟩ := hstaffed.staffed id hid
    cases t with
    | worker i w =>
      cases w with
      | receiving =>
        obtain rfl : i = id := by simpa [Thread.staffs] using hstaffs
        have hne : x.pool.queue i ≠ [] := by
          have hqueue' : x.pool.queue i = x.pool.queues[i] := by
            simp [ThreadPool.queue, List.getElem?_eq_getElem hid]
          rw [hqueue']
          exact List.ne_nil_of_mem hqueue
        obtain ⟨r', hrecv⟩ := ThreadPool.exists_recv hne
        have hnone := hstuck _ ht (by simp)
        simp [proceed, Worker.proceed, hrecv] at hnone
      | exited => cases hstaffs
    | dispatch site t => exact hdispatch site t ht
    | _ => cases hstaffs

/-- In every run of a reactor that dispatches directly, or to a pool with a worker: if
    each event is looked up while its handler is in the registry, and no handler panics,
    then no event is lost, and every event is dispatched in the end. -/
theorem readiness_not_lost {capacity : ℕ} {directDispatch : Bool} {as : List Step} {s : State}
    (hpool : directDispatch = true ∨ 0 < capacity)
    (h : Run system.step Attended (initial capacity directDispatch) as s) :
    (∀ r, ¬ Lost s r) ∧ Inevitably Advances Idle s := by
  refine ⟨fun r hlost => ?_, ?_⟩
  · rcases kept_of_run hpool h r hlost.reported hlost.wanted with hwaits | hcalled
    · exact hlost.unattended hwaits
    · exact hlost.uncalled hcalled
  · refine .of_measure (I := Staffed) wellFounded_lt remaining ?_ ?_ ?_ (staffed_of_run hpool h)
    · rintro _ _ hstaffed ⟨-, hreturns, hact⟩
      exact hstaffed.act hreturns (acts_of_proceed hact)
    · rintro _ _ - ⟨hpolled, hreturns, hact⟩
      exact remaining_lt hreturns hpolled (acts_of_proceed hact)
    · exact fun u hstaffed hnone => idle_of_not_advances hstaffed hnone

end

/-- A source is registered, and an event of it is queued, received and looked up. -/
def registeredAndDispatched : List Step :=
  [.env .run, .env (.register 0 5 .readableOnly), .act 2 .goes, .act 1 (.polls [(0, true, false)]),
    .act 1 .goes, .act 2 .goes, .act 0 .goes, .act 0 .goes]

theorem readiness_not_lost_one_worker : ∃ s,
    Run system.step Attended (initial 1 false) registeredAndDispatched s ∧
      .dispatch (.worker 0) (.found ⟨0, ⟨0, 5, .readableOnly⟩, ⟨5, true, false⟩⟩ 0) ∈ s.threads ∧
      (∀ r, ¬ Lost s r) ∧ Inevitably Advances Idle s := by
  have hend : ∃ s, Run system.step Attended (initial 1 false) registeredAndDispatched s ∧
      .dispatch (.worker 0) (.found ⟨0, ⟨0, 5, .readableOnly⟩, ⟨5, true, false⟩⟩ 0) ∈ s.threads :=
    Run.exists_of_exec (by decide +kernel)
  obtain ⟨s, hrun, hfound⟩ := hend
  exact ⟨s, hrun, hfound, readiness_not_lost (.inr (by decide)) hrun⟩

/-- The event is polled and looked up between the two steps of `register`, which then
    returns; the source is registered and the event lost. -/
theorem readiness_lost : ∃ s, Run system.step Unrestricted (initial 1 false)
      [.env .run, .env (.register 0 5 .readableOnly), .act 2 .goes, .act 1 (.polls [(0, true, false)]),
        .act 1 .goes, .act 0 .goes, .act 0 .goes, .act 2 .goes] s ∧
    .register (.returned true) ∈ s.threads ∧ s.shared.polled 0 = some ⟨0, 5, .readableOnly⟩ ∧
    Lost s ⟨0, ⟨0, 5, .readableOnly⟩, ⟨5, true, false⟩⟩ := by
  have hend : ∃ s, Run system.step Unrestricted (initial 1 false)
        [.env .run, .env (.register 0 5 .readableOnly), .act 2 .goes, .act 1 (.polls [(0, true, false)]),
          .act 1 .goes, .act 0 .goes, .act 0 .goes, .act 2 .goes] s ∧
      .register (.returned true) ∈ s.threads ∧ s.shared.polled 0 = some ⟨0, 5, .readableOnly⟩ ∧
      s.shared.history = [.reported ⟨0, ⟨0, 5, .readableOnly⟩, ⟨5, true, false⟩⟩] ∧
      ¬ Waits s ⟨0, ⟨0, 5, .readableOnly⟩, ⟨5, true, false⟩⟩ := Run.exists_of_exec (by decide +kernel)
  obtain ⟨s, hrun, hreturned, hpolled, hhistory, hwaits⟩ := hend
  exact ⟨s, hrun, hreturned, hpolled, by simp [hhistory], rfl, by simp [hhistory], hwaits⟩

end Dispatch
