-- SUMMARY: Callbacks that call operations in the order of the mutexes never deadlock a program of servers and clients.
import MillIo.Endpoint.Contexts
import MillIo.Endpoint.Reentry
import MillIo.Interleaving.LockOrder

/-!
# Deadlocks between servers and clients

The functions lock the mutex of a listener before those of its streams, and no others
together. A callback holds what the functions under it hold, and an operation that it calls
locks more. Whatever order of the mutexes these calls keep to, and there is one between
different servers, connections and clients only if the callbacks keep to it, every thread
can come to its end.
-/

namespace Reentry

open Interleaving

/-- The mutexes that a call of the function may lock, callbacks apart. -/
def Frame.mayLock : Frame → Set Mutex
  | accept server _ => insert (.listener server) (Set.range (Mutex.stream server))
  | handle server id _ _ _ => {.stream server id}
  | clientHandle client _ _ _ => {.client client}
  | startServer server _ => {.listener server}
  | startClient client _ => {.client client}
  | localAddr server _ => {.listener server}
  | sendTo server id _ => {.stream server id}
  | broadcast server _ => Set.range (Mutex.stream server)
  | closeConnection server id _ => {.stream server id}
  | send client _ => {.client client}
  | disconnect client _ => {.client client}

/-! ## The order inside the functions -/

section

variable {α : Type*} [LinearOrder α] {rank : Mutex → α} {f : Frame}

theorem ordered_andThen {k : Data → Data × Frame} (h : ∀ s, (k s).2.mayLock = f.mayLock) :
    (andThen k).Ordered Frame.holds Frame.mayLock rank f := by
  intro s o s' f' hnext
  cases o <;> simp only [reduceCtorEq] at hnext
  have hsame := h s
  rw [Option.some.inj hnext] at hsame
  exact hsame.subset

theorem ordered_either {ok failed : Frame} (hok : ok.mayLock = f.mayLock)
    (hfailed : failed.mayLock = f.mayLock) :
    (either ok failed).Ordered Frame.holds Frame.mayLock rank f := by
  intro s o s' f' hnext
  cases o <;> simp only [reduceCtorEq] at hnext <;> cases hnext
  · exact hok.subset
  · exact hfailed.subset

theorem ordered_read {g : ReadResult → Frame} (h : ∀ r, (g r).mayLock = f.mayLock) :
    (read g).Ordered Frame.holds Frame.mayLock rank f := by
  intro s o s' f' hnext
  cases o <;> simp only [reduceCtorEq] at hnext <;> cases hnext <;> exact (h _).subset

theorem Accept.ordered (hrank : ∀ server id, rank (.listener server) < rank (.stream server id))
    (server : ℕ) (phase : Accept) :
    (phase.instr server).Ordered Frame.holds Frame.mayLock rank (.accept server phase) := by
  cases phase with
  | accepting =>
    intro s o s' f' hnext
    cases o <;> simp only [reduceCtorEq] at hnext <;> cases hnext <;> exact subset_rfl
  | begun isReadable | drawing | inserting id => exact ordered_andThen fun s => rfl
  | counting | configuring | upgrading id | inRegister id => exact ordered_either rfl rfl
  | removing id =>
    refine ordered_andThen fun s => ?_
    split <;> rfl
  | refused | notConfigured | eventLoopGone | notRegistered id | establishing id | connecting id
  | notConnected id | notAccepted => exact ⟨subset_rfl, subset_rfl⟩
  | listening => exact ⟨⟨Set.mem_insert .., by simp⟩, subset_rfl⟩
  | registering id | removed id =>
    refine ⟨⟨Set.mem_insert_of_mem _ (Set.mem_range_self id), ?_⟩, subset_rfl⟩
    simpa using hrank server id
  | backingOut id | registered id | deregistering id | continuing | breaking => exact subset_rfl
  | returned => trivial

theorem Handle.ordered (server id : ℕ) (isReadable isWritable : Bool) (phase : Handle) :
    (phase.instr (.handle server id isReadable isWritable) server id isReadable isWritable).Ordered
      Frame.holds Frame.mayLock rank (.handle server id isReadable isWritable phase) := by
  cases phase with
  | begun | haveHandledRead => exact ordered_andThen fun s => rfl
  | inRead =>
    exact ordered_read (g := fun r => .handle server id isReadable isWritable (haveRead r)) fun r => rfl
  | disconnecting =>
    refine ordered_andThen fun s => ?_
    split <;> rfl
  | removed => exact ordered_either rfl rfl
  | data | notHandled | notRead | notifying | notNotified | closed | writable | notWritten =>
    exact ⟨subset_rfl, subset_rfl⟩
  | reading | lockingStream => exact ⟨⟨Set.mem_singleton _, by simp⟩, subset_rfl⟩
  | haveRead result | deregistering => exact subset_rfl
  | returned => trivial

theorem ClientHandle.ordered (client : ℕ) (isReadable isWritable : Bool) (phase : ClientHandle) :
    (phase.instr (.clientHandle client isReadable isWritable) client isReadable isWritable).Ordered
      Frame.holds Frame.mayLock rank (.clientHandle client isReadable isWritable phase) := by
  cases phase with
  | begun | haveLocked | dropping | haveHandledRead => exact ordered_andThen fun s => rfl
  | inRead =>
    exact ordered_read (g := fun r => .clientHandle client isReadable isWritable (haveRead r))
      fun r => rfl
  | data | notHandled | notRead | closed | notifying | notNotified | writable | notWritten =>
    exact ⟨subset_rfl, subset_rfl⟩
  | reading | disconnecting => exact ⟨⟨Set.mem_singleton _, by simp⟩, subset_rfl⟩
  | haveRead result | noStream | disconnected => exact subset_rfl
  | returned => trivial

theorem ServerStart.ordered (server : ℕ) (phase : ServerStart) :
    (phase.instr server).Ordered Frame.holds Frame.mayLock rank (.startServer server phase) := by
  cases phase with
  | begun | haveServer => exact ordered_andThen fun s => rfl
  | haveEventLoop => exact ⟨⟨Set.mem_singleton _, by simp⟩, subset_rfl⟩
  | registering => exact subset_rfl
  | returned => trivial

theorem ClientStart.ordered (client : ℕ) (phase : ClientStart) :
    (phase.instr client).Ordered Frame.holds Frame.mayLock rank (.startClient client phase) := by
  cases phase with
  | registering =>
    intro s o s' f' hnext
    cases o <;> simp only [reduceCtorEq] at hnext <;> cases hnext <;> exact subset_rfl
  | connecting => exact ⟨subset_rfl, subset_rfl⟩
  | begun => exact ⟨⟨Set.mem_singleton _, by simp⟩, subset_rfl⟩
  | leaving => exact subset_rfl
  | returned => trivial

theorem SendTo.ordered (server id : ℕ) (phase : SendTo) :
    (phase.instr server id).Ordered Frame.holds Frame.mayLock rank (.sendTo server id phase) := by
  cases phase with
  | begun | getting => exact ordered_andThen fun s => rfl
  | found => exact ⟨⟨Set.mem_singleton _, by simp⟩, subset_rfl⟩
  | writing => exact subset_rfl
  | returned => trivial

theorem Broadcast.ordered (server : ℕ) (phase : Broadcast) :
    (phase.instr server).Ordered Frame.holds Frame.mayLock rank (.broadcast server phase) := by
  cases phase with
  | begun => exact ordered_andThen fun s => rfl
  | iterating =>
    intro s o s' f' hnext
    cases o <;> simp only [reduceCtorEq] at hnext
    · cases hnext
      exact subset_rfl
    · split at hnext <;> cases hnext
      exact subset_rfl
  | writing id => exact ordered_either rfl rfl
  | notWritten id => exact ⟨subset_rfl, subset_rfl⟩
  | next id => exact ⟨⟨Set.mem_range_self id, by simp⟩, subset_rfl⟩
  | written id => exact subset_rfl
  | returned => trivial

theorem CloseConnection.ordered (server id : ℕ) (phase : CloseConnection) :
    (phase.instr server id).Ordered Frame.holds Frame.mayLock rank
      (.closeConnection server id phase) := by
  cases phase with
  | begun | haveServer => exact ordered_andThen fun s => rfl
  | removing =>
    refine ordered_andThen fun s => ?_
    split <;> rfl
  | notifying | notNotified | closed => exact ⟨subset_rfl, subset_rfl⟩
  | removed => exact ⟨⟨Set.mem_singleton _, by simp⟩, subset_rfl⟩
  | leaving => exact subset_rfl
  | returned => trivial

theorem ClientDisconnect.ordered (client : ℕ) (phase : ClientDisconnect) :
    (phase.instr client).Ordered Frame.holds Frame.mayLock rank (.disconnect client phase) := by
  cases phase with
  | dropping => exact ordered_andThen fun s => rfl
  | notifying => exact ⟨subset_rfl, subset_rfl⟩
  | begun => exact ⟨⟨Set.mem_singleton _, by simp⟩, subset_rfl⟩
  | dropped => exact subset_rfl
  | returned => trivial

/-- The functions themselves need a listener below its streams. -/
theorem Frame.ordered (hrank : ∀ server id, rank (.listener server) < rank (.stream server id))
    (f : Frame) : f.instr.Ordered Frame.holds Frame.mayLock rank f := by
  cases f with
  | accept server phase => exact phase.ordered hrank server
  | handle server id isReadable isWritable phase => exact phase.ordered server id isReadable isWritable
  | clientHandle client isReadable isWritable phase => exact phase.ordered client isReadable isWritable
  | startServer server phase => exact phase.ordered server
  | startClient client phase => exact phase.ordered client
  | sendTo server id phase => exact phase.ordered server id
  | broadcast server phase => exact phase.ordered server
  | closeConnection server id phase => exact phase.ordered server id
  | disconnect client phase => exact phase.ordered client
  | localAddr server phase | send client phase =>
    cases phase with
    | begun => exact ⟨⟨Set.mem_singleton _, by simp⟩, subset_rfl⟩
    | locked => exact subset_rfl
    | returned => trivial

end

/-! ## The ways out of the functions -/

/-- No more connections come in, and callbacks succeed. -/
@[simp] def Accept.left : Accept → ℕ
  | returned => 0
  | breaking => 1
  | accepting | notAccepted => 2
  | listening => 3
  | begun _ | continuing => 4
  | refused | eventLoopGone | backingOut _ | deregistering _ | connecting _ => 5
  | removed _ | notRegistered _ | establishing _ => 6
  | removing _ | inserting _ => 7
  | notConnected _ | registered _ => 8
  | inRegister _ => 9
  | registering _ => 10
  | upgrading _ => 11
  | drawing => 12
  | notConfigured => 13
  | configuring => 14
  | counting => 15

@[simp] def Handle.left : Handle → ℕ
  | returned => 0
  | notWritten => 1
  | writable => 2
  | haveHandledRead => 3
  | closed => 4
  | notNotified => 5
  | notifying => 6
  | deregistering => 7
  | lockingStream => 8
  | removed => 9
  | disconnecting => 10
  | notRead | notHandled => 11
  | data => 12
  | haveRead _ => 13
  | inRead => 14
  | reading => 15
  | begun => 16

@[simp] def ClientHandle.left : ClientHandle → ℕ
  | returned => 0
  | notWritten => 1
  | writable => 2
  | haveHandledRead => 3
  | noStream | disconnected => 4
  | notNotified => 5
  | notifying => 6
  | dropping => 7
  | disconnecting => 8
  | closed | notRead | notHandled => 9
  | data => 10
  | haveRead _ => 11
  | inRead => 12
  | haveLocked => 13
  | reading => 14
  | begun => 15

@[simp] def ServerStart.left : ServerStart → ℕ
  | returned => 0
  | registering => 1
  | haveEventLoop => 2
  | haveServer => 3
  | begun => 4

@[simp] def ClientStart.left : ClientStart → ℕ
  | returned => 0
  | leaving => 1
  | connecting => 2
  | registering => 3
  | begun => 4

@[simp] def Guarded.left : Guarded → ℕ
  | returned => 0
  | locked => 1
  | begun => 2

@[simp] def SendTo.left : SendTo → ℕ
  | returned => 0
  | writing => 1
  | found => 2
  | getting => 3
  | begun => 4

@[simp] def Broadcast.left : Broadcast → ℕ
  | returned => 0
  | iterating => 1
  | written _ => 2
  | notWritten _ => 3
  | writing _ => 4
  | next _ => 5
  | begun => 6

@[simp] def CloseConnection.left : CloseConnection → ℕ
  | returned => 0
  | leaving => 1
  | closed => 2
  | notNotified => 3
  | notifying => 4
  | removed => 5
  | removing => 6
  | haveServer => 7
  | begun => 8

@[simp] def ClientDisconnect.left : ClientDisconnect → ℕ
  | returned => 0
  | notifying => 1
  | dropped => 2
  | dropping => 3
  | begun => 4

/-- Every step on the shortest way out makes it less. -/
@[simp] def Frame.left : Frame → ℕ
  | accept _ phase => phase.left
  | handle _ _ _ _ phase => phase.left
  | clientHandle _ _ _ phase => phase.left
  | startServer _ phase => phase.left
  | startClient _ phase => phase.left
  | localAddr _ phase => phase.left
  | sendTo _ _ phase => phase.left
  | broadcast _ phase => phase.left
  | closeConnection _ _ phase => phase.left
  | send _ phase => phase.left
  | disconnect _ phase => phase.left

section

variable {f : Frame}

theorem ends_andThen {k : Data → Data × Frame} (h : ∀ s, (k s).2.left < f.left) :
    (andThen k).Ends Frame.left f := by
  intro s
  exact ⟨.go, (k s).1, (k s).2, rfl, h s⟩

theorem ends_either {ok failed : Frame} (hok : ok.left < f.left) :
    (either ok failed).Ends Frame.left f := by
  intro s
  exact ⟨.go, s, ok, rfl, hok⟩

theorem ends_read {g : ReadResult → Frame} (h : (g .bytes).left < f.left) :
    (read g).Ends Frame.left f := by
  intro s
  exact ⟨.go, s, g .bytes, rfl, h⟩

end

theorem Accept.ends (server : ℕ) (phase : Accept) :
    (phase.instr server).Ends Frame.left (.accept server phase) := by
  cases phase with
  | accepting => exact fun s => ⟨.wouldBlock, s, .accept server breaking, rfl, by simp⟩
  | begun isReadable => exact ends_andThen fun s => by cases isReadable <;> simp
  | drawing | inserting id => exact ends_andThen fun s => by simp
  | counting | configuring | upgrading id | inRegister id => exact ends_either (by simp)
  | removing id =>
    refine ends_andThen fun s => ?_
    split <;> simp
  | refused | notConfigured | eventLoopGone | notRegistered id | establishing id | connecting id
  | notConnected id | notAccepted => simp [instr, Instr.Ends]
  | listening | registering id | removed id => simp [instr, Instr.Ends]
  | backingOut id | registered id | deregistering id | continuing | breaking =>
    simp [instr, Instr.Ends]
  | returned => trivial

theorem Handle.ends (server id : ℕ) (isReadable isWritable : Bool) (phase : Handle) :
    (phase.instr (.handle server id isReadable isWritable) server id isReadable isWritable).Ends
      Frame.left (.handle server id isReadable isWritable phase) := by
  cases phase with
  | begun => exact ends_andThen fun s => by cases isReadable <;> simp
  | haveHandledRead => exact ends_andThen fun s => by cases isWritable <;> simp
  | inRead =>
    exact ends_read (g := fun r => .handle server id isReadable isWritable (haveRead r))
      (by simp)
  | haveRead result =>
    cases result <;> simp [instr, Instr.Ends, ReadResult.handle]
  | disconnecting =>
    refine ends_andThen fun s => ?_
    split <;> simp
  | removed => exact ends_either (by simp)
  | data | notHandled | notRead | notifying | notNotified | closed | writable | notWritten =>
    simp [instr, Instr.Ends]
  | reading | lockingStream | deregistering => simp [instr, Instr.Ends]
  | returned => trivial

theorem ClientHandle.ends (client : ℕ) (isReadable isWritable : Bool) (phase : ClientHandle) :
    (phase.instr (.clientHandle client isReadable isWritable) client isReadable isWritable).Ends
      Frame.left (.clientHandle client isReadable isWritable phase) := by
  cases phase with
  | begun => exact ends_andThen fun s => by cases isReadable <;> simp
  | haveHandledRead => exact ends_andThen fun s => by cases isWritable <;> simp
  | haveLocked =>
    refine ends_andThen fun s => ?_
    split <;> simp
  | inRead =>
    exact ends_read (g := fun r => .clientHandle client isReadable isWritable (haveRead r))
      (by simp)
  | haveRead result =>
    cases result <;> simp [instr, Instr.Ends, ReadResult.clientHandle]
  | dropping => exact ends_andThen fun s => by simp
  | data | notHandled | notRead | closed | notifying | notNotified | writable | notWritten =>
    simp [instr, Instr.Ends]
  | reading | noStream | disconnecting | disconnected => simp [instr, Instr.Ends]
  | returned => trivial

theorem ServerStart.ends (server : ℕ) (phase : ServerStart) :
    (phase.instr server).Ends Frame.left (.startServer server phase) := by
  cases phase with
  | begun | haveServer => exact ends_andThen fun s => by simp
  | haveEventLoop | registering => simp [instr, Instr.Ends]
  | returned => trivial

theorem ClientStart.ends (client : ℕ) (phase : ClientStart) :
    (phase.instr client).Ends Frame.left (.startClient client phase) := by
  cases phase with
  | registering => exact fun s => ⟨.failed, s, .startClient client leaving, rfl, by simp⟩
  | begun | connecting | leaving => simp [instr, Instr.Ends]
  | returned => trivial

theorem SendTo.ends (server id : ℕ) (phase : SendTo) :
    (phase.instr server id).Ends Frame.left (.sendTo server id phase) := by
  cases phase with
  | begun | getting =>
    refine ends_andThen fun s => ?_
    split <;> simp
  | found | writing => simp [instr, Instr.Ends]
  | returned => trivial

theorem Broadcast.ends (server : ℕ) (phase : Broadcast) :
    (phase.instr server).Ends Frame.left (.broadcast server phase) := by
  cases phase with
  | begun =>
    refine ends_andThen fun s => ?_
    split <;> simp
  | iterating => exact fun s => ⟨.go, s, .broadcast server returned, rfl, by simp⟩
  | writing id => exact ends_either (by simp)
  | next id | notWritten id | written id => simp [instr, Instr.Ends]
  | returned => trivial

theorem CloseConnection.ends (server id : ℕ) (phase : CloseConnection) :
    (phase.instr server id).Ends Frame.left (.closeConnection server id phase) := by
  cases phase with
  | begun | haveServer | removing =>
    refine ends_andThen fun s => ?_
    split <;> simp
  | removed | notifying | notNotified | closed | leaving =>
    simp [instr, Instr.Ends]
  | returned => trivial

theorem ClientDisconnect.ends (client : ℕ) (phase : ClientDisconnect) :
    (phase.instr client).Ends Frame.left (.disconnect client phase) := by
  cases phase with
  | dropping => exact ends_andThen fun s => by simp
  | begun | dropped | notifying => simp [instr, Instr.Ends]
  | returned => trivial

theorem Frame.ends (f : Frame) : f.instr.Ends Frame.left f := by
  cases f with
  | accept server phase => exact phase.ends server
  | handle server id isReadable isWritable phase => exact phase.ends server id isReadable isWritable
  | clientHandle client isReadable isWritable phase => exact phase.ends client isReadable isWritable
  | startServer server phase => exact phase.ends server
  | startClient client phase => exact phase.ends client
  | sendTo server id phase => exact phase.ends server id
  | broadcast server phase => exact phase.ends server
  | closeConnection server id phase => exact phase.ends server id
  | disconnect client phase => exact phase.ends client
  | localAddr server phase | send client phase =>
    cases phase with
    | begun | locked => simp [instr, Guarded.instr, Instr.Ends]
    | returned => trivial

/-! ## Runs -/

/-- In every run whose callbacks keep to an order of the mutexes, and in which no start of a
    server overlaps with a call through its context, each thread can still come to its end;
    on the way no start has to wait for a reader of its context, or a reader for a start. -/
theorem all_can_return {α : Type*} [LinearOrder α] {rank : Mutex → α}
    (hrank : ∀ server id, rank (.listener server) < rank (.stream server id)) {as : List Step}
    {u : State} (h : Run system.step (fun s a => code.Ascending Frame.mayLock rank s a ∧
      code.CallsApart Frame.Clashes s a) initial as u) :
    ∃ bs v, Run system.step (fun s a => Code.Quiet s a ∧ Code.Apart Frame.Clashes s) u bs v ∧
      v.threads.length = u.threads.length ∧ ∀ t ∈ v.threads, t.frames = [] := by
  have hu : Code.Apart Frame.Clashes u := by
    have hnone : Code.Apart Frame.Clashes initial := fun t ht => nomatch ht
    exact code_inherits.run hnone (fun s a ha => ha.2) h
  obtain ⟨bs, v, hquiet, hlength, hend⟩ := Code.can_finish code_follows (Frame.ordered hrank)
    Frame.ends (h.mono fun s a ha => ha.1)
  refine ⟨bs, v, hquiet.restrict fun cs t a w hr ha _ => ⟨ha, ?_⟩, hlength, hend⟩
  exact code_inherits.run hu (fun s b hb => hb.callsApart) hr

/-! ## Layers -/

/-- One order that callbacks can keep to. -/
def Mutex.layer : Mutex → ℕ
  | listener _ => 0
  | stream _ _ => 1
  | client _ => 2

def Call.layer : Call → ℕ
  | localAddr _ | startServer _ => 0
  | sendTo _ _ | broadcast _ | closeConnection _ _ => 1
  | send _ | disconnect _ | startClient _ => 2

theorem Call.layer_of_mayLock {c : Call} {m : Mutex} (h : m ∈ c.frame.mayLock) : m.layer = c.layer := by
  cases c with
  | broadcast server =>
    obtain ⟨id, rfl⟩ := h
    rfl
  | localAddr | sendTo | closeConnection | send | disconnect | startServer | startClient =>
    cases h
    rfl

/-- Callbacks of listeners call no operation on a listener, callbacks that hold a stream only
    those of clients, and callbacks that hold a client none. -/
def Thread.Layered (t : Thread) : Move Choice Call → Prop
  | .enter c => ∀ m ∈ t.held, m.layer < c.layer
  | _ => True

instance (t : Thread) : (a : Move Choice Call) → Decidable (Thread.Layered t a)
  | .enter c => inferInstanceAs (Decidable (∀ m ∈ t.held, m.layer < c.layer))
  | .go | .returns _ | .choose _ => isTrue trivial

def Layered : State → Step → Prop := Machine.ThreadSteps fun _ t a => Thread.Layered t a

instance : DecidableRel Layered := by unfold Layered; infer_instance

theorem Layered.ascending {s : State} {a : Step} (h : Layered s a) :
    code.Ascending Frame.mayLock Mutex.layer s a := by
  cases a with
  | env e => trivial
  | act i a =>
    rintro t ht c rfl m hm m' hm'
    rw [c.layer_of_mayLock hm']
    exact h t ht m hm

/-- Callbacks keep to the layers, and starts do not overlap with calls through a context. -/
def Layered.Apart (s : State) (a : Step) : Prop := Layered s a ∧ code.CallsApart Frame.Clashes s a

instance : DecidableRel Layered.Apart := fun _ _ => inferInstanceAs (Decidable (_ ∧ _))

/-- While `on_connect` of an accepted connection sends to it, its thread holds the listener and
    the stream; another event of the listener and one of the connection wait. -/
theorem all_can_return_sending : ∃ as u, Run system.step Layered.Apart initial as u ∧
    u.threads.map CallStack.held = [[], [.stream 0 1, .listener 0], [], []] ∧
    ∃ bs v, Run system.step (fun s a => Code.Quiet s a ∧ Code.Apart Frame.Clashes s) u bs v ∧
      v.threads.length = u.threads.length ∧ ∀ t ∈ v.threads, t.frames = [] := by
  obtain ⟨u, hrun, hheld⟩ : ∃ u, Run system.step Layered.Apart initial
      (connecting ++ ([.act 1 (.enter (.sendTo 0 1)), .act 1 (.choose .go), .act 1 (.choose .go),
        .act 1 .go, .env (.accept 0 true), .act 2 (.choose .go), .env (.handle 0 1 true false),
        .act 3 (.choose .go)] : List Step)) u ∧
      u.threads.map CallStack.held = [[], [.stream 0 1, .listener 0], [], []] :=
    Run.exists_of_exec (by decide +kernel)
  have hlayer : ∀ server id, Mutex.layer (.listener server) < Mutex.layer (.stream server id) :=
    fun _ _ => Nat.zero_lt_one
  have hend := all_can_return hlayer (hrun.mono fun s a h => ⟨h.1.ascending, h.2⟩)
  exact ⟨_, u, hrun, hheld, hend⟩

end Reentry
