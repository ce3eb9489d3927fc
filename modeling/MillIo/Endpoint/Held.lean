-- SUMMARY: The mutexes that each frame of `MillIo.Endpoint.Frames` holds, and the ids of connections, which are drawn once.
import MillIo.Endpoint.Frames

/-!
# What frames hold

The mutexes between a frame's locks and unlocks, checked against its instructions. An id
goes from the frame that draws it into the map and from there to the frame that takes it
out; a frame that has parted with its connection can rely on its absence.
-/

namespace Reentry

open Interleaving

/-! ## What the frames hold -/

/-- The guards of the accept routine, the innermost first. That of the listener lives to the
    end of the loop body. -/
@[simp] def Accept.holds (server : ℕ) : Accept → List Mutex
  | begun _ => []
  | listening => []
  | inRegister id => [.stream server id, .listener server]
  | notRegistered id => [.stream server id, .listener server]
  | backingOut id => [.stream server id, .listener server]
  | registered id => [.stream server id, .listener server]
  | deregistering id => [.stream server id, .listener server]
  | returned => []
  | _ => [.listener server]

/-- A connection's stream is locked for the read and for its deregistration only. -/
@[simp] def Handle.holds (server id : ℕ) : Handle → List Mutex
  | inRead => [.stream server id]
  | haveRead _ => [.stream server id]
  | deregistering => [.stream server id]
  | _ => []

/-- The client's stream is locked for the read, and through all of `disconnect`. -/
@[simp] def ClientHandle.holds (client : ℕ) : ClientHandle → List Mutex
  | haveLocked => [.client client]
  | inRead => [.client client]
  | haveRead _ => [.client client]
  | noStream => [.client client]
  | dropping => [.client client]
  | notifying => [.client client]
  | notNotified => [.client client]
  | disconnected => [.client client]
  | _ => []

/-- The guards of a frame, the innermost first. -/
@[simp] def Frame.holds : Frame → List Mutex
  | accept server phase => phase.holds server
  | handle server id _ _ phase => phase.holds server id
  | clientHandle client _ _ phase => phase.holds client
  | startServer server .registering => [.listener server]
  | startClient client .registering => [.client client]
  | startClient client .connecting => [.client client]
  | startClient client .leaving => [.client client]
  | localAddr server .locked => [.listener server]
  | sendTo server id .writing => [.stream server id]
  | broadcast server (.writing id) => [.stream server id]
  | broadcast server (.notWritten id) => [.stream server id]
  | broadcast server (.written id) => [.stream server id]
  | closeConnection server id .notifying => [.stream server id]
  | closeConnection server id .notNotified => [.stream server id]
  | closeConnection server id .closed => [.stream server id]
  | closeConnection server id .leaving => [.stream server id]
  | send client .locked => [.client client]
  | disconnect client .dropping => [.client client]
  | disconnect client .dropped => [.client client]
  | _ => []

section

variable {holds : Frame → List Mutex} {f : Frame}

theorem follows_andThen {k : Data → Data × Frame} (h : ∀ s, holds (k s).2 = holds f) :
    (andThen k).Follows holds f := by
  intro s o s' f' hnext
  cases o <;> simp only [reduceCtorEq] at hnext
  have hsame := h s
  rwa [Option.some.inj hnext] at hsame

theorem follows_either {ok failed : Frame} (hok : holds ok = holds f)
    (hfailed : holds failed = holds f) : (either ok failed).Follows holds f := by
  intro s o s' f' hnext
  cases o <;> simp only [reduceCtorEq] at hnext <;> cases hnext
  · exact hok
  · exact hfailed

theorem follows_read {g : ReadResult → Frame} (h : ∀ r, holds (g r) = holds f) :
    (read g).Follows holds f := by
  intro s o s' f' hnext
  cases o <;> simp only [reduceCtorEq] at hnext <;> cases hnext <;> exact h _

end

/-- Whatever becomes of a connection, its stream is unlocked before the listener is. -/
theorem Accept.follows (server : ℕ) (phase : Accept) :
    (phase.instr server).Follows Frame.holds (.accept server phase) := by
  cases phase with
  | accepting =>
    intro s o s' f' hnext
    cases o <;> simp only [reduceCtorEq] at hnext <;> cases hnext <;> rfl
  | begun isReadable => exact follows_andThen fun s => by cases isReadable <;> rfl
  | counting | configuring | upgrading id | inRegister id => exact follows_either rfl rfl
  | drawing | inserting id => exact follows_andThen fun s => rfl
  | removing id =>
    refine follows_andThen fun s => ?_
    split <;> rfl
  | refused | notConfigured | eventLoopGone | notRegistered id | establishing id | connecting id
  | notConnected id | notAccepted => exact ⟨rfl, rfl⟩
  | listening | registering id | removed id => rfl
  | backingOut id | registered id | deregistering id | continuing | breaking => rfl
  | returned => rfl

theorem Handle.follows (server id : ℕ) (isReadable isWritable : Bool) (phase : Handle) :
    (phase.instr (.handle server id isReadable isWritable) server id isReadable isWritable).Follows
      Frame.holds (.handle server id isReadable isWritable phase) := by
  cases phase with
  | begun => exact follows_andThen fun s => by cases isReadable <;> rfl
  | inRead =>
    exact follows_read (g := fun r => .handle server id isReadable isWritable (haveRead r)) fun r => rfl
  | haveRead result => cases result <;> rfl
  | disconnecting =>
    refine follows_andThen fun s => ?_
    split <;> rfl
  | removed => exact follows_either rfl rfl
  | haveHandledRead => exact follows_andThen fun s => by cases isWritable <;> rfl
  | data | notHandled | notRead | notifying | notNotified | closed | writable | notWritten =>
    exact ⟨rfl, rfl⟩
  | reading | lockingStream | deregistering => rfl
  | returned => rfl

theorem ClientHandle.follows (client : ℕ) (isReadable isWritable : Bool) (phase : ClientHandle) :
    (phase.instr (.clientHandle client isReadable isWritable) client isReadable isWritable).Follows
      Frame.holds (.clientHandle client isReadable isWritable phase) := by
  cases phase with
  | begun => exact follows_andThen fun s => by cases isReadable <;> rfl
  | haveLocked =>
    refine follows_andThen fun s => ?_
    split <;> rfl
  | inRead =>
    exact follows_read (g := fun r => .clientHandle client isReadable isWritable (haveRead r)) fun r => rfl
  | haveRead result => cases result <;> rfl
  | dropping => exact follows_andThen fun s => rfl
  | haveHandledRead => exact follows_andThen fun s => by cases isWritable <;> rfl
  | data | notHandled | notRead | closed | notifying | notNotified | writable | notWritten =>
    exact ⟨rfl, rfl⟩
  | reading | noStream | disconnecting | disconnected => rfl
  | returned => rfl

theorem ServerStart.follows (server : ℕ) (phase : ServerStart) :
    (phase.instr server).Follows Frame.holds (.startServer server phase) := by
  cases phase with
  | begun | haveServer => exact follows_andThen fun s => rfl
  | haveEventLoop | registering | returned => rfl

theorem ClientStart.follows (client : ℕ) (phase : ClientStart) :
    (phase.instr client).Follows Frame.holds (.startClient client phase) := by
  cases phase with
  | registering =>
    intro s o s' f' hnext
    cases o <;> simp only [reduceCtorEq] at hnext <;> cases hnext
    · split <;> rfl
    · rfl
  | connecting => exact ⟨rfl, rfl⟩
  | begun | leaving | returned => rfl

theorem SendTo.follows (server id : ℕ) (phase : SendTo) :
    (phase.instr server id).Follows Frame.holds (.sendTo server id phase) := by
  cases phase with
  | begun | getting =>
    refine follows_andThen fun s => ?_
    split <;> rfl
  | found | writing | returned => rfl

theorem Broadcast.follows (server : ℕ) (phase : Broadcast) :
    (phase.instr server).Follows Frame.holds (.broadcast server phase) := by
  cases phase with
  | begun =>
    refine follows_andThen fun s => ?_
    split <;> rfl
  | iterating =>
    intro s o s' f' hnext
    cases o <;> simp only [reduceCtorEq] at hnext
    · cases hnext
      rfl
    · split at hnext <;> cases hnext
      rfl
  | writing id => exact follows_either rfl rfl
  | notWritten id => exact ⟨rfl, rfl⟩
  | next id | written id | returned => rfl

theorem CloseConnection.follows (server id : ℕ) (phase : CloseConnection) :
    (phase.instr server id).Follows Frame.holds (.closeConnection server id phase) := by
  cases phase with
  | begun | haveServer | removing =>
    refine follows_andThen fun s => ?_
    split <;> rfl
  | notifying | notNotified | closed => exact ⟨rfl, rfl⟩
  | removed | leaving | returned => rfl

theorem ClientDisconnect.follows (client : ℕ) (phase : ClientDisconnect) :
    (phase.instr client).Follows Frame.holds (.disconnect client phase) := by
  cases phase with
  | dropping => exact follows_andThen fun s => rfl
  | notifying => exact ⟨rfl, rfl⟩
  | begun | dropped | returned => rfl

/-- Every function locks and unlocks what `Frame.holds` says. -/
theorem Frame.follows (f : Frame) : f.instr.Follows Frame.holds f := by
  cases f with
  | accept server phase => exact phase.follows server
  | handle server id isReadable isWritable phase => exact phase.follows server id isReadable isWritable
  | clientHandle client isReadable isWritable phase => exact phase.follows client isReadable isWritable
  | startServer server phase => exact phase.follows server
  | startClient client phase => exact phase.follows client
  | localAddr server phase => cases phase <;> rfl
  | sendTo server id phase => exact phase.follows server id
  | broadcast server phase => exact phase.follows server
  | closeConnection server id phase => exact phase.follows server id
  | send client phase => cases phase <;> rfl
  | disconnect client phase => exact phase.follows client

/-- A call begins with no guards of its own. -/
theorem Call.holds_frame (c : Call) : c.frame.holds = [] := by cases c <;> rfl

theorem Input.holds_frame (i : Input) : i.frame.holds = [] := by
  cases i with
  | call c => exact c.holds_frame
  | accept | handle | clientHandle => rfl

theorem code_follows : code.Follows Frame.holds := ⟨Frame.follows, Call.holds_frame, Input.holds_frame⟩

/-! ## The ids of connections -/

/-- Between drawing the id and the entry in the map. -/
def Frame.draws (x : ℕ × ℕ) : Frame → Bool
  | accept server (.upgrading id) => x = (server, id)
  | accept server (.registering id) => x = (server, id)
  | accept server (.inRegister id) => x = (server, id)
  | accept server (.registered id) => x = (server, id)
  | accept server (.inserting id) => x = (server, id)
  | _ => false

/-- Has not registered the connection, or has taken it out of the map to close it. -/
@[simp] def Frame.parts (x : ℕ × ℕ) : Frame → Bool
  | accept server (.notRegistered id) => x = (server, id)
  | accept server (.backingOut id) => x = (server, id)
  | closeConnection server id .removed => x = (server, id)
  | closeConnection server id .notifying => x = (server, id)
  | closeConnection server id .notNotified => x = (server, id)
  | closeConnection server id .closed => x = (server, id)
  | closeConnection server id .leaving => x = (server, id)
  | _ => false

/-- Every id is drawn once. -/
def connection (x : ℕ × ℕ) : Token Data Frame where
  carries := Frame.draws x
  kept s := x ∈ s.connections
  made s := x.2 < s.nextConnId x.1
  gone := Frame.parts x

section

variable {x : ℕ × ℕ} {f f' : Frame} {s s' : Data}

theorem changes_of_passes (h : (connection x).Passes f f') : (connection x).Changes s f s f' :=
  .of_passes id rfl h

/-- Taking another connection out of the map, or this one, leaves it at most once. -/
theorem changes_erase {y : ℕ × ℕ} (hy : y ∈ s.connections) (hf : f.draws x = false)
    (hf' : f'.draws x = false) (hparts : f'.parts x = true → x = y) :
    (connection x).Changes s f { s with connections := s.connections.erase y } f' := by
  refine ⟨id, ?_, fun hgone => .inr ?_⟩
  · have hle : (decide (x ∈ s.connections.erase y)).toNat ≤ (decide (x ∈ s.connections)).toNat :=
      Bool.toNat_le_toNat (Bool.le_iff_imp.2 (by simp))
    simp only [connection, hf, hf', Bool.toNat_false]
    omega
  · obtain rfl := hparts hgone
    simp [connection, hf, hf', hy]

/-- The frame that inserts a connection hands it over to the map. -/
theorem changes_insert {y : ℕ × ℕ} (hf : f.draws x = decide (x = y)) (hf' : f'.draws x = false)
    (hparts : f'.parts x = true → f.parts x = true) :
    (connection x).Changes s f { s with connections := insert y s.connections } f' := by
  refine ⟨id, ?_, fun hgone => .inl (hparts hgone)⟩
  simp only [connection, hf, hf', Bool.toNat_false]
  rcases eq_or_ne x y with rfl | hxy
  · simp
  · simp [hxy]

/-- What is drawn has not been drawn before. -/
theorem changes_draw (server : ℕ) :
    (connection x).Changes s (.accept server .drawing)
      { s with nextConnId := Function.update s.nextConnId server (s.nextConnId server + 1) }
      (.accept server (.upgrading (s.nextConnId server))) := by
  obtain ⟨server', id⟩ := x
  have hmade : id < s.nextConnId server' →
      id < Function.update s.nextConnId server (s.nextConnId server + 1) server' := by
    rcases eq_or_ne server' server with rfl | hserver
    · rw [Function.update_self]
      omega
    · rw [Function.update_of_ne hserver]
      exact fun hlt => hlt
  -- the id that is drawn is made with this step, all others are as they were
  by_cases hx : (server', id) = (server, s.nextConnId server)
  · obtain ⟨rfl, rfl⟩ := Prod.mk.inj hx
    refine ⟨fun h => decide_eq_true (hmade (of_decide_eq_true h)), ?_, fun hgone => by cases hgone⟩
    simp [connection, Frame.draws, Nat.add_comm]
  · refine .of_passes (fun h => decide_eq_true (hmade (of_decide_eq_true h))) rfl ⟨?_, fun h => h⟩
    exact decide_eq_false hx

theorem handles_andThen {k : Data → Data × Frame}
    (h : ∀ s, (connection x).Changes s f (k s).1 (k s).2) : (connection x).Handles f (andThen k) := by
  intro s o s' f' hnext
  cases o <;> simp only [reduceCtorEq] at hnext
  have hchanges := h s
  rwa [Option.some.inj hnext] at hchanges

theorem handles_either {ok failed : Frame} (hok : (connection x).Passes f ok)
    (hfailed : ∀ s, (connection x).Changes s f s failed) : (connection x).Handles f (either ok failed) := by
  intro s o s' f' hnext
  cases o <;> simp only [reduceCtorEq] at hnext <;> cases hnext
  · exact changes_of_passes hok
  · exact hfailed s

theorem handles_read {g : ReadResult → Frame} (h : ∀ r, (connection x).Passes f (g r)) :
    (connection x).Handles f (read g) := by
  intro s o s' f' hnext
  cases o <;> simp only [reduceCtorEq] at hnext <;> cases hnext <;> exact changes_of_passes (h _)

end

/-- The accept routine draws a connection and inserts it, drops it without an event loop,
    or takes it out again. -/
theorem Accept.handles (x : ℕ × ℕ) (server : ℕ) (phase : Accept) :
    (connection x).Handles (.accept server phase) (phase.instr server) := by
  cases phase with
  | accepting =>
    intro s o s' f' hnext
    cases o <;> simp only [reduceCtorEq] at hnext <;> cases hnext <;>
      exact changes_of_passes ⟨rfl, id⟩
  | begun isReadable =>
    exact handles_andThen fun s => changes_of_passes (by cases isReadable <;> exact ⟨rfl, id⟩)
  | counting | configuring =>
    exact handles_either ⟨rfl, id⟩ fun s => changes_of_passes ⟨rfl, id⟩
  | drawing => exact handles_andThen fun s => changes_draw server
  | upgrading n =>
    -- without an event loop the id is dropped
    refine handles_either ⟨rfl, id⟩ fun s => ⟨id, ?_, fun h => by cases h⟩
    simp [connection, Frame.draws]
  | inRegister n =>
    refine handles_either ⟨rfl, id⟩ fun s => ⟨id, ?_, fun h => .inr ?_⟩
    · simp [connection, Frame.draws]
    · obtain rfl : x = (server, n) := of_decide_eq_true h
      simp [connection, Frame.draws, Nat.add_comm]
  | inserting n => exact handles_andThen fun s => changes_insert rfl rfl id
  | removing n =>
    refine handles_andThen fun s => ?_
    split
    · rename_i hmem
      exact changes_erase hmem rfl rfl fun h => by cases h
    · exact changes_of_passes ⟨rfl, id⟩
  | refused | notConfigured | eventLoopGone | notRegistered n | establishing n | connecting n
  | notConnected n | notAccepted => exact ⟨⟨rfl, id⟩, ⟨rfl, id⟩⟩
  | backingOut n => exact ⟨rfl, fun h => by cases h⟩
  | listening | registering n | removed n | registered n | deregistering n | continuing | breaking =>
    exact ⟨rfl, id⟩
  | returned => rfl

theorem Handle.handles (x : ℕ × ℕ) (server n : ℕ) (isReadable isWritable : Bool) (phase : Handle) :
    (connection x).Handles (.handle server n isReadable isWritable phase)
      (phase.instr (.handle server n isReadable isWritable) server n isReadable isWritable) := by
  cases phase with
  | begun | haveHandledRead => exact handles_andThen fun s => changes_of_passes ⟨rfl, id⟩
  | inRead =>
    exact handles_read (g := fun r => .handle server n isReadable isWritable (haveRead r))
      fun r => ⟨rfl, id⟩
  | disconnecting =>
    refine handles_andThen fun s => ?_
    split
    · rename_i hmem
      exact changes_erase hmem rfl rfl fun h => by cases h
    · exact changes_of_passes ⟨rfl, id⟩
  | removed => exact handles_either ⟨rfl, id⟩ fun s => changes_of_passes ⟨rfl, id⟩
  | data | notHandled | notRead | notifying | notNotified | closed | writable | notWritten =>
    exact ⟨⟨rfl, id⟩, ⟨rfl, id⟩⟩
  | reading | haveRead result | lockingStream | deregistering => exact ⟨rfl, id⟩
  | returned => rfl

theorem ClientHandle.handles (x : ℕ × ℕ) (client : ℕ) (isReadable isWritable : Bool)
    (phase : ClientHandle) :
    (connection x).Handles (.clientHandle client isReadable isWritable phase)
      (phase.instr (.clientHandle client isReadable isWritable) client isReadable isWritable) := by
  cases phase with
  | begun | haveLocked | haveHandledRead =>
    exact handles_andThen fun s => changes_of_passes ⟨rfl, id⟩
  | inRead =>
    exact handles_read (g := fun r => .clientHandle client isReadable isWritable (haveRead r))
      fun r => ⟨rfl, id⟩
  | dropping => exact handles_andThen fun s => .of_passes id rfl ⟨rfl, id⟩
  | data | notHandled | notRead | closed | notifying | notNotified | writable | notWritten =>
    exact ⟨⟨rfl, id⟩, ⟨rfl, id⟩⟩
  | reading | haveRead result | noStream | disconnecting | disconnected => exact ⟨rfl, id⟩
  | returned => rfl

theorem ServerStart.handles (x : ℕ × ℕ) (server : ℕ) (phase : ServerStart) :
    (connection x).Handles (.startServer server phase) (phase.instr server) := by
  cases phase with
  | begun | haveServer => exact handles_andThen fun s => .of_passes id rfl ⟨rfl, id⟩
  | haveEventLoop | registering => exact ⟨rfl, id⟩
  | returned => rfl

theorem ClientStart.handles (x : ℕ × ℕ) (client : ℕ) (phase : ClientStart) :
    (connection x).Handles (.startClient client phase) (phase.instr client) := by
  cases phase with
  | registering =>
    intro s o s' f' hnext
    cases o <;> simp only [reduceCtorEq] at hnext <;> cases hnext <;>
      exact changes_of_passes ⟨rfl, id⟩
  | connecting => exact ⟨⟨rfl, id⟩, ⟨rfl, id⟩⟩
  | begun | leaving => exact ⟨rfl, id⟩
  | returned => rfl

theorem SendTo.handles (x : ℕ × ℕ) (server n : ℕ) (phase : SendTo) :
    (connection x).Handles (.sendTo server n phase) (phase.instr server n) := by
  cases phase with
  | begun | getting => exact handles_andThen fun s => changes_of_passes ⟨rfl, id⟩
  | found | writing => exact ⟨rfl, id⟩
  | returned => rfl

theorem Broadcast.handles (x : ℕ × ℕ) (server : ℕ) (phase : Broadcast) :
    (connection x).Handles (.broadcast server phase) (phase.instr server) := by
  cases phase with
  | begun => exact handles_andThen fun s => changes_of_passes ⟨rfl, id⟩
  | iterating =>
    intro s o s' f' hnext
    cases o <;> simp only [reduceCtorEq] at hnext
    · cases hnext
      exact changes_of_passes ⟨rfl, id⟩
    · split at hnext <;> cases hnext
      exact changes_of_passes ⟨rfl, id⟩
  | writing n => exact handles_either ⟨rfl, id⟩ fun s => changes_of_passes ⟨rfl, id⟩
  | notWritten n => exact ⟨⟨rfl, id⟩, ⟨rfl, id⟩⟩
  | next n | written n => exact ⟨rfl, id⟩
  | returned => rfl

theorem CloseConnection.handles (x : ℕ × ℕ) (server n : ℕ) (phase : CloseConnection) :
    (connection x).Handles (.closeConnection server n phase) (phase.instr server n) := by
  cases phase with
  | begun | haveServer =>
    refine handles_andThen fun s => changes_of_passes ?_
    split <;> exact ⟨rfl, id⟩
  | removing =>
    refine handles_andThen fun s => ?_
    split
    · rename_i hmem
      exact changes_erase hmem rfl rfl of_decide_eq_true
    · exact changes_of_passes ⟨rfl, id⟩
  | notifying | notNotified | closed => exact ⟨⟨rfl, id⟩, ⟨rfl, id⟩⟩
  | removed => exact ⟨rfl, id⟩
  | leaving => exact ⟨rfl, fun h => by cases h⟩
  | returned => rfl

theorem ClientDisconnect.handles (x : ℕ × ℕ) (client : ℕ) (phase : ClientDisconnect) :
    (connection x).Handles (.disconnect client phase) (phase.instr client) := by
  cases phase with
  | dropping => exact handles_andThen fun s => .of_passes id rfl ⟨rfl, id⟩
  | notifying => exact ⟨⟨rfl, id⟩, ⟨rfl, id⟩⟩
  | begun | dropped => exact ⟨rfl, id⟩
  | returned => rfl

/-- No function makes a second copy of a connection. -/
theorem Frame.handles (x : ℕ × ℕ) (f : Frame) : (connection x).Handles f f.instr := by
  cases f with
  | accept server phase => exact phase.handles x server
  | handle server n isReadable isWritable phase => exact phase.handles x server n isReadable isWritable
  | clientHandle client isReadable isWritable phase => exact phase.handles x client isReadable isWritable
  | startServer server phase => exact phase.handles x server
  | startClient client phase => exact phase.handles x client
  | localAddr server phase | send client phase =>
    cases phase with
    | begun | locked => exact ⟨rfl, id⟩
    | returned => rfl
  | sendTo server n phase => exact phase.handles x server n
  | broadcast server phase => exact phase.handles x server
  | closeConnection server n phase => exact phase.handles x server n
  | disconnect client phase => exact phase.handles x client

theorem connection_handled (x : ℕ × ℕ) : (connection x).Handled code := by
  have hentry : ∀ c : Call, c.frame.draws x = false ∧ c.frame.parts x = false := by
    intro c
    cases c <;> exact ⟨rfl, rfl⟩
  refine ⟨Frame.handles x, hentry, fun i => ?_⟩
  cases i with
  | call c => exact hentry c
  | accept | handle | clientHandle => exact ⟨rfl, rfl⟩

end Reentry
