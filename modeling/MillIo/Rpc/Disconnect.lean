-- SUMMARY: The `TcpClient` of the RPC client when its connection ends: what later sends return, and what becomes of the requests that are pending.
import MillIo.Rpc.Calls
import MillIo.Rpc.Receive

/-!
# The end of the connection

The stream of a `TcpClient` is there until `disconnect` drops it, the one of the event
handler when the peer has closed, a read fails or `on_data` does, or the one of
`TcpClient`. The first holds the lock of the stream until it returns. `send` without a
stream writes nothing and returns `Ok`, and `on_disconnect` of the RPC client does
nothing.

A thread is a call of the RPC client, a call of `TcpClient::send` or `disconnect`, or one
readable event. How a read ends, and a send that has a stream, is left open, and so is
whether `on_data` fails, which that of the RPC client does not.
-/
namespace TcpClient

open Interleaving Protocol

/-- A send that has returned. -/
structure Sent where
  /-- The connection had ended before. -/
  late : Bool
  bytes : List UInt8
  /-- What the socket has taken of the bytes. -/
  handed : List UInt8
  ok : Bool
  deriving DecidableEq

/-- The stream is there while `rpc.connected` holds. -/
structure Client where
  rpc : RpcClient
  recvBuf : List UInt8
  /-- `disconnect` of the event handler has the lock of the stream. -/
  locked : Bool
  /-- A disconnect has completed. -/
  ended : Bool
  sends : List Sent
  /-- The requests that were waiting for their reply when a disconnect completed. -/
  owed : UInt64 → Bool

inductive Send
  | sending (data : List UInt8)
  | returned (ok : Bool)
  deriving DecidableEq

/-- `TcpClientHandler::handle_read`. -/
inductive Read
  | reading
  /-- In `on_data`, which is going to fail or not. -/
  | receiving (data : List UInt8) (fails : Bool)
  | handling (frames : List Frame) (fails : Bool)
  /-- About to disconnect. -/
  | closing
  /-- Has dropped the stream. -/
  | notifying
  | done
  deriving DecidableEq

/-- `TcpClient::disconnect`. -/
inductive Disconnect
  | closing
  | notifying
  | returned
  deriving DecidableEq

inductive Thread
  | call (t : RpcClient.Call)
  | send (t : Send)
  | read (t : Read)
  | disconnect (t : Disconnect)
  deriving DecidableEq

inductive Input
  | call (request : RpcClient.Request)
  | callOneway (request : RpcClient.Request)
  | setTimeout (millis : UInt64)
  | send (data : List UInt8)
  | readable
  | disconnect
  deriving DecidableEq

/-- What is left open in a step: how a step of a call or a send goes, or how a read
    ends. -/
inductive Choice
  | goes
  | call (o : RpcClient.Choice)
  | data (data : List UInt8) (fails : Bool)
  | eof
  | wouldBlock
  | error
  deriving DecidableEq

namespace Client

/-- `TcpClient::send`: without a stream there is nothing to do. -/
def send (s : Client) (bytes : List UInt8) : RpcClient.Choice → Option Sent
  | .sent =>
    if s.locked then none
    else some ⟨s.ended, bytes, if s.rpc.connected then bytes else [], true⟩
  | .notSent _ written =>
    if s.locked || !s.rpc.connected then none
    else some ⟨s.ended, bytes, bytes.take written, false⟩
  | _ => none

def record (s : Client) (r : Sent) : Client := { s with sends := s.sends ++ [r] }

/-- The stream is dropped. -/
def drop (s : Client) : Client := { s with rpc := { s.rpc with connected := false } }

/-- `RpcClientHandler` has the `on_disconnect` that every handler has. -/
def onDisconnect (s : Client) : Client := s

/-- The request is in `pending` and has not been completed. -/
def waits (s : Client) (id : UInt64) : Bool :=
  (s.rpc.pending id).any fun req => !req.completed

/-- The disconnect completes. -/
def complete (s : Client) : Client :=
  { s.onDisconnect with
    ended := true
    owed := fun id => s.owed id || s.waits id }

end Client

/-- What the call is about to send. -/
def bytesOf : RpcClient.Call → Option (List UInt8)
  | .sending id request _ => some (request.frame id false).encode
  | .oneWay id request => some (request.frame id true).encode
  | _ => none

/-- The id that the call is about to register. -/
def registers : RpcClient.Call → Option UInt64
  | .registering id _ => some id
  | _ => none

/-- A request that is registered is none of those that were waiting before. -/
def settle (owed : UInt64 → Bool) : Option UInt64 → UInt64 → Bool
  | some id => Function.update owed id false
  | none => owed

section

variable (deserialize : List UInt8 → Option RpcError)

def enter (s : Client) : Input → Client × List Thread
  | .call request =>
    let r := RpcClient.enter deserialize s.rpc (.call request)
    ({ s with rpc := r.1 }, r.2.map .call)
  | .callOneway request =>
    let r := RpcClient.enter deserialize s.rpc (.callOneway request)
    ({ s with rpc := r.1 }, r.2.map .call)
  | .setTimeout millis =>
    let r := RpcClient.enter deserialize s.rpc (.setTimeout millis)
    ({ s with rpc := r.1 }, r.2.map .call)
  | .send data => (s, [.send (.sending data)])
  | .readable => (s, [.read .reading])
  | .disconnect => (s, [.disconnect .closing])

def proceedCall (s : Client) (t : RpcClient.Call) (o : RpcClient.Choice) :
    Option (Client × RpcClient.Call) :=
  match bytesOf t with
  | some bytes => (s.send bytes o).bind fun sent =>
    (RpcClient.proceed s.rpc t o).map fun r => ({ s with rpc := r.1 }.record sent, r.2)
  | none => (RpcClient.proceed s.rpc t o).map fun r =>
    ({ s with rpc := r.1, owed := settle s.owed (registers t) }, r.2)

def Send.proceed (s : Client) : Send → Choice → Option (Client × Send)
  | .sending data, .call o => (s.send data o).map fun sent =>
    ({ s with rpc := s.rpc.send sent.handed }.record sent, .returned sent.ok)
  | _, _ => none

/-- How a read of a stream that is there ends. -/
def afterRead : Choice → Option Read
  | .data data fails => some (.receiving data fails)
  | .eof => some .closing
  | .wouldBlock => some .done
  | .error => some .closing
  | _ => none

def Read.proceed (s : Client) : Read → Choice → Option (Client × Read)
  | .reading, o =>
    if s.locked then none
    else if s.rpc.connected then (afterRead o).map fun t => (s, t)
    else some (s, .done)
  | .receiving data fails, .goes =>
    let r := RpcClientHandler.onData s.recvBuf data
    some ({ s with recvBuf := r.2 }, .handling r.1 fails)
  | .handling (f :: frames) fails, .goes =>
    some ({ s with rpc := (RpcClient.enter deserialize s.rpc (.frame f)).1 }, .handling frames fails)
  | .handling [] fails, .goes => some (s, if fails then .closing else .done)
  | .closing, .goes => if s.locked then none else some ({ s.drop with locked := true }, .notifying)
  | .notifying, .goes => some ({ s.complete with locked := false }, .done)
  | _, _ => none

def Disconnect.proceed (s : Client) : Disconnect → Choice → Option (Client × Disconnect)
  | .closing, .goes => if s.locked then none else some (s.drop, .notifying)
  | .notifying, .goes => some (s.complete, .returned)
  | _, _ => none

def proceed (s : Client) : Thread → Choice → Option (Client × Thread)
  | .call t, .call o => (proceedCall s t o).map fun r => (r.1, .call r.2)
  | .call _, _ => none
  | .send t, o => (t.proceed s o).map fun r => (r.1, .send r.2)
  | .read t, o => (t.proceed deserialize s o).map fun r => (r.1, .read r.2)
  | .disconnect t, o => (t.proceed s o).map fun r => (r.1, .disconnect r.2)

def system : Machine Client Thread Input Choice where
  env s input := some (enter deserialize s input)
  act := proceed deserialize

end

abbrev State := Config Client Thread

abbrev Step := Action Input Choice

/-- A client that has just connected. -/
def initial : State := ⟨⟨RpcClient.initial.shared, [], false, false, [], fun _ => false⟩, []⟩

/-! ## What is promised, and when -/

/-- A send that begins after the disconnect returns an error, every send that returns
    `Ok` has handed all its bytes to the socket, and a request that was waiting when the
    connection ended has been completed with an error, if it is still in `pending`. -/
structure Loud (s : State) : Prop where
  refused : ∀ sent ∈ s.shared.sends, sent.late = true → sent.ok = false
  handed : ∀ sent ∈ s.shared.sends, sent.ok = true → sent.handed = sent.bytes
  completed : ∀ id, s.shared.owed id = true → ∀ req, s.shared.rpc.pending id = some req →
    ∃ e, req = ⟨true, some (.error e)⟩

/-- The bytes are sent while the stream is there. A send of no bytes may come between
    the drop of the stream and the end of the disconnect. -/
def Client.Carries (s : Client) (bytes : List UInt8) : Prop :=
  s.rpc.connected = true ∨ (bytes = [] ∧ s.ended = false)

/-- No request in `pending` is waiting for its reply. -/
def Client.Answered (s : Client) : Prop :=
  ∀ id, s.waits id = false

namespace Thread

/-- What the thread is about to send. -/
def bytes : Thread → Option (List UInt8)
  | call t => bytesOf t
  | send (.sending data) => some data
  | _ => none

/-- The thread is about to complete a disconnect. -/
def completes : Thread → Bool
  | read .notifying => true
  | disconnect .notifying => true
  | _ => false

end Thread

/-- A send is made while the stream is there, and a disconnect completes when no request
    in `pending` is waiting for its reply. -/
def Heeded : State → Step → Prop := Machine.ThreadSteps fun s t _ =>
  (∀ bytes ∈ t.bytes, s.shared.Carries bytes) ∧ (t.completes = true → s.shared.Answered)

/-! ## One step -/

/-- The step sends nothing and completes no disconnect. -/
structure Client.Keeps (s s' : Client) : Prop where
  ended : s'.ended = s.ended
  connected : s'.rpc.connected = true → s.rpc.connected = true
  owed : ∀ id, s'.owed id = true → s.owed id = true

inductive Moves (s : Client) (t : Thread) (s' : Client) (t' : Thread) : Prop
  | quiet (hbytes : t.bytes = none) (hcompletes : t.completes = false) (hsends : s'.sends = s.sends)
      (hkeeps : s.Keeps s') (hclosed : t'.completes = true → s'.rpc.connected = false)
  | sends (bytes : List UInt8) (o : RpcClient.Choice) (sent : Sent) (hbytes : t.bytes = some bytes)
      (hcompletes : t.completes = false) (hsend : s.send bytes o = some sent)
      (hsends : s'.sends = s.sends ++ [sent]) (hkeeps : s.Keeps s') (hclosed : t'.completes = false)
  | completes (hbytes : t.bytes = none) (hcompletes : t.completes = true)
      (hsends : s'.sends = s.sends) (hrpc : s'.rpc = s.rpc)
      (howed : ∀ id, s'.owed id = (s.owed id || s.waits id)) (hclosed : t'.completes = false)

section

variable {deserialize : List UInt8 → Option RpcError} {s s' : Client} {t t' : Thread}
  {l l' : List Thread}

theorem connected_send (c : RpcClient) (bytes : List UInt8) : (c.send bytes).connected = c.connected := by
  unfold RpcClient.send
  split <;> rfl

theorem connected_of_acts {c c' : RpcClient} {t t' : RpcClient.Call} (h : RpcClient.Acts c t c' t') :
    c'.connected = c.connected := by
  have hturn : ∀ {i n d d'}, RpcClient.Turn c i n d d' → d.connected = c.connected := by
    intro i n d d' hturn
    cases hturn <;> rfl
  cases h with
  | register | fail => rfl
  | lock i n expired => exact hturn (RpcClient.turn_check c i n expired)
  | wake i n timedOut expired => exact hturn (RpcClient.turn_wakeUp c i n timedOut expired)
  | sent | notSent | sentOneWay | notSentOneWay => exact connected_send c _

theorem connected_handleFrame (deserialize : List UInt8 → Option RpcError) (c : RpcClient)
    (f : Frame) :
    (c.handleFrame deserialize f).connected = c.connected := by
  unfold RpcClient.handleFrame
  split
  · unfold RpcClient.complete
    split <;> rfl
  · rfl

theorem Client.Keeps.refl (s : Client) : s.Keeps s :=
  ⟨rfl, id, fun _ => id⟩

/-- A stream that is gone does not come back. -/
theorem Client.Keeps.gone (h : s.Keeps s') (hgone : s.rpc.connected = false) :
    s'.rpc.connected = false := by
  refine Bool.eq_false_iff.2 fun hopen => ?_
  cases hgone.symm.trans (h.connected hopen)

theorem moves_of_call {t t' : RpcClient.Call} {o : RpcClient.Choice}
    (h : proceedCall s t o = some (s', t')) : Moves s (.call t) s' (.call t') := by
  unfold proceedCall at h
  split at h
  · rename_i bytes hbytes
    obtain ⟨sent, hsend, hrest⟩ := Option.bind_eq_some_iff.1 h
    obtain ⟨⟨rpc, t''⟩, hr, heq⟩ := Option.map_eq_some_iff.1 hrest
    cases heq
    have hacts := RpcClient.acts_of_proceed hr
    refine .sends bytes o sent hbytes rfl hsend rfl ⟨rfl, fun hconnected => ?_, fun _ => id⟩ rfl
    exact (connected_of_acts hacts).symm.trans hconnected
  · rename_i hbytes
    obtain ⟨⟨rpc, t''⟩, hr, heq⟩ := Option.map_eq_some_iff.1 h
    cases heq
    have hacts := RpcClient.acts_of_proceed hr
    refine .quiet hbytes rfl rfl ⟨rfl, fun hconnected => ?_, fun id howed => ?_⟩ nofun
    · exact (connected_of_acts hacts).symm.trans hconnected
    · cases hid : registers t with
      | none => simpa [settle, hid] using howed
      | some i =>
        have hne : id ≠ i := by
          rintro rfl
          simp [settle, hid] at howed
        simpa [settle, hid, Function.update_of_ne hne] using howed

theorem moves_of_send {t t' : Send} {o : Choice} (h : t.proceed s o = some (s', t')) :
    Moves s (.send t) s' (.send t') := by
  unfold Send.proceed at h
  split at h
  · rename_i data o
    obtain ⟨sent, hsend, heq⟩ := Option.map_eq_some_iff.1 h
    cases heq
    refine .sends data o sent rfl rfl hsend rfl ⟨rfl, fun hconnected => ?_, fun _ => id⟩ rfl
    exact (connected_send _ _).symm.trans hconnected
  · cases h

/-- The stream is dropped and the disconnect goes on. -/
theorem keeps_drop (s : Client) : s.Keeps s.drop :=
  ⟨rfl, nofun, fun _ => id⟩

theorem not_completes_afterRead {o : Choice} {t : Read} (h : afterRead o = some t) :
    (Thread.read t).completes = false := by
  cases o <;> cases h <;> rfl

theorem moves_of_read {t t' : Read} {o : Choice} (h : t.proceed deserialize s o = some (s', t')) :
    Moves s (.read t) s' (.read t') := by
  unfold Read.proceed at h
  split at h
  · split at h
    · cases h
    · split at h
      · obtain ⟨t'', hread, heq⟩ := Option.map_eq_some_iff.1 h
        cases heq
        refine .quiet rfl rfl rfl (.refl s) fun hcompletes => ?_
        cases (not_completes_afterRead hread).symm.trans hcompletes
      · cases h
        exact .quiet rfl rfl rfl (.refl s) nofun
  · cases h
    exact .quiet rfl rfl rfl ⟨rfl, id, fun _ => id⟩ nofun
  · rename_i f frames fails
    cases h
    have hconnected := connected_handleFrame deserialize s.rpc f
    exact .quiet rfl rfl rfl ⟨rfl, fun hopen => hconnected.symm.trans hopen, fun _ => id⟩ nofun
  · rename_i fails
    cases h
    refine .quiet rfl rfl rfl (.refl s) ?_
    cases fails <;> nofun
  · split at h
    · cases h
    · cases h
      exact .quiet rfl rfl rfl ⟨rfl, nofun, fun _ => id⟩ fun _ => rfl
  · cases h
    exact .completes rfl rfl rfl rfl (fun _ => rfl) rfl
  · cases h

theorem moves_of_disconnect {t t' : Disconnect} {o : Choice} (h : t.proceed s o = some (s', t')) :
    Moves s (.disconnect t) s' (.disconnect t') := by
  unfold Disconnect.proceed at h
  split at h
  · split at h
    · cases h
    · cases h
      exact .quiet rfl rfl rfl (keeps_drop s) fun _ => rfl
  · cases h
    exact .completes rfl rfl rfl rfl (fun _ => rfl) rfl
  · cases h

theorem moves_of_proceed {o : Choice} (h : proceed deserialize s t o = some (s', t')) :
    Moves s t s' t' := by
  unfold proceed at h
  split at h
  · obtain ⟨⟨x, y⟩, hr, heq⟩ := Option.map_eq_some_iff.1 h
    cases heq
    exact moves_of_call hr
  · cases h
  · obtain ⟨⟨x, y⟩, hr, heq⟩ := Option.map_eq_some_iff.1 h
    cases heq
    exact moves_of_send hr
  · obtain ⟨⟨x, y⟩, hr, heq⟩ := Option.map_eq_some_iff.1 h
    cases heq
    exact moves_of_read hr
  · obtain ⟨⟨x, y⟩, hr, heq⟩ := Option.map_eq_some_iff.1 h
    cases heq
    exact moves_of_disconnect hr

/-! ## The stream stays away -/

/-- There is no stream when a disconnect has completed or is about to. -/
structure Closed (s : State) : Prop where
  ended : s.shared.ended = true → s.shared.rpc.connected = false
  completing : ∀ t ∈ s.threads, t.completes = true → s.shared.rpc.connected = false

theorem Closed.act (h : Closed ⟨s, l ++ t :: l'⟩) (hmoves : Moves s t s' t') :
    Closed ⟨s', l ++ t' :: l'⟩ := by
  have hended : s.ended = true → s.rpc.connected = false := h.ended
  obtain ⟨hown, hothers⟩ := Machine.forall_threads_at.1 h.completing
  have hkept : s.Keeps s' → (t'.completes = true → s'.rpc.connected = false) →
      Closed ⟨s', l ++ t' :: l'⟩ := by
    intro hkeeps hclosed
    exact ⟨fun hover => hkeeps.gone (hended (hkeeps.ended.symm.trans hover)),
      Machine.forall_threads_at.2
        ⟨hclosed, fun u hu hcompletes => hkeeps.gone (hothers u hu hcompletes)⟩⟩
  cases hmoves with
  | quiet _ _ _ hkeeps hclosed => exact hkept hkeeps hclosed
  | sends _ _ _ _ _ _ _ hkeeps hclosed =>
    refine hkept hkeeps fun hcompletes => ?_
    cases hclosed.symm.trans hcompletes
  | completes _ hcompletes _ hrpc _ hclosed =>
    have hgone : s'.rpc.connected = false := (congrArg RpcClient.connected hrpc).trans (hown hcompletes)
    exact ⟨fun _ => hgone, fun _ _ _ => hgone⟩

theorem enter_keeps {e : Input} {r : Client × List Thread} (h : enter deserialize s e = r) :
    s.Keeps r.1 ∧ r.1.sends = s.sends ∧ ∀ t ∈ r.2, t.completes = false := by
  subst h
  have hkeeps : ∀ rpc : RpcClient, rpc.connected = s.rpc.connected → s.Keeps { s with rpc } :=
    fun _ hconnected => ⟨rfl, fun hopen => hconnected.symm.trans hopen, fun _ => id⟩
  cases e with
  | call request => exact ⟨hkeeps _ rfl, rfl, by simp [enter, RpcClient.enter, Thread.completes]⟩
  | callOneway request => exact ⟨hkeeps _ rfl, rfl, by simp [enter, RpcClient.enter, Thread.completes]⟩
  | setTimeout millis => exact ⟨hkeeps _ rfl, rfl, by simp [enter, RpcClient.enter]⟩
  | send | readable | disconnect => exact ⟨.refl s, rfl, by simp [enter, Thread.completes]⟩

theorem closed_of_run {ok : State → Step → Prop} {as : List Step} {s : State}
    (h : Run (system deserialize).step ok initial as s) : Closed s := by
  refine Machine.invariant_of_run (J := fun _ => True) h (fun _ _ _ => trivial)
    ⟨nofun, fun t ht => absurd ht List.not_mem_nil⟩ ?_ ?_
  · intro x ts e y ts' _ hx _ he
    have heq : enter deserialize x e = (y, ts') := Option.some.inj he
    obtain ⟨hkeeps, -, hnew⟩ := enter_keeps heq
    refine ⟨fun hover => hkeeps.gone (hx.ended (hkeeps.ended.symm.trans hover)),
      fun t ht hcompletes => ?_⟩
    rcases List.mem_append.1 ht with ht | ht
    · exact hkeeps.gone (hx.completing t ht hcompletes)
    · cases (hnew t ht).symm.trans hcompletes
  · exact fun x l l' t o y t' _ hx _ hr => hx.act (moves_of_proceed hr)

/-! ## When the loss is loud -/

/-- What is promised of one send. -/
def Sent.Promised (sent : Sent) : Prop :=
  (sent.late = true → sent.ok = false) ∧ (sent.ok = true → sent.handed = sent.bytes)

/-- A send does what is promised if and only if it is made while the stream is there, or
    has nothing to send and comes before the end of the disconnect. -/
theorem send_promised_iff {bytes : List UInt8} {o : RpcClient.Choice} {sent : Sent}
    (hclosed : s.ended = true → s.rpc.connected = false) (h : s.send bytes o = some sent) :
    sent.Promised ↔ s.Carries bytes := by
  unfold Client.send at h
  split at h
  · split at h
    · cases h
    · cases h
      cases hconnected : s.rpc.connected with
      | true =>
        have hlive : s.ended = false := by
          refine Bool.eq_false_iff.2 fun hover => ?_
          cases hconnected.symm.trans (hclosed hover)
        simp [Sent.Promised, Client.Carries, hconnected, hlive]
      | false =>
        show ((s.ended = true → true = false) ∧ (true = true → [] = bytes)) ↔ s.Carries bytes
        constructor
        · rintro ⟨hrefused, hhanded⟩
          exact .inr ⟨(hhanded rfl).symm, Bool.eq_false_iff.2 fun hover => (nomatch hrefused hover)⟩
        · rintro (hopen | ⟨hempty, hlive⟩)
          · cases hconnected.symm.trans hopen
          · exact ⟨fun hover => (nomatch hlive.symm.trans hover), fun _ => hempty.symm⟩
  · split at h
    · cases h
    · rename_i hopen
      cases h
      have hconnected : s.rpc.connected = true := by
        simp only [Bool.or_eq_true, Bool.not_eq_true', not_or, Bool.not_eq_false] at hopen
        exact hopen.2
      simp [Sent.Promised, Client.Carries, hconnected]
  · cases h

/-- No request was waiting when a disconnect completed. -/
def Unowed (s : State) : Prop := ∀ id, s.shared.owed id = false

theorem Unowed.keeps {ts ts' : List Thread} (h : Unowed ⟨s, ts⟩) (hkeeps : s.Keeps s') :
    Unowed ⟨s', ts'⟩ := by
  intro id
  refine Bool.eq_false_iff.2 fun howed => ?_
  cases (h id).symm.trans (hkeeps.owed id howed)

theorem Loud.promised {s : State} (h : Loud s) : ∀ sent ∈ s.shared.sends, sent.Promised :=
  fun sent hsent => ⟨h.refused sent hsent, h.handed sent hsent⟩

theorem Loud.of_unowed {ts : List Thread} (hunowed : Unowed ⟨s, ts⟩)
    (hsends : ∀ sent ∈ s.sends, sent.Promised) : Loud ⟨s, ts⟩ := by
  refine ⟨fun sent hsent => (hsends sent hsent).1, fun sent hsent => (hsends sent hsent).2, ?_⟩
  intro id howed
  cases (hunowed id).symm.trans howed

/-- A disconnect completes none of the requests that wait. -/
theorem completed_iff_answered {ts : List Thread} (hunowed : Unowed ⟨s, ts⟩)
    (hrpc : s'.rpc = s.rpc) (howed : ∀ id, s'.owed id = (s.owed id || s.waits id)) :
    (∀ id, s'.owed id = true → ∀ req, s'.rpc.pending id = some req →
      ∃ e, req = ⟨true, some (.error e)⟩) ↔ s.Answered := by
  have hwaits : ∀ id, s'.owed id = s.waits id := by
    intro id
    rw [howed id, show s.owed id = false from hunowed id, Bool.false_or]
  constructor
  · intro hcompleted id
    refine Bool.eq_false_iff.2 fun hwait => ?_
    obtain ⟨req, hreq, hopen⟩ := (Option.any_eq_true _ _).1 hwait
    obtain ⟨e, rfl⟩ := hcompleted id ((hwaits id).trans hwait) req (hrpc ▸ hreq)
    cases hopen
  · intro hanswered id howed'
    cases (hanswered id).symm.trans ((hwaits id).symm.trans howed')

theorem Loud.act_iff (h : Loud ⟨s, l ++ t :: l'⟩) (hunowed : Unowed ⟨s, l ++ t :: l'⟩)
    (hclosed : Closed ⟨s, l ++ t :: l'⟩) (hmoves : Moves s t s' t') :
    (Loud ⟨s', l ++ t' :: l'⟩ ↔
      (∀ bytes ∈ t.bytes, s.Carries bytes) ∧ (t.completes = true → s.Answered)) ∧
    (Loud ⟨s', l ++ t' :: l'⟩ → Unowed ⟨s', l ++ t' :: l'⟩) := by
  have hsent : ∀ sent ∈ s.sends, sent.Promised := h.promised
  cases hmoves with
  | quiet hbytes hcompletes hsends hkeeps _ =>
    have hunowed' : Unowed ⟨s', l ++ t' :: l'⟩ := hunowed.keeps hkeeps
    simp only [hbytes, hcompletes]
    exact ⟨⟨fun _ => ⟨nofun, nofun⟩, fun _ => .of_unowed hunowed' (hsends ▸ hsent)⟩,
      fun _ => hunowed'⟩
  | sends bytes o sent hbytes hcompletes hsend hsends hkeeps _ =>
    have hunowed' : Unowed ⟨s', l ++ t' :: l'⟩ := hunowed.keeps hkeeps
    simp only [hbytes, hcompletes, Option.mem_some_iff, forall_eq', Bool.false_eq_true,
      false_implies, and_true, ← send_promised_iff hclosed.ended hsend]
    refine ⟨⟨fun hloud => ?_, fun hpromised => ?_⟩, fun _ => hunowed'⟩
    · exact hloud.promised sent (by simp [hsends])
    · refine .of_unowed hunowed' fun sent' hsent' => ?_
      rcases List.mem_append.1 (hsends ▸ hsent' : sent' ∈ s.sends ++ [sent]) with hold | hnew
      · exact hsent sent' hold
      · exact List.mem_singleton.1 hnew ▸ hpromised
  | completes hbytes hcompletes hsends hrpc howed _ =>
    have hiff := completed_iff_answered hunowed hrpc howed
    simp only [hbytes, hcompletes, true_implies, ← hiff]
    refine ⟨⟨fun hloud => ⟨nofun, hloud.completed⟩, fun hcompleted => ?_⟩, fun hloud id => ?_⟩
    · have hsent' : ∀ sent ∈ s'.sends, sent.Promised := hsends ▸ hsent
      exact ⟨fun sent hmem => (hsent' sent hmem).1, fun sent hmem => (hsent' sent hmem).2,
        hcompleted.2⟩
    · have hanswered : s.Answered := hiff.1 hloud.completed
      rw [show s'.owed id = (s.owed id || s.waits id) from howed id, hanswered id,
        show s.owed id = false from hunowed id, Bool.or_false]

/-- In every run: the loss of the connection is loud at all times if and only if every
    send is made while the stream is there and no disconnect completes while a request
    is waiting for its reply. -/
theorem loud_iff_heeded {as : List Step} {s : State}
    (h : Run (system deserialize).step Unrestricted initial as s) :
    (∀ bs cs u, bs ++ cs = as → Run (system deserialize).step Unrestricted initial bs u → Loud u) ↔
      Run (system deserialize).step Heeded initial as s := by
  refine h.always_iff_along (I := Unowed) ⟨nofun, nofun, nofun⟩ (fun _ => rfl)
    fun bs u a v hu hloud hunowed hs => ?_
  obtain ⟨x, ts⟩ := u
  rcases Machine.step_cases hs with ⟨e, r, rfl, hr, rfl⟩ | ⟨o, t, ⟨y, t'⟩, l, l', rfl, hts, hr, rfl⟩
  · have heq : enter deserialize x e = r := Option.some.inj hr
    obtain ⟨hkeeps, hsends, -⟩ := enter_keeps heq
    have hunowed' : Unowed ⟨r.1, ts ++ r.2⟩ := hunowed.keeps hkeeps
    refine ⟨⟨fun _ => trivial, fun _ => .of_unowed hunowed' ?_⟩, fun _ => hunowed'⟩
    exact hsends ▸ hloud.promised
  · obtain rfl : ts = l ++ t :: l' := hts
    have hact := hloud.act_iff hunowed (closed_of_run hu) (moves_of_proceed hr)
    unfold Heeded
    rw [Machine.threadSteps_at]
    exact hact

end

/-- A send, and then the client disconnects. -/
def sentAndDisconnected : List Step :=
  [.env (.send [1, 2]), .act 0 (.call .sent), .env .disconnect, .act 1 .goes, .act 1 .goes]

theorem loud_iff_heeded_sent : ∃ s,
    Run (system fun _ => none).step Unrestricted initial sentAndDisconnected s ∧
      s.shared.sends = [⟨false, [1, 2], [1, 2], true⟩] ∧ s.shared.ended = true ∧
      ((∀ bs cs u, bs ++ cs = sentAndDisconnected →
          Run (system fun _ => none).step Unrestricted initial bs u → Loud u) ↔
        Run (system fun _ => none).step Heeded initial sentAndDisconnected s) := by
  have hend : ∃ s, Run (system fun _ => none).step Unrestricted initial sentAndDisconnected s ∧
      s.shared.sends = [⟨false, [1, 2], [1, 2], true⟩] ∧ s.shared.ended = true :=
    Run.exists_of_exec (by decide +kernel)
  obtain ⟨s, hrun, hsends, hended⟩ := hend
  exact ⟨s, hrun, hsends, hended, loud_iff_heeded hrun⟩

/-- A call waits for its reply when the peer closes the connection. It still waits after
    the disconnect, and `TcpClient::send` and a one-way call return `Ok` and write
    nothing. -/
theorem loss_silent : ∃ s, Run (system fun _ => none).step Unrestricted initial
      [.env (.call ⟨0, 1, [7]⟩), .act 0 (.call .go), .act 0 (.call .sent),
        .act 0 (.call (.lock false)), .env .readable, .act 1 .eof, .act 1 .goes, .act 1 .goes,
        .env (.callOneway ⟨0, 2, [8]⟩), .act 2 (.call .sent), .env (.send [1, 2]),
        .act 3 (.call .sent)] s ∧
    s.threads = [.call (.waiting 1 0), .read .done, .call (.oneWayReturned 2 (.ok ())),
      .send (.returned true)] ∧
    s.shared.rpc.pending 1 = some ⟨false, none⟩ ∧
    s.shared.rpc.sent = (Frame.request 1 0 1 [7] false).encode ∧
    ¬ Loud s := by
  have hend : ∃ s, Run (system fun _ => none).step Unrestricted initial
        [.env (.call ⟨0, 1, [7]⟩), .act 0 (.call .go), .act 0 (.call .sent),
          .act 0 (.call (.lock false)), .env .readable, .act 1 .eof, .act 1 .goes, .act 1 .goes,
          .env (.callOneway ⟨0, 2, [8]⟩), .act 2 (.call .sent), .env (.send [1, 2]),
          .act 3 (.call .sent)] s ∧
      (s.threads = [.call (.waiting 1 0), .read .done, .call (.oneWayReturned 2 (.ok ())),
          .send (.returned true)] ∧
        s.shared.rpc.pending 1 = some ⟨false, none⟩ ∧
        s.shared.rpc.sent = (Frame.request 1 0 1 [7] false).encode) ∧
      s.shared.owed 1 = true :=
    Run.exists_of_exec (by decide +kernel)
  obtain ⟨s, hrun, ⟨hthreads, hpending, hwritten⟩, howed⟩ := hend
  refine ⟨s, hrun, hthreads, hpending, hwritten, fun hloud => ?_⟩
  obtain ⟨e, hreq⟩ := hloud.completed 1 howed _ hpending
  cases hreq

end TcpClient
