-- SUMMARY: The callbacks of a TCP client when its connection ends: `on_disconnect` once and nothing after it, and under which conditions.
import MillIo.Interleaving.Machine
import MillIo.Server.Lifecycle

/-!
# The end of a client's connection

A thread is one event of the client's handler, or one call of `TcpClient::disconnect` on
some clone. A call from inside a callback goes as one of another thread does while the
callback runs. Both take the lock of the stream to drop it, and the handler keeps the
lock until `on_disconnect` has returned. What the socket and the callbacks return is
left open.
-/

namespace Reports

open Interleaving
open Server (NetworkError)

/-- The calls of the handler, at their start. -/
inductive Callback
  | onData
  | onWritable
  | onDisconnect
  | connectionClosed
  | onError (e : NetworkError)
  deriving DecidableEq

/-- The stream is there or not, and its lock is taken or not. -/
structure Client where
  stream : Bool
  locked : Bool
  calls : List Callback
  deriving DecidableEq

namespace Client

def call (s : Client) (callback : Callback) : Client := { s with calls := s.calls ++ [callback] }

def handlerError (s : Client) (text : String) : Client := s.call (.onError (.handlerError text))

def unlock (s : Client) : Client := { s with locked := false }

end Client

/-- `TcpClientHandler::handle_event` by what it has still to do. `disconnected` says that
    it has been through `disconnect`. -/
inductive Handle
  | begun
  | reading
  /-- Has read bytes. -/
  | data
  | inOnData
  /-- Has read the end of the stream. -/
  | ended
  /-- In `disconnect`, about to take the lock and to drop the stream. -/
  | closing
  | notifying
  | inOnDisconnect
  | writable (disconnected : Bool)
  | inOnWritable (disconnected : Bool)
  | returned (disconnected : Bool)
  deriving DecidableEq

/-- `TcpClient::disconnect` by what it has still to do. -/
inductive Disconnect
  | closing
  | notifying
  | inOnDisconnect
  | returned (ok : Bool)
  deriving DecidableEq

inductive Thread
  | handle (isReadable isWritable : Bool) (phase : Handle)
  | disconnect (phase : Disconnect)
  deriving DecidableEq

/-- What is left open in the steps of a thread. -/
inductive Choice
  /-- The operation is done, or the callback returns `Ok`. -/
  | go
  | bytes
  | endOfStream
  | wouldBlock
  | failed (e : String)
  deriving DecidableEq

/-- The rest of `handle_event` after `handle_read`. -/
def Handle.afterRead (isWritable disconnected : Bool) : Handle :=
  if isWritable then .writable disconnected else .returned disconnected

/-- `stream.read` and the `match` on its result. -/
def Handle.read (s : Client) (isWritable : Bool) : Choice → Option (Client × Handle)
  | .bytes => some (s, .data)
  | .endOfStream => some (s, .ended)
  | .wouldBlock => some (s, afterRead isWritable false)
  | .failed e => some (s.call (.onError (.io e)), .closing)
  | .go => none

def Handle.proceed (s : Client) (isReadable isWritable : Bool) :
    Handle → Choice → Option (Client × Handle)
  | .begun, .go => some (s, if isReadable then .reading else afterRead isWritable false)
  | .reading, o =>
    if s.locked then none
    else if s.stream then read s isWritable o
    else some (s, afterRead isWritable false)
  | .data, .go => some (s.call .onData, .inOnData)
  | .inOnData, .go => some (s, afterRead isWritable false)
  | .inOnData, .failed e => some (s.handlerError s!"on_data: {e}", .closing)
  | .ended, .go => some (s.call .connectionClosed, .closing)
  | .closing, .go =>
    if s.locked then none else some ({ s with stream := false, locked := true }, .notifying)
  | .notifying, .go => some (s.call .onDisconnect, .inOnDisconnect)
  | .inOnDisconnect, .go => some (s.unlock, afterRead isWritable true)
  | .inOnDisconnect, .failed e =>
    some ((s.handlerError s!"on_disconnect: {e}").unlock, afterRead isWritable true)
  | .writable disconnected, .go => some (s.call .onWritable, .inOnWritable disconnected)
  | .inOnWritable disconnected, .go => some (s, .returned disconnected)
  | .inOnWritable disconnected, .failed e =>
    some (s.handlerError s!"on_writable: {e}", .returned disconnected)
  | _, _ => none

def Disconnect.proceed (s : Client) : Disconnect → Choice → Option (Client × Disconnect)
  | .closing, .go => if s.locked then none else some ({ s with stream := false }, .notifying)
  | .notifying, .go => some (s.call .onDisconnect, .inOnDisconnect)
  | .inOnDisconnect, .go => some (s, .returned true)
  | .inOnDisconnect, .failed _ => some (s, .returned false)
  | _, _ => none

inductive Input
  | event (isReadable isWritable : Bool)
  | disconnect
  deriving DecidableEq

def Input.thread : Input → Thread
  | .event isReadable isWritable => .handle isReadable isWritable .begun
  | .disconnect => .disconnect .closing

def system : Machine Client Thread Input Choice where
  env s input := some (s, [input.thread])
  act s
    | .handle isReadable isWritable t, o =>
      (t.proceed s isReadable isWritable o).map fun r => (r.1, .handle isReadable isWritable r.2)
    | .disconnect t, o => (t.proceed s o).map fun r => (r.1, .disconnect r.2)

abbrev State := Config Client Thread

abbrev Step := Action Input Choice

/-- A client that has just been started. -/
def initial : State := ⟨⟨true, false, []⟩, []⟩

/-! ## What is promised, and when -/

/-- The thread has dropped the stream and is about to call `on_disconnect`. -/
def Thread.owes : Thread → ℕ
  | .handle _ _ .notifying => 1
  | .disconnect .notifying => 1
  | _ => 0

def StartsWork : Callback → Bool
  | .onData => true
  | .onWritable => true
  | _ => false

/-- The call is neither `on_data` nor `on_writable`, or comes before `on_disconnect`. -/
def NotAfterDisconnect (before : List Callback) (callback : Callback) : Prop :=
  StartsWork callback = true → .onDisconnect ∉ before

/-- `on_disconnect` is called once when the connection has ended and every disconnect has
    come to its callback, and never twice, and it comes last. -/
structure ReportedOnce (s : State) : Prop where
  once : s.shared.calls.count .onDisconnect ≤ 1
  ended : s.shared.stream = false → (∀ t ∈ s.threads, t.owes = 0) →
    s.shared.calls.count .onDisconnect = 1
  last : Throughout NotAfterDisconnect s.shared.calls

/-- The event is going to call `on_data` or `on_writable`. -/
def Handle.committed (isWritable : Bool) : Handle → Bool
  | .begun => false
  | .data => true
  | .writable _ => true
  | .inOnWritable _ => false
  | .returned _ => false
  | _ => isWritable

def Thread.committed : Thread → Bool
  | .handle _ isWritable t => t.committed isWritable
  | .disconnect _ => false

/-- The stream is still there for a disconnect that is about to drop it; when one calls
    `on_disconnect`, no thread, itself included, is going to call `on_data` or
    `on_writable`; and after that no event begins that reports room to write. -/
def Thread.Orderly (s : State) : Thread → Choice → Prop
  | .handle _ isWritable .begun, _ => isWritable = true → .onDisconnect ∉ s.shared.calls
  | .handle _ _ .closing, _ => s.shared.stream = true
  | .handle _ _ .notifying, _ => ∀ t ∈ s.threads, t.committed = false
  | .disconnect .closing, _ => s.shared.stream = true
  | .disconnect .notifying, _ => ∀ t ∈ s.threads, t.committed = false
  | _, _ => True

instance (s : State) (t : Thread) (o : Choice) : Decidable (t.Orderly s o) := by
  unfold Thread.Orderly
  split <;> infer_instance

def Orderly : State → Step → Prop := Machine.ThreadSteps fun s t o => t.Orderly s o

instance : DecidableRel Orderly := by unfold Orderly; infer_instance

/-! ## What a step can do -/

/-- An orderly step of a thread among the threads `ts`. -/
inductive Moves (s : Client) (ts : List Thread) (t : Thread) (s' : Client) (t' : Thread) : Prop
  /-- No callback is called but `on_event` and `on_error`. -/
  | quiet (report : List Callback) (hcalls : s'.calls = s.calls ++ report)
      (hreport : ∀ callback ∈ report, callback ≠ .onDisconnect ∧ StartsWork callback = false)
      (hstream : s'.stream = s.stream) (howes : t'.owes = t.owes)
      (hcommitted : t'.committed = true → t.committed = true)
  | works (callback : Callback) (hcalls : s'.calls = s.calls ++ [callback])
      (hwork : StartsWork callback = true) (hstream : s'.stream = s.stream)
      (howes : t'.owes = t.owes) (hcommitted : t.committed = true)
  | commits (hsame : s' = s) (howes : t'.owes = t.owes)
      (hbefore : s.stream = true ∨ .onDisconnect ∉ s.calls)
  | drops (hcalls : s'.calls = s.calls) (hstream : s.stream = true) (hstream' : s'.stream = false)
      (howes : t.owes = 0) (howes' : t'.owes = 1)
      (hcommitted : t'.committed = true → t.committed = true)
  | reports (hcalls : s'.calls = s.calls ++ [.onDisconnect]) (hstream : s'.stream = s.stream)
      (howes : t.owes = 1) (howes' : t'.owes = 0) (hquiet : ∀ t ∈ ts, t.committed = false)
      (hcommitted : t'.committed = true → t.committed = true)

section

variable {s s' : Client} {ts : List Thread} {o : Choice} {isReadable isWritable : Bool}

theorem committed_of_afterRead {disconnected : Bool}
    (h : (Thread.handle isReadable isWritable (.afterRead isWritable disconnected)).committed = true) :
    isWritable = true := by
  cases isWritable with
  | true => rfl
  | false => cases h

theorem owes_afterRead (isReadable isWritable disconnected : Bool) :
    (Thread.handle isReadable isWritable (.afterRead isWritable disconnected)).owes = 0 := by
  cases isWritable <;> rfl

/-- The rule for a step that calls nothing. -/
theorem Moves.of_calls_eq {t t' : Thread} (hcalls : s'.calls = s.calls)
    (hstream : s'.stream = s.stream) (howes : t'.owes = t.owes)
    (hcommitted : t'.committed = true → t.committed = true) : Moves s ts t s' t' :=
  .quiet [] (by rw [hcalls, List.append_nil]) nofun hstream howes hcommitted

/-- The rule for a step that calls `on_event` or `on_error`. -/
theorem Moves.of_report {t t' : Thread} {callback : Callback} (hcalls : s'.calls = s.calls ++ [callback])
    (hdisconnect : callback ≠ .onDisconnect) (hwork : StartsWork callback = false)
    (hstream : s'.stream = s.stream) (howes : t'.owes = t.owes)
    (hcommitted : t'.committed = true → t.committed = true) : Moves s ts t s' t' :=
  .quiet [callback] hcalls (List.forall_mem_singleton.2 ⟨hdisconnect, hwork⟩) hstream howes hcommitted

theorem Handle.moves_read {t' : Handle} (hstream : s.stream = true)
    (h : Handle.read s isWritable o = some (s', t')) :
    Moves s ts (.handle isReadable isWritable .reading) s' (.handle isReadable isWritable t') := by
  unfold Handle.read at h
  split at h
  · cases h
    exact .commits rfl rfl (.inl hstream)
  · cases h
    exact .of_calls_eq rfl rfl rfl id
  · obtain ⟨rfl, rfl⟩ := Prod.mk.inj (Option.some.inj h)
    exact .of_calls_eq rfl rfl (owes_afterRead ..) committed_of_afterRead
  · cases h
    exact .of_report rfl (by simp) rfl rfl rfl id
  · cases h

theorem Handle.moves_proceed {t t' : Handle}
    (horderly : (Thread.handle isReadable isWritable t).Orderly ⟨s, ts⟩ o)
    (h : t.proceed s isReadable isWritable o = some (s', t')) :
    Moves s ts (.handle isReadable isWritable t) s' (.handle isReadable isWritable t') := by
  unfold Handle.proceed at h
  split at h
  · obtain ⟨rfl, rfl⟩ := Prod.mk.inj (Option.some.inj h)
    have howes : (Thread.handle isReadable isWritable
        (if isReadable then .reading else .afterRead isWritable false)).owes = 0 := by
      cases isReadable <;> cases isWritable <;> rfl
    cases hwritable : isWritable with
    | true => exact .commits rfl (hwritable ▸ howes) (.inr (horderly hwritable))
    | false =>
      refine .of_calls_eq rfl rfl (hwritable ▸ howes) ?_
      cases isReadable <;> exact id
  · split at h
    · cases h
    · split at h
      · rename_i hstream
        exact Handle.moves_read hstream h
      · obtain ⟨rfl, rfl⟩ := Prod.mk.inj (Option.some.inj h)
        exact .of_calls_eq rfl rfl (owes_afterRead ..) committed_of_afterRead
  · cases h
    exact .works .onData rfl rfl rfl rfl rfl
  · obtain ⟨rfl, rfl⟩ := Prod.mk.inj (Option.some.inj h)
    exact .of_calls_eq rfl rfl (owes_afterRead ..) committed_of_afterRead
  · cases h
    exact .of_report rfl (by simp) rfl rfl rfl id
  · cases h
    exact .of_report rfl (by simp) rfl rfl rfl id
  · split at h
    · cases h
    · cases h
      exact .drops rfl horderly rfl rfl rfl id
  · cases h
    exact .reports rfl rfl rfl rfl horderly id
  · obtain ⟨rfl, rfl⟩ := Prod.mk.inj (Option.some.inj h)
    exact .of_calls_eq rfl rfl (owes_afterRead ..) committed_of_afterRead
  · obtain ⟨rfl, rfl⟩ := Prod.mk.inj (Option.some.inj h)
    exact .of_report rfl (by simp) rfl rfl (owes_afterRead ..) committed_of_afterRead
  · cases h
    exact .works .onWritable rfl rfl rfl rfl rfl
  · cases h
    exact .of_calls_eq rfl rfl rfl id
  · cases h
    exact .of_report rfl (by simp) rfl rfl rfl id
  · cases h

theorem Disconnect.moves_proceed {t t' : Disconnect}
    (horderly : (Thread.disconnect t).Orderly ⟨s, ts⟩ o) (h : t.proceed s o = some (s', t')) :
    Moves s ts (.disconnect t) s' (.disconnect t') := by
  unfold Disconnect.proceed at h
  split at h
  · split at h
    · cases h
    · cases h
      exact .drops rfl horderly rfl rfl rfl id
  · cases h
    exact .reports rfl rfl rfl rfl horderly id
  · cases h
    exact .of_calls_eq rfl rfl rfl id
  · cases h
    exact .of_calls_eq rfl rfl rfl id
  · cases h

theorem moves_act {t t' : Thread} (horderly : t.Orderly ⟨s, ts⟩ o)
    (h : system.act s t o = some (s', t')) : Moves s ts t s' t' := by
  cases t with
  | handle isReadable isWritable t =>
    obtain ⟨⟨s'', t''⟩, hproceed, heq⟩ := Option.map_eq_some_iff.1 h
    cases heq
    exact Handle.moves_proceed horderly hproceed
  | disconnect t =>
    obtain ⟨⟨s'', t''⟩, hproceed, heq⟩ := Option.map_eq_some_iff.1 h
    cases heq
    exact Disconnect.moves_proceed horderly hproceed

end

/-! ## Whole runs -/

/-- The stream is dropped once, and whoever drops it calls `on_disconnect` or is about to;
    then nobody is going to call `on_data` or `on_writable`. -/
structure Ends (s : State) : Prop where
  balance : s.shared.calls.count .onDisconnect + Machine.total Thread.owes s.threads =
    if s.shared.stream then 0 else 1
  quiet : .onDisconnect ∈ s.shared.calls → ∀ t ∈ s.threads, t.committed = false
  last : Throughout NotAfterDisconnect s.shared.calls

section

variable {s s' : Client} {t t' : Thread} {l l' : List Thread}

/-- The history grows by calls that are not `on_data` or `on_writable`. -/
theorem throughout_report {calls report : List Callback} (h : Throughout NotAfterDisconnect calls)
    (hreport : ∀ callback ∈ report, StartsWork callback = false) :
    Throughout NotAfterDisconnect (calls ++ report) := by
  induction report using List.reverseRecOn with
  | nil => rwa [List.append_nil]
  | append_singleton report callback ih =>
    obtain ⟨hreport, hlast⟩ := List.forall_mem_append.1 hreport
    rw [← List.append_assoc]
    refine (ih hreport).concat fun hwork => ?_
    rw [hlast callback (List.mem_singleton_self _)] at hwork
    cases hwork

theorem Ends.act (h : Ends ⟨s, l ++ t :: l'⟩) (hmoves : Moves s (l ++ t :: l') t s' t') :
    Ends ⟨s', l ++ t' :: l'⟩ := by
  obtain ⟨hbalance, hquiet, hlast⟩ := h
  simp only [Machine.total_append, Machine.total_cons] at hbalance
  -- a thread that commits itself to nothing new keeps the quiet
  have hkeep : ∀ ts, ts = l ++ t :: l' → (t'.committed = true → t.committed = true) →
      (∀ t'' ∈ ts, t''.committed = false) → ∀ t'' ∈ l ++ t' :: l', t''.committed = false := by
    rintro _ rfl hcommitted hall
    obtain ⟨hown, hrest⟩ := Machine.forall_threads_at.1 hall
    refine Machine.forall_threads_at.2 ⟨?_, hrest⟩
    by_contra ht'
    rw [hcommitted (eq_true_of_ne_false ht')] at hown
    cases hown
  cases hmoves with
  | quiet report hcalls hreport hstream howes hcommitted =>
    have hcount : report.count .onDisconnect = 0 :=
      List.count_eq_zero.2 fun hmem => (hreport _ hmem).1 rfl
    refine ⟨?_, fun hmem => ?_, ?_⟩
    · simp only [Machine.total_append, Machine.total_cons, hcalls, List.count_append, hcount, hstream]
      omega
    · rw [hcalls, List.mem_append] at hmem
      exact hkeep _ rfl hcommitted (hquiet (hmem.resolve_right fun h => (hreport _ h).1 rfl))
    · rw [hcalls]
      exact throughout_report hlast fun callback hmem => (hreport callback hmem).2
  | works callback hcalls hwork hstream howes hcommitted =>
    -- the thread has been committed, so `on_disconnect` has not been called
    have hbefore : .onDisconnect ∉ s.calls := by
      intro hmem
      have hnot := (Machine.forall_threads_at.1 (hquiet hmem)).1
      rw [hcommitted] at hnot
      cases hnot
    have hne : callback ≠ .onDisconnect := by
      rintro rfl
      cases hwork
    refine ⟨?_, fun hmem => ?_, ?_⟩
    · simp only [Machine.total_append, Machine.total_cons, hcalls, List.count_append,
        List.count_singleton, hstream]
      simp only [beq_iff_eq, hne, if_false]
      omega
    · rw [hcalls, List.mem_append, List.mem_singleton] at hmem
      exact absurd (hmem.resolve_right hne.symm) hbefore
    · rw [hcalls]
      exact hlast.concat fun _ => hbefore
  | commits hsame howes hbefore =>
    subst hsame
    have hnone : .onDisconnect ∉ s'.calls := by
      rcases hbefore with hstream | hnone
      · rw [hstream, if_pos rfl] at hbalance
        exact List.count_eq_zero.1 (by omega)
      · exact hnone
    refine ⟨?_, fun hmem => absurd hmem hnone, hlast⟩
    simp only [Machine.total_append, Machine.total_cons]
    omega
  | drops hcalls hstream hstream' howes howes' hcommitted =>
    refine ⟨?_, fun hmem => ?_, hcalls ▸ hlast⟩
    · simp only [Machine.total_append, Machine.total_cons, hcalls, hstream']
      rw [hstream, if_pos rfl] at hbalance
      simp only [Bool.false_eq_true, if_false]
      omega
    · rw [hcalls] at hmem
      exact hkeep _ rfl hcommitted (hquiet hmem)
  | reports hcalls hstream howes howes' hall hcommitted =>
    refine ⟨?_, fun _ => hkeep _ rfl hcommitted hall, ?_⟩
    · simp only [Machine.total_append, Machine.total_cons, hcalls, List.count_append,
        List.count_singleton_self, hstream]
      omega
    · rw [hcalls]
      exact hlast.concat nofun

end

theorem ends_of_run {as : List Step} {s : State} (h : Run system.step Orderly initial as s) :
    Ends s := by
  refine Machine.invariant_of_run (J := fun _ => True) h (fun _ _ _ => trivial) ?_ ?_ ?_
  · exact ⟨rfl, nofun, throughout_nil⟩
  · rintro x ts input y ts' - hx - hr
    obtain ⟨rfl, rfl⟩ := Prod.mk.inj (Option.some.inj hr)
    have howes : input.thread.owes = 0 := by cases input <;> rfl
    have hcommitted : input.thread.committed = false := by cases input <;> rfl
    refine ⟨?_, fun hmem => ?_, hx.last⟩
    · have hbalance := hx.balance
      simp only [Machine.total_append, Machine.total_cons, Machine.total_nil, howes]
      omega
    · exact List.forall_mem_append.2 ⟨hx.quiet hmem, List.forall_mem_singleton.2 hcommitted⟩
  · intro x l l' t o y t' _ hx hok hact
    exact hx.act (moves_act (Machine.threadSteps_at.1 hok) hact)

/-- In every run whose steps are orderly, a connection that has ended is reported exactly
    once, and neither `on_data` nor `on_writable` is called after that. -/
theorem reported_once {as : List Step} {s : State} (h : Run system.step Orderly initial as s) :
    ReportedOnce s := by
  obtain ⟨hbalance, -, hlast⟩ := ends_of_run h
  refine ⟨?_, fun hstream howes => ?_, hlast⟩
  · split at hbalance <;> omega
  · rw [hstream, Machine.total_eq_zero howes] at hbalance
    exact hbalance

/-- Data is handled, room to write is reported, and the peer closes. -/
def handledAndClosed : List Step :=
  [.env (.event true true), .act 0 .go, .act 0 .bytes, .act 0 .go, .act 0 .go, .act 0 .go, .act 0 .go,
    .env (.event true false), .act 1 .go, .act 1 .endOfStream, .act 1 .go, .act 1 .go, .act 1 .go,
    .act 1 .go]

theorem reported_once_handled :
    ∃ s, Run system.step Orderly initial handledAndClosed s ∧
      s.shared.calls = [.onData, .onWritable, .connectionClosed, .onDisconnect] ∧ ReportedOnce s := by
  obtain ⟨s, hrun, hcalls⟩ : ∃ s, Run system.step Orderly initial handledAndClosed s ∧
      s.shared.calls = [.onData, .onWritable, .connectionClosed, .onDisconnect] :=
    Run.exists_of_exec (by decide +kernel)
  exact ⟨s, hrun, hcalls, reported_once hrun⟩

/-- `TcpClient::disconnect` is called on two clones, one after the other. And one event
    reports the end of the stream and room to write. -/
theorem reported_twice_and_not_last :
    (∃ s, Run system.step Unrestricted initial
        [.env .disconnect, .act 0 .go, .act 0 .go, .act 0 .go, .env .disconnect, .act 1 .go,
          .act 1 .go, .act 1 .go] s ∧
      s.shared.calls = [.onDisconnect, .onDisconnect] ∧ ¬ ReportedOnce s) ∧
    ∃ s, Run system.step Unrestricted initial
        [.env (.event true true), .act 0 .go, .act 0 .endOfStream, .act 0 .go, .act 0 .go, .act 0 .go,
          .act 0 .go, .act 0 .go] s ∧
      s.shared.calls = [.connectionClosed, .onDisconnect, .onWritable] ∧ ¬ ReportedOnce s := by
  constructor
  · obtain ⟨s, hrun, hcalls⟩ : ∃ s, Run system.step Unrestricted initial
        [.env .disconnect, .act 0 .go, .act 0 .go, .act 0 .go, .env .disconnect, .act 1 .go,
          .act 1 .go, .act 1 .go] s ∧ s.shared.calls = [.onDisconnect, .onDisconnect] :=
      Run.exists_of_exec (by decide +kernel)
    refine ⟨s, hrun, hcalls, fun hreported => ?_⟩
    have honce := hreported.once
    rw [hcalls] at honce
    exact absurd honce (by decide)
  · obtain ⟨s, hrun, hcalls⟩ : ∃ s, Run system.step Unrestricted initial
        [.env (.event true true), .act 0 .go, .act 0 .endOfStream, .act 0 .go, .act 0 .go, .act 0 .go,
          .act 0 .go, .act 0 .go] s ∧
        s.shared.calls = [.connectionClosed, .onDisconnect, .onWritable] :=
      Run.exists_of_exec (by decide +kernel)
    refine ⟨s, hrun, hcalls, fun hreported => ?_⟩
    exact hreported.last [.connectionClosed, .onDisconnect] .onWritable [] hcalls rfl (by simp)

end Reports
