-- SUMMARY: Which operations of the API may be called from which callbacks: when the calling thread already holds the mutex that the operation locks.
import MillIo.Endpoint.Held

/-!
# Reentering the API

An operation that is about to lock a mutex its own thread holds waits for ever. The
listener's mutex is held in all callbacks of its handler, the client's in `on_connect` of
`start` and when its handler disconnects, and a stream's in `on_error` of `broadcast`,
while its connection can be found. Wherever else a stream's mutex is held in a callback its
connection is not in the map.
-/

namespace Reentry

open Interleaving

/-! ## The property -/

/-- The functions that a callback may call by the interface of contexts, servers and
    clients, and that the property is about. -/
def Frame.isOperation : Frame → Bool
  | localAddr _ _ => true
  | sendTo _ _ _ => true
  | broadcast _ _ => true
  | closeConnection _ _ _ => true
  | send _ _ => true
  | disconnect _ _ => true
  | _ => false

/-- The mutex that an operation is about to lock. -/
def Frame.acquires (f : Frame) : Option Mutex := if f.isOperation then code.wants f else none

/-- The operation that the thread is in, if it is about to lock a mutex, locks one that the
    thread does not hold. -/
def CanProceed (t : Thread) : Prop := ∀ f ∈ t.frames.head?, ∀ m ∈ f.acquires, m ∉ t.held

instance : DecidablePred CanProceed := fun t =>
  inferInstanceAs (Decidable (∀ f ∈ t.frames.head?, ∀ m ∈ f.acquires, m ∉ t.held))

def CanReenter (s : State) : Prop := ∀ t ∈ s.threads, CanProceed t

instance : DecidablePred CanReenter := fun s =>
  inferInstanceAs (Decidable (∀ t ∈ s.threads, CanProceed t))

/-! ## The condition -/

/-- In a callback of the handler of the server's listener. -/
@[simp] def Frame.isAccepting (server : ℕ) : Frame → Bool
  | accept server' _ => server = server'
  | _ => false

/-- In `on_connect` of the client's `start`, or in `on_disconnect` or `on_error` of the
    `disconnect` of its handler. -/
@[simp] def Frame.isStartingOrEnding (client : ℕ) : Frame → Bool
  | startClient client' .connecting => client = client'
  | clientHandle client' _ _ .notifying => client = client'
  | clientHandle client' _ _ .notNotified => client = client'
  | _ => false

/-- In `on_error` of a `broadcast` that could not write to the connection. -/
@[simp] def Frame.isReporting (x : ℕ × ℕ) : Frame → Bool
  | broadcast server (.notWritten id) => x = (server, id)
  | _ => false

/-- The connection in the map that an operation comes to with a step. -/
def Frame.finds (s : Data) : Frame → Choice → Option (ℕ × ℕ)
  | sendTo server id .getting, .go => if (server, id) ∈ s.connections then some (server, id) else none
  | closeConnection server id .removing, .go =>
    if (server, id) ∈ s.connections then some (server, id) else none
  | broadcast server .iterating, .connection id =>
    if (server, id) ∈ s.connections then some (server, id) else none
  | _, _ => none

/-- `local_addr` is not called in a callback of the server's listener, nor `send` or
    `disconnect` in one of the client's start or end, and no operation comes to a connection
    that a `broadcast` is reporting, on one and the same thread. -/
def Thread.Careful (s : Data) (t : Thread) : Move Choice Call → Prop
  | .enter (.localAddr server) => ∀ f ∈ t.frames, f.isAccepting server = false
  | .enter (.send client) => ∀ f ∈ t.frames, f.isStartingOrEnding client = false
  | .enter (.disconnect client) => ∀ f ∈ t.frames, f.isStartingOrEnding client = false
  | .choose o => ∀ f ∈ t.frames.head?, ∀ x ∈ f.finds s o, ∀ g ∈ t.frames, g.isReporting x = false
  | _ => True

instance (s : Data) (t : Thread) (a : Move Choice Call) : Decidable (Thread.Careful s t a) := by
  unfold Thread.Careful
  split <;> infer_instance

def Careful : State → Step → Prop :=
  Machine.ThreadSteps fun s t a => Thread.Careful s.shared.data t a

instance : DecidableRel Careful := by unfold Careful; infer_instance

/-! ## Where operations lock -/

/-- After the instruction of the frame `f` an operation is about to lock a mutex only if it
    has just found a connection. -/
def Settles (f : Frame) : Next → Prop
  | .lock _ next => next.acquires = none
  | .unlock _ next => next.acquires = none
  | .callback ok failed => ok.acquires = none ∧ failed.acquires = none
  | .branch next => ∀ s o s' f', next s o = some (s', f') →
    f'.acquires = (f.finds s o).map fun x => .stream x.1 x.2
  | .ret => True

theorem settles_andThen {f : Frame} {k : Data → Data × Frame}
    (h : ∀ s, (k s).2.acquires = (f.finds s .go).map fun x => .stream x.1 x.2) :
    Settles f (andThen k) := by
  intro s o s' f' hnext
  cases o <;> simp only [reduceCtorEq] at hnext
  have hsettles := h s
  rwa [Option.some.inj hnext] at hsettles

theorem settles_either {f ok failed : Frame} (hfinds : ∀ s o, f.finds s o = none)
    (hok : ok.acquires = none) (hfailed : failed.acquires = none) : Settles f (either ok failed) := by
  intro s o s' f' hnext
  cases o <;> simp only [reduceCtorEq] at hnext <;> cases hnext <;> rw [hfinds, Option.map_none]
  · exact hok
  · exact hfailed

theorem settles_read {f : Frame} {g : ReadResult → Frame} (hfinds : ∀ s o, f.finds s o = none)
    (h : ∀ r, (g r).acquires = none) : Settles f (read g) := by
  intro s o s' f' hnext
  cases o <;> simp only [reduceCtorEq] at hnext <;> cases hnext <;> rw [hfinds, Option.map_none] <;>
    exact h _

theorem Accept.settles (server : ℕ) (phase : Accept) :
    Settles (.accept server phase) (phase.instr server) := by
  cases phase with
  | accepting =>
    intro s o s' f' hnext
    cases o <;> simp only [reduceCtorEq] at hnext <;> cases hnext <;> rfl
  | counting | configuring | upgrading n | inRegister n =>
    exact settles_either (fun _ _ => rfl) rfl rfl
  | begun isReadable | drawing | inserting n => exact settles_andThen fun s => rfl
  | removing n =>
    refine settles_andThen fun s => ?_
    split <;> rfl
  | refused | notConfigured | eventLoopGone | notRegistered n | establishing n | connecting n
  | notConnected n | notAccepted => exact ⟨rfl, rfl⟩
  | listening | registering n | removed n => rfl
  | backingOut n | registered n | deregistering n | continuing | breaking => rfl
  | returned => trivial

theorem Handle.settles (server n : ℕ) (isReadable isWritable : Bool) (phase : Handle) :
    Settles (.handle server n isReadable isWritable phase)
      (phase.instr (.handle server n isReadable isWritable) server n isReadable isWritable) := by
  cases phase with
  | begun | haveHandledRead => exact settles_andThen fun s => rfl
  | inRead =>
    exact settles_read (g := fun r => .handle server n isReadable isWritable (haveRead r))
      (fun _ _ => rfl) fun r => rfl
  | disconnecting =>
    refine settles_andThen fun s => ?_
    split <;> rfl
  | removed => exact settles_either (fun _ _ => rfl) rfl rfl
  | data | notHandled | notRead | notifying | notNotified | closed | writable | notWritten =>
    exact ⟨rfl, rfl⟩
  | reading | haveRead result | lockingStream | deregistering => rfl
  | returned => trivial

theorem ClientHandle.settles (client : ℕ) (isReadable isWritable : Bool) (phase : ClientHandle) :
    Settles (.clientHandle client isReadable isWritable phase)
      (phase.instr (.clientHandle client isReadable isWritable) client isReadable isWritable) := by
  cases phase with
  | begun | haveLocked | dropping | haveHandledRead => exact settles_andThen fun s => rfl
  | inRead =>
    exact settles_read (g := fun r => .clientHandle client isReadable isWritable (haveRead r))
      (fun _ _ => rfl) fun r => rfl
  | data | notHandled | notRead | closed | notifying | notNotified | writable | notWritten =>
    exact ⟨rfl, rfl⟩
  | reading | haveRead result | noStream | disconnecting | disconnected => rfl
  | returned => trivial

theorem ServerStart.settles (server : ℕ) (phase : ServerStart) :
    Settles (.startServer server phase) (phase.instr server) := by
  cases phase with
  | begun | haveServer => exact settles_andThen fun s => rfl
  | haveEventLoop | registering => rfl
  | returned => trivial

theorem ClientStart.settles (client : ℕ) (phase : ClientStart) :
    Settles (.startClient client phase) (phase.instr client) := by
  cases phase with
  | registering =>
    intro s o s' f' hnext
    cases o <;> simp only [reduceCtorEq] at hnext <;> cases hnext <;> rfl
  | connecting => exact ⟨rfl, rfl⟩
  | begun | leaving => rfl
  | returned => trivial

theorem SendTo.settles (server n : ℕ) (phase : SendTo) :
    Settles (.sendTo server n phase) (phase.instr server n) := by
  cases phase with
  | begun =>
    refine settles_andThen fun s => ?_
    split <;> rfl
  | getting =>
    refine settles_andThen fun s => ?_
    simp only [Frame.finds]
    split <;> rfl
  | found | writing => rfl
  | returned => trivial

theorem Broadcast.settles (server : ℕ) (phase : Broadcast) :
    Settles (.broadcast server phase) (phase.instr server) := by
  cases phase with
  | begun =>
    refine settles_andThen fun s => ?_
    split <;> rfl
  | iterating =>
    intro s o s' f' hnext
    cases o <;> simp only [reduceCtorEq] at hnext
    · cases hnext
      rfl
    · split at hnext <;> cases hnext
      rename_i hmem
      simp only [Frame.finds, if_pos hmem]
      rfl
  | writing n => exact settles_either (fun _ _ => rfl) rfl rfl
  | notWritten n => exact ⟨rfl, rfl⟩
  | next n | written n => rfl
  | returned => trivial

theorem CloseConnection.settles (server n : ℕ) (phase : CloseConnection) :
    Settles (.closeConnection server n phase) (phase.instr server n) := by
  cases phase with
  | begun | haveServer =>
    refine settles_andThen fun s => ?_
    split <;> rfl
  | removing =>
    refine settles_andThen fun s => ?_
    simp only [Frame.finds]
    split <;> rfl
  | notifying | notNotified | closed => exact ⟨rfl, rfl⟩
  | removed | leaving => rfl
  | returned => trivial

theorem ClientDisconnect.settles (client : ℕ) (phase : ClientDisconnect) :
    Settles (.disconnect client phase) (phase.instr client) := by
  cases phase with
  | dropping => exact settles_andThen fun s => rfl
  | notifying => exact ⟨rfl, rfl⟩
  | begun | dropped => rfl
  | returned => trivial

theorem Frame.settles (f : Frame) : Settles f f.instr := by
  cases f with
  | accept server phase => exact phase.settles server
  | handle server n isReadable isWritable phase => exact phase.settles server n isReadable isWritable
  | clientHandle client isReadable isWritable phase => exact phase.settles client isReadable isWritable
  | startServer server phase => exact phase.settles server
  | startClient client phase => exact phase.settles client
  | localAddr server phase | send client phase =>
    cases phase with
    | begun | locked => rfl
    | returned => trivial
  | sendTo server n phase => exact phase.settles server n
  | broadcast server phase => exact phase.settles server
  | closeConnection server n phase => exact phase.settles server n
  | disconnect client phase => exact phase.settles client

/-- The mutex that a call locks before anything else. -/
def Call.locks : Call → Option Mutex
  | localAddr server => some (.listener server)
  | send client => some (.client client)
  | disconnect client => some (.client client)
  | _ => none

theorem Call.acquires_frame (c : Call) : c.frame.acquires = c.locks := by cases c <;> rfl

/-- What comes to a connection finds it in the map, and holds nothing. -/
theorem finds_eq_some {s : Data} {f : Frame} {o : Choice} {x : ℕ × ℕ} (h : f.finds s o = some x) :
    x ∈ s.connections ∧ f.holds = [] := by
  unfold Frame.finds at h
  split at h
  case h_4 => cases h
  all_goals
    split at h
    · rename_i hmem
      cases h
      exact ⟨hmem, rfl⟩
    · cases h

/-! ## What is held in callbacks -/

/-- The callback of the frame runs with the mutex. -/
def Frame.keeps (f : Frame) : Mutex → Bool
  | .listener server => f.isAccepting server
  | .client client => f.isStartingOrEnding client
  | .stream server id => f.isReporting (server, id) || f.parts (server, id)

@[simp] theorem keeps_listener (f : Frame) (server : ℕ) :
    f.keeps (.listener server) = f.isAccepting server := rfl

@[simp] theorem keeps_client (f : Frame) (client : ℕ) :
    f.keeps (.client client) = f.isStartingOrEnding client := rfl

@[simp] theorem keeps_stream (f : Frame) (server n : ℕ) :
    f.keeps (.stream server n) = (f.isReporting (server, n) || f.parts (server, n)) := rfl

theorem mem_holds_of_callback {f ok failed : Frame} (h : f.instr = .callback ok failed) (m : Mutex) :
    m ∈ f.holds ↔ f.keeps m = true := by
  cases f with
  | accept server phase =>
    cases phase with
    | refused | notConfigured | eventLoopGone | notRegistered | establishing | connecting
    | notConnected | notAccepted =>
      cases m <;> simp
    | _ => cases h
  | handle server n isReadable isWritable phase =>
    cases phase with
    | data | notHandled | notRead | notifying | notNotified | closed | writable | notWritten =>
      cases m <;> simp
    | _ => cases h
  | clientHandle client isReadable isWritable phase =>
    cases phase with
    | data | notHandled | notRead | closed | notifying | notNotified | writable | notWritten =>
      cases m <;> simp
    | _ => cases h
  | startServer server phase => cases phase <;> cases h
  | startClient client phase =>
    cases phase with
    | connecting =>
      cases m <;> simp
    | _ => cases h
  | localAddr server phase => cases phase <;> cases h
  | sendTo server n phase => cases phase <;> cases h
  | broadcast server phase =>
    cases phase with
    | notWritten =>
      cases m <;> simp
    | _ => cases h
  | closeConnection server n phase =>
    cases phase with
    | notifying | notNotified | closed =>
      cases m <;> simp
    | _ => cases h
  | send client phase => cases phase <;> cases h
  | disconnect client phase =>
    cases phase with
    | notifying =>
      cases m <;> simp
    | _ => cases h

/-! ## Steps -/

theorem acquires_of_callback {f ok failed : Frame} (h : f.instr = .callback ok failed) :
    f.acquires = none := by
  have hwants : code.wants f = none := by simp [Code.wants, code, h]
  simp [Frame.acquires, hwants]

theorem settles_of_instr {f : Frame} {i : Next} (h : code.instr f = i) : Settles f i := h ▸ f.settles

theorem canProceed_of_none {t : Thread} (h : ∀ f ∈ t.frames.head?, f.acquires = none) :
    CanProceed t := by
  intro f hf m hm
  rw [h f hf] at hm
  cases hm

theorem canProceed_next {held : List Mutex} {f : Frame} {rest : List Frame} (h : f.acquires = none) :
    CanProceed ⟨held, f :: rest⟩ := by
  refine canProceed_of_none fun g hg => ?_
  cases hg
  exact h

section

variable {s s' : Locks Data Mutex} {t t' : Thread} {held : List Mutex} {f : Frame} {rest : List Frame}

theorem mem_held_iff (h : code.Accounted Frame.holds t) (m : Mutex) :
    m ∈ t.held ↔ ∃ f ∈ t.frames, m ∈ f.holds := by
  rw [h.held, List.mem_flatMap]

theorem canProceed_enter_iff {ok failed : Frame} (h : code.Accounted Frame.holds ⟨held, f :: rest⟩)
    (hinstr : f.instr = .callback ok failed) (data : Data) (op : Call) :
    CanProceed ⟨held, op.frame :: f :: rest⟩ ↔ Thread.Careful data ⟨held, f :: rest⟩ (.enter op) := by
  -- the callback that calls is the innermost, and all frames below are in callbacks too
  have hall : ∀ g ∈ f :: rest, ∃ ok failed, g.instr = .callback ok failed :=
    List.forall_mem_cons.2 ⟨⟨ok, failed, hinstr⟩, h.suspended⟩
  have hheld : ∀ m, m ∉ held ↔ ∀ g ∈ f :: rest, g.keeps m = false := by
    intro m
    rw [mem_held_iff h m, not_exists]
    refine forall_congr' fun g => ⟨fun hnot hg => ?_, fun hnot hg => ?_⟩
    · obtain ⟨ok, failed, hg'⟩ := hall g hg
      refine eq_false_of_ne_true fun hkeeps => hnot ⟨hg, ?_⟩
      exact (mem_holds_of_callback hg' m).2 hkeeps
    · obtain ⟨ok, failed, hg'⟩ := hall g hg.1
      have hkeeps := (mem_holds_of_callback hg' m).1 hg.2
      rw [hnot hg.1] at hkeeps
      cases hkeeps
  have hhead : CanProceed ⟨held, op.frame :: f :: rest⟩ ↔ ∀ m ∈ op.locks, m ∉ held := by
    simp [CanProceed, Call.acquires_frame]
  rw [hhead]
  cases op with
  | localAddr server => simpa [Call.locks, Thread.Careful] using hheld (.listener server)
  | send client => simpa [Call.locks, Thread.Careful] using hheld (.client client)
  | disconnect client => simpa [Call.locks, Thread.Careful] using hheld (.client client)
  | sendTo | broadcast | closeConnection | startServer | startClient =>
    simp [Call.locks, Thread.Careful]

theorem not_isReporting_of_holds {x : ℕ × ℕ} (h : f.holds = []) : f.isReporting x = false := by
  unfold Frame.isReporting
  split
  · cases h
  · rfl

/-- The connection is in the map, so nobody has parted with it. -/
theorem canProceed_branch_iff {f' : Frame} {o : Choice} {ts : List Thread}
    (h : code.Accounted Frame.holds ⟨held, f :: rest⟩) (hmem : ⟨held, f :: rest⟩ ∈ ts)
    (hunique : ∀ x, (connection x).Unique ⟨s, ts⟩)
    (hacquires : f'.acquires = (f.finds s.data o).map fun x => .stream x.1 x.2) :
    CanProceed ⟨held, f' :: rest⟩ ↔ Thread.Careful s.data ⟨held, f :: rest⟩ (.choose o) := by
  simp only [CanProceed, Thread.Careful, List.head?_cons, Option.mem_def, Option.some.injEq,
    forall_eq', hacquires, Option.map_eq_some_iff, forall_exists_index, and_imp,
    forall_apply_eq_imp_iff₂]
  refine forall₂_congr fun x hx => ?_
  obtain ⟨hconnected, hfree⟩ := finds_eq_some hx
  have hheld : .stream x.1 x.2 ∈ held ↔ ∃ g ∈ rest, .stream x.1 x.2 ∈ g.holds := by
    rw [mem_held_iff h, List.exists_mem_cons_iff, hfree]
    simp only [List.not_mem_nil, false_or]
  rw [hheld, not_exists, List.forall_mem_cons]
  refine ⟨fun hnot => ⟨not_isReporting_of_holds hfree, fun g hg => ?_⟩, fun hnot g hg => ?_⟩
  · obtain ⟨ok, failed, hg'⟩ := h.suspended g hg
    refine eq_false_of_ne_true fun hreporting => hnot g ⟨hg, ?_⟩
    exact (mem_holds_of_callback hg' _).2 (by rw [keeps_stream, hreporting, Bool.true_or])
  · obtain ⟨ok, failed, hg'⟩ := h.suspended g hg.1
    have hkeeps := (mem_holds_of_callback hg' _).1 hg.2
    rw [keeps_stream, hnot.2 g hg.1, Bool.false_or] at hkeeps
    -- a frame that has parted with the connection would have seen it leave the map
    obtain ⟨-, -, hgone⟩ := (hunique x).gone _ hmem g (List.mem_cons_of_mem _ hg.1) hkeeps
    exact absurd hconnected (of_decide_eq_false hgone)

/-- What a thread does leaves it able to proceed if and only if it is careful. -/
theorem canProceed_iff {a : Move Choice Call} {ts : List Thread} (h : code.Accounted Frame.holds t)
    (hmem : t ∈ ts) (hunique : ∀ x, (connection x).Unique ⟨s, ts⟩) (hacts : code.Acts s t a s' t') :
    CanProceed t' ↔ Thread.Careful s.data t a := by
  cases hacts with
  | lock hinstr _ => exact iff_of_true (canProceed_next (settles_of_instr hinstr)) trivial
  | unlock hinstr => exact iff_of_true (canProceed_next (settles_of_instr hinstr)) trivial
  | enter op hinstr => exact canProceed_enter_iff h hinstr s.data op
  | returns b hinstr =>
    obtain ⟨hok, hfailed⟩ := settles_of_instr hinstr
    refine iff_of_true (canProceed_next ?_) trivial
    cases b with
    | true => exact hok
    | false => exact hfailed
  | branch hinstr hnext =>
    exact canProceed_branch_iff h hmem hunique (settles_of_instr hinstr _ _ _ _ hnext)
  | ret hinstr =>
    -- the thread is back in the callback that has called the operation
    refine iff_of_true (canProceed_of_none fun g hg => ?_) trivial
    obtain ⟨ok, failed, hg'⟩ := h.suspended g (List.mem_of_mem_head? hg)
    exact acquires_of_callback hg'

end

/-! ## Runs -/

theorem canProceed_new (i : Input) : CanProceed ⟨[], [i.frame]⟩ := by
  intro f _ m _ hm
  cases hm

/-- In every run each operation that a callback calls can proceed, whatever the thread holds,
    if and only if all steps of the run are careful. -/
theorem reenter_iff {as : List Step} {s : State} (h : Run system.step Unrestricted initial as s) :
    (∀ bs cs u, bs ++ cs = as → Run system.step Unrestricted initial bs u → CanReenter u) ↔
      Run system.step Careful initial as s := by
  refine h.always_iff (fun t ht => by cases ht) fun bs t a u hr ht hs => ?_
  have haccounted := code_follows.accounted_of_run hr
  have hunique := fun x => (connection_handled x).unique_of_run (by simp [connection, Data.new]) hr
  obtain ⟨x, ts⟩ := t
  rcases Machine.step_cases hs with ⟨i, r, rfl, hr', rfl⟩ | ⟨o, t, ⟨y, t'⟩, l, l', rfl, hts, hr', rfl⟩
  · cases hr'
    refine iff_of_true ?_ trivial
    exact List.forall_mem_append.2 ⟨ht, List.forall_mem_singleton.2 (canProceed_new i)⟩
  · obtain rfl : ts = l ++ t :: l' := hts
    have hmem : t ∈ l ++ t :: l' := by simp
    have hiff := canProceed_iff (haccounted t hmem) hmem hunique (code.acts_of_act hr')
    refine Iff.trans ?_ Machine.threadSteps_at.symm
    refine Machine.forall_threads_at.trans ?_
    exact (and_iff_left (Machine.forall_threads_at.1 ht).2).trans hiff

/-- Where the property fails a thread is stopped for good. -/
theorem deadlock {as : List Step} {s : State} (h : Run system.step Unrestricted initial as s)
    (hnot : ¬ CanReenter s) :
    ∃ (i : ℕ) (t : Thread), s.threads[i]? = some t ∧ ¬ CanProceed t ∧
      ∀ bs u, Run system.step Unrestricted s bs u → u.threads[i]? = some t := by
  simp only [CanReenter, not_forall] at hnot
  obtain ⟨t, hmem, hstuck⟩ := hnot
  obtain ⟨i, ht⟩ := List.getElem?_of_mem hmem
  refine ⟨i, t, ht, hstuck, fun bs u hu => ?_⟩
  simp only [CanProceed, not_forall, not_not] at hstuck
  obtain ⟨f, hf, m, hacquires, hheld⟩ := hstuck
  have hwants : code.wants f = some m := (Option.ite_none_right_eq_some.1 hacquires).2
  exact code_follows.waits_for_ever h ht hf hwants hheld hu

/-- A server is started, and accepts a connection up to the call of `on_connect`. -/
def connecting : List Step :=
  [.env (.call (.startServer 0)), .act 0 (.choose .go), .act 0 (.choose .go), .act 0 .go, .act 0 .go,
    .act 0 .go, .env (.accept 0 true), .act 1 (.choose .go), .act 1 .go, .act 1 (.choose .go),
    .act 1 (.choose .go), .act 1 (.choose .go), .act 1 (.choose .go), .act 1 (.choose .go), .act 1 .go,
    .act 1 (.choose .go), .act 1 .go, .act 1 (.choose .go), .act 1 (.returns true)]

/-- Then the connection has sent data, up to the call of `on_data`. -/
def handling : List Step :=
  connecting ++ ([.act 1 (.returns true), .act 1 .go, .act 1 .go, .act 1 (.choose .wouldBlock),
    .act 1 .go, .act 1 .go, .env (.handle 0 1 true false), .act 2 (.choose .go), .act 2 .go,
    .act 2 (.choose .go), .act 2 .go] : List Step)

/-- `on_data` asks for the address and answers. -/
def answering : List Step :=
  handling ++ ([.act 2 (.enter (.localAddr 0)), .act 2 .go, .act 2 .go, .act 2 .go,
    .act 2 (.enter (.sendTo 0 1)), .act 2 (.choose .go), .act 2 (.choose .go), .act 2 .go, .act 2 .go,
    .act 2 .go, .act 2 (.returns true), .act 2 (.choose .go), .act 2 .go] : List Step)

theorem reenter_iff_answering :
    ∃ s, Run system.step Careful initial answering s ∧
      ∀ bs cs u, bs ++ cs = answering → Run system.step Unrestricted initial bs u → CanReenter u := by
  obtain ⟨s, hrun, -⟩ : ∃ s, Run system.step Careful initial answering s ∧ True :=
    Run.exists_of_exec (by decide +kernel)
  exact ⟨s, hrun, (reenter_iff hrun.unrestricted).2 hrun⟩

/-- The actions lead to a state in which a thread is stopped for good by an operation. -/
def Deadlocks (as : List Step) : Prop :=
  ∃ s, Run system.step Unrestricted initial as s ∧ ¬ CanReenter s ∧
    ∃ (i : ℕ) (t : Thread), s.threads[i]? = some t ∧ ¬ CanProceed t ∧
      ∀ bs u, Run system.step Unrestricted s bs u → u.threads[i]? = some t

theorem deadlocks_of_exec {as : List Step}
    (h : (exec system.step Unrestricted initial as).any fun s => ¬ CanReenter s) : Deadlocks as := by
  obtain ⟨s, hrun, hnot⟩ := Run.exists_of_exec (P := fun s => ¬ CanReenter s) h
  exact ⟨s, hrun, hnot, deadlock hrun hnot⟩

/-- `on_connect` of the server asks for the address, that of the client sends, its
    `on_disconnect` disconnects, and `on_error` of a `broadcast` sends to the same connection. -/
theorem cannot_reenter :
    Deadlocks (connecting ++ ([.act 1 (.enter (.localAddr 0))] : List Step)) ∧
    Deadlocks [.env (.call (.startClient 0)), .act 0 .go, .act 0 (.choose .go),
      .act 0 (.enter (.send 0))] ∧
    Deadlocks [.env (.clientHandle 0 true false), .act 0 (.choose .go), .act 0 .go,
      .act 0 (.choose .go), .act 0 (.choose .closed), .act 0 .go, .act 0 (.returns true), .act 0 .go,
      .act 0 (.choose .go), .act 0 (.enter (.disconnect 0))] ∧
    Deadlocks (handling ++ ([.act 2 (.enter (.broadcast 0)), .act 2 (.choose .go),
      .act 2 (.choose (.connection 1)), .act 2 .go, .act 2 (.choose .failed),
      .act 2 (.enter (.sendTo 0 1)), .act 2 (.choose .go), .act 2 (.choose .go)] : List Step)) :=
  ⟨deadlocks_of_exec (by decide +kernel), deadlocks_of_exec (by decide +kernel),
    deadlocks_of_exec (by decide +kernel), deadlocks_of_exec (by decide +kernel)⟩

end Reentry
