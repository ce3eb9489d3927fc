-- SUMMARY: The order of the calls of the `NetworkHandler` for one connection: `on_connect` first and `on_disconnect` last, and under which conditions.
import MillIo.Server.Entries
import Mathlib.Algebra.Order.Ring.Nat

/-!
# The callbacks of a connection

The conditions say which interleavings keep the order of the calls. They speak of
the reads, the removals from the map and the `on_disconnect` calls, and of what the
other threads are then committed to.
-/

namespace Server

open Interleaving

/-! ## The calls that a step makes -/

/-- What the next step of the thread adds to the calls. -/
def Thread.makes : Thread → Choice → Option (ℕ × Callback)
  | .accept (.establishing id peer), _ => some (id, .connectionEstablished peer)
  | .accept (.connecting id), _ => some (id, .onConnect)
  | .accept (.inOnConnect id), .go => some (id, .connected)
  | .handle id _ _ .data, _ => some (id, .onData)
  | .handle id _ _ .disconnecting, _ => some (id, .onDisconnect)
  | .handle id _ _ .closing, _ => some (id, .connectionClosed)
  | .handle id _ _ (.writable _), _ => some (id, .onWritable)
  | .close id .disconnecting, _ => some (id, .onDisconnect)
  | .close id .closing, _ => some (id, .connectionClosed)
  | _, _ => none

section

variable {s s' : TcpServer} {t t' : Thread} {o : Choice} {id : ℕ}

theorem calls_act (h : Acts s t o s' t') : s'.calls = s.calls ++ (t.makes o).toList := by
  cases h with
  | accept t t' o s' h =>
    cases h with
    | establish | connect | connected => rfl
    | _ => exact (List.append_nil _).symm
  | handle id isReadable isWritable t t' o s' h =>
    cases h with
    | data | disconnect | close | writable => rfl
    | _ => exact (List.append_nil _).symm
  | close id t t' o s' h =>
    cases h with
    | disconnect | close => rfl
    | _ => exact (List.append_nil _).symm

theorem mem_calls_of_act (h : Acts s t o s' t') {call : ℕ × Callback} (hcall : call ∈ s.calls) :
    call ∈ s'.calls := by
  rw [calls_act h]
  exact List.mem_append_left _ hcall

/-- The history grows by the call that the step makes. -/
theorem throughout_act {Q : List (ℕ × Callback) → ℕ × Callback → Prop} (h : Acts s t o s' t')
    (hcalls : Throughout Q s.calls) (hmakes : ∀ call, t.makes o = some call → Q s.calls call) :
    Throughout Q s'.calls := by
  rw [calls_act h]
  cases hcall : t.makes o with
  | none => simpa using hcalls
  | some call => exact hcalls.concat (hmakes call hcall)

end

/-! ## What a thread is committed to -/

/-- The thread is going to call `on_data`, `on_writable` or `on_connect`. -/
def Handle.committed (isWritable : Bool) : Handle → Bool
  | .lookup => false
  | .data => true
  | .writable _ => true
  | .inOnWritable _ => false
  | .returned _ => false
  | _ => isWritable

def Thread.committed (id : ℕ) : Thread → Bool
  | .accept (.registering i _) => i == id
  | .accept (.inserting i _) => i == id
  | .accept (.establishing i _) => i == id
  | .accept (.connecting i) => i == id
  | .handle i _ isWritable t => i == id && t.committed isWritable
  | _ => false

/-- One between the removal of the entry and the call. -/
def Handle.owes : Callback → Handle → ℕ
  | .onDisconnect, .uncounting => 1
  | .onDisconnect, .deregistering => 1
  | .onDisconnect, .disconnecting => 1
  | .connectionClosed, .uncounting => 1
  | .connectionClosed, .deregistering => 1
  | .connectionClosed, .disconnecting => 1
  | .connectionClosed, .closing => 1
  | _, _ => 0

def Close.owes : Callback → Close → ℕ
  | .onDisconnect, .deregistering => 1
  | .onDisconnect, .disconnecting => 1
  | .connectionClosed, .deregistering => 1
  | .connectionClosed, .disconnecting => 1
  | .connectionClosed, .closing => 1
  | _, _ => 0

def Thread.owes (id : ℕ) (callback : Callback) : Thread → ℕ
  | .handle i _ _ t => if i = id then t.owes callback else 0
  | .close i t => if i = id then t.owes callback else 0
  | .accept _ => 0

/-! ## `on_disconnect` comes last -/

/-- The step removes no entry because of a failed `on_connect`; when it calls
    `on_disconnect`, no thread is committed to another call for the connection; and
    it reads no bytes and commits to no `on_writable` after `on_disconnect`. -/
def Thread.Concludes (s : State) : Thread → Choice → Prop
  | .accept (.removing id), _ => id ∉ s.shared.connections
  | .handle id _ isWritable .lookup, _ =>
    id ∈ s.shared.registry → isWritable = true → (id, .onDisconnect) ∉ s.shared.calls
  | .handle id _ _ .reading, .bytes => (id, .onDisconnect) ∉ s.shared.calls
  | .handle id _ _ .disconnecting, _ => ∀ t ∈ s.threads, t.committed id = false
  | .close id .disconnecting, _ => ∀ t ∈ s.threads, t.committed id = false
  | _, _ => True

instance (s : State) (t : Thread) (o : Choice) : Decidable (t.Concludes s o) := by
  unfold Thread.Concludes
  split <;> infer_instance

def Concluding : State → Step → Prop :=
  Machine.ThreadSteps fun s t o => t.DrawsNew s.shared ∧ t.Concludes s o

instance : DecidableRel Concluding := by unfold Concluding; infer_instance

theorem Concluding.numbered {s : State} {a : Step} (h : Concluding s a) : Numbered s a := by
  cases a with
  | env input => trivial
  | act i o => exact fun t ht => (h t ht).1

/-- The entry has left as often as the callback has been called or is owed. -/
def Balanced (callback : Callback) (s : State) : Prop :=
  ∀ id, (s.shared.left.map Prod.fst).count id =
    s.shared.calls.count (id, callback) + Machine.total (Thread.owes id callback) s.threads

def StartsWork : Callback → Prop
  | .onData => True
  | .onWritable => True
  | .onConnect => True
  | _ => False

/-- The call is none of `on_data`, `on_writable` and `on_connect` if `on_disconnect`
    has been called for the connection. -/
def NotAfterDisconnect (before : List (ℕ × Callback)) (call : ℕ × Callback) : Prop :=
  StartsWork call.2 → (call.1, .onDisconnect) ∉ before

section

variable {s s' : TcpServer} {t t' : Thread} {l l' : List Thread} {o : Choice} {id : ℕ}

/-- What a removal owes, the calls of the thread pay. -/
theorem owed_act {callback : Callback}
    (hcallback : callback = .onDisconnect ∨ callback = .connectionClosed)
    (hconcludes : t.Concludes ⟨s, l ++ t :: l'⟩ o) (h : Acts s t o s' t') (i : ℕ) :
    ((t.leaves s).toList.map Prod.fst).count i + t.owes i callback =
      (t.makes o).toList.count (i, callback) + t'.owes i callback := by
  cases h with
  | accept t t' o s' h =>
    cases h with
    | remove id hmem => exact absurd hmem hconcludes
    | gone id hmem => simp [Thread.leaves, hmem, Thread.makes, Thread.owes]
    | establish | connect | connected =>
      rcases hcallback with rfl | rfl <;> simp [Thread.leaves, Thread.makes, Thread.owes]
    | _ => rfl
  | handle id isReadable isWritable t t' o s' h =>
    cases h with
    | found =>
      cases isReadable <;> cases isWritable <;> rcases hcallback with rfl | rfl <;> rfl
    | remove hmem =>
      rcases hcallback with rfl | rfl <;>
        simp [Thread.leaves, hmem, Thread.makes, Thread.owes, Handle.owes, List.count_singleton]
    | gone hmem =>
      cases isWritable <;> rcases hcallback with rfl | rfl <;>
        simp [Thread.leaves, hmem, Thread.makes, Thread.owes, Handle.owes, Handle.afterRead]
    | nothing | handled => cases isWritable <;> rcases hcallback with rfl | rfl <;> rfl
    | close =>
      cases isWritable <;> rcases hcallback with rfl | rfl <;>
        simp [Thread.leaves, Thread.makes, Thread.owes, Handle.owes, Handle.afterRead,
          List.count_singleton]
    | data | disconnect | writable =>
      rcases hcallback with rfl | rfl <;>
        simp [Thread.leaves, Thread.makes, Thread.owes, Handle.owes, List.count_singleton]
    | missing | read | ended | failed | uncount | deregister | refused | written =>
      rcases hcallback with rfl | rfl <;> rfl
  | close id t t' o s' h =>
    cases h with
    | remove hmem =>
      rcases hcallback with rfl | rfl <;>
        simp [Thread.leaves, hmem, Thread.makes, Thread.owes, Close.owes, List.count_singleton]
    | gone hmem => simp [Thread.leaves, hmem, Thread.makes, Thread.owes, Close.owes]
    | disconnect | close =>
      rcases hcallback with rfl | rfl <;>
        simp [Thread.leaves, Thread.makes, Thread.owes, Close.owes, List.count_singleton]
    | deregister | refused => rcases hcallback with rfl | rfl <;> rfl

@[simp] theorem Handle.committed_afterRead (isWritable ended : Bool) :
    (afterRead isWritable ended).committed isWritable = isWritable := by
  cases isWritable <;> rfl

theorem committed_of_makes {call : ℕ × Callback} (h : t.makes o = some call)
    (hwork : StartsWork call.2) : t.committed call.1 = true := by
  unfold Thread.makes at h
  split at h <;> cases h <;> first | exact hwork.elim | simp [Thread.committed, Handle.committed]

theorem concludes_of_makes {S : State} (h : t.makes o = some (id, .onDisconnect))
    (hconcludes : t.Concludes S o) : ∀ t ∈ S.threads, t.committed id = false := by
  unfold Thread.makes at h
  split at h <;> cases h
  · exact hconcludes
  · exact hconcludes

/-- A thread commits itself to a call for a new connection, or before
    `on_disconnect`. -/
theorem committed_act (hdraws : t.DrawsNew s) (hconcludes : t.Concludes ⟨s, l ++ t :: l'⟩ o)
    (h : Acts s t o s' t') (hid : t'.committed id = true) :
    t.committed id = true ∨
      (t.makes o = none ∧ (s.nextConnId = id ∨ (id, .onDisconnect) ∉ s.calls)) := by
  cases h with
  | accept t t' o s' h =>
    cases h with
    | draw =>
      have heq : s.nextConnId % 2 ^ 64 = id := beq_iff_eq.1 hid
      exact .inr ⟨rfl, .inl ((Nat.mod_eq_of_lt hdraws).symm.trans heq)⟩
    | register | insert | establish => exact .inl hid
    | _ => cases hid
  | handle i isReadable isWritable t t' o s' h =>
    cases h with
    | found hmem =>
      have hboth : i = id ∧ isWritable = true := by
        simp only [Thread.committed, Bool.and_eq_true, beq_iff_eq] at hid
        cases isReadable with
        | true => exact hid
        | false => simpa using hid
      obtain ⟨rfl, hwritable⟩ := hboth
      exact .inr ⟨rfl, .inr (hconcludes hmem hwritable)⟩
    | read =>
      simp only [Thread.committed, Bool.and_eq_true, beq_iff_eq] at hid
      exact .inr ⟨rfl, .inr (hid.1 ▸ hconcludes)⟩
    | nothing | handled | gone | close =>
      simp only [Thread.committed, Handle.committed_afterRead] at hid
      exact .inl hid
    | ended | failed | remove | uncount | deregister | refused | disconnect => exact .inl hid
    | data =>
      simp only [Thread.committed, Bool.and_eq_true, beq_iff_eq] at hid ⊢
      exact .inl ⟨hid.1, rfl⟩
    | missing | writable | written =>
      simp only [Thread.committed, Bool.and_eq_true] at hid
      cases hid.2
  | close => cases hid

end

structure Concluded (s : State) : Prop where
  disconnected : Balanced .onDisconnect s
  closed : Balanced .connectionClosed s
  quiet : ∀ id, (id, .onDisconnect) ∈ s.shared.calls → ∀ t ∈ s.threads, t.committed id = false
  ordered : Throughout NotAfterDisconnect s.shared.calls

section

variable {s s' : TcpServer} {t t' : Thread} {l l' : List Thread} {o : Choice} {id : ℕ}

theorem Balanced.act {callback : Callback} (h : Balanced callback ⟨s, l ++ t :: l'⟩)
    (hcallback : callback = .onDisconnect ∨ callback = .connectionClosed)
    (hconcludes : t.Concludes ⟨s, l ++ t :: l'⟩ o) (hact : Acts s t o s' t') :
    Balanced callback ⟨s', l ++ t' :: l'⟩ := by
  intro i
  have hbefore := h i
  have howed := owed_act hcallback hconcludes hact i
  simp only [Machine.total_append, Machine.total_cons] at hbefore ⊢
  rw [left_act hact, calls_act hact, List.map_append, List.count_append, List.count_append]
  omega

theorem Concluded.act (h : Concluded ⟨s, l ++ t :: l'⟩) (hplaced : Placed ⟨s, l ++ t :: l'⟩)
    (hdraws : t.DrawsNew s) (hconcludes : t.Concludes ⟨s, l ++ t :: l'⟩ o) (hact : Acts s t o s' t') :
    Concluded ⟨s', l ++ t' :: l'⟩ := by
  refine ⟨h.disconnected.act (.inl rfl) hconcludes hact,
    h.closed.act (.inr rfl) hconcludes hact, ?_, ?_⟩
  · intro i hi
    change (i, Callback.onDisconnect) ∈ s'.calls at hi
    rw [calls_act hact, List.mem_append] at hi
    have hbefore : ∀ t'' ∈ l ++ t :: l', t''.committed i = false := by
      rcases hi with hold | hnew
      · exact h.quiet i hold
      · exact concludes_of_makes (Option.mem_toList.1 hnew) hconcludes
    obtain ⟨hown, hrest⟩ := Machine.forall_threads_at.1 hbefore
    refine Machine.forall_threads_at.2 ⟨?_, hrest⟩
    by_contra hcommitted
    rcases committed_act hdraws hconcludes hact (eq_true_of_ne_false hcommitted) with ht | ⟨hmakes, hnew⟩
    · rw [hown] at ht
      cases ht
    · have hold : (i, Callback.onDisconnect) ∈ s.calls := by simpa [hmakes] using hi
      rcases hnew with hnext | hnot
      · have hcount : 0 < s.calls.count (i, .onDisconnect) := List.count_pos_iff.2 hold
        have hbalance : (s.left.map Prod.fst).count i = s.calls.count (i, .onDisconnect) + _ :=
          h.disconnected i
        have hnone : ¬ s.Left i := hplaced.not_left_of_next hnext.le
        apply hnone
        apply List.count_pos_iff.1
        omega
      · exact hnot hold
  · apply throughout_act hact h.ordered
    intro call hmakes hwork hcalled
    have hquiet := h.quiet call.1 hcalled t (by simp)
    rw [committed_of_makes hmakes hwork] at hquiet
    cases hquiet

end

theorem concluded_of_run {max : Option UInt64} {as : List Step} {s : State}
    (h : Run system.step Concluding (initial max) as s) : Concluded s := by
  refine invariant_of_run (I := Concluded) (J := Placed) h
    (fun as t ht => placed_of_run ht fun _ _ => Concluding.numbered) ?_ ?_ ?_
  · exact ⟨fun _ => rfl, fun _ => rfl, nofun, throughout_nil⟩
  · intro t input _ ht
    have howes : ∀ id callback, input.thread.owes id callback = 0 := by
      intro id callback
      cases input <;> cases callback <;> simp [Input.thread, Thread.owes, Handle.owes, Close.owes]
    have hcommitted : ∀ id, input.thread.committed id = false := by
      intro id
      cases input <;> simp [Input.thread, Thread.committed, Handle.committed]
    refine ⟨fun id => ?_, fun id => ?_, fun id hid t' ht' => ?_, ht.ordered⟩
    · simpa [howes] using ht.disconnected id
    · simpa [howes] using ht.closed id
    · rcases List.mem_append.1 ht' with ht' | ht'
      · exact ht.quiet id hid t' ht'
      · rw [List.mem_singleton.1 ht']
        exact hcommitted id
  · intro s l l' t o s' t' hplaced hs hok hact
    obtain ⟨hdraws, hconcludes⟩ := Machine.threadSteps_at.1 hok
    exact hs.act hplaced hdraws hconcludes hact

/-- In every run whose steps meet the condition, `on_disconnect` and
    `ConnectionClosed` are called once for each connection that leaves the map, by
    whoever removes it, and `on_data`, `on_writable` and `on_connect` are not called
    any more. -/
theorem disconnect_is_last {max : Option UInt64} {as : List Step} {s : State}
    (h : Run system.step Concluding (initial max) as s) :
    (∀ id, (s.shared.left.map Prod.fst).count id ≤ 1) ∧
    Balanced .onDisconnect s ∧ Balanced .connectionClosed s ∧
    Throughout NotAfterDisconnect s.shared.calls := by
  have hconcluded := concluded_of_run h
  exact ⟨(placed_of_run h fun _ _ => Concluding.numbered).count_left_le, hconcluded.disconnected, hconcluded.closed,
    hconcluded.ordered⟩

/-- A connection is accepted, its data is handled, and it ends. -/
def acceptedAndHandled : List Step :=
  [.env .listener, .act 0 (.accepted "peer"), .act 0 .go, .act 0 .go, .act 0 .go, .act 0 .go,
    .act 0 .go, .act 0 .go, .act 0 .go, .env (.event 1 true true), .act 1 .go, .act 1 .bytes,
    .act 1 .go, .act 1 .go, .act 1 .go, .act 1 .go, .env (.event 1 true false), .act 2 .go,
    .act 2 .endOfStream, .act 2 .go, .act 2 .go, .act 2 .go, .act 2 .go, .act 2 .go]

theorem disconnect_is_last_handled :
    ∃ s, Run system.step Concluding (initial none) acceptedAndHandled s ∧
      s.shared.left = [(1, .disconnect)] ∧
      (∀ id, (s.shared.left.map Prod.fst).count id ≤ 1) ∧
      Balanced .onDisconnect s ∧ Balanced .connectionClosed s ∧
      Throughout NotAfterDisconnect s.shared.calls := by
  obtain ⟨s, hrun, hleft⟩ : ∃ s, Run system.step Concluding (initial none) acceptedAndHandled s ∧
      s.shared.left = [(1, .disconnect)] := Run.exists_of_exec (by decide +kernel)
  exact ⟨s, hrun, hleft, disconnect_is_last hrun⟩

/-- One event reports the end of the stream and room to write: `on_writable` comes
    last. And a connection whose `on_connect` fails leaves without `on_disconnect`. -/
theorem disconnect_not_last :
    (∃ s, Run system.step Unrestricted (initial none)
        [.env .listener, .act 0 (.accepted "peer"), .act 0 .go, .act 0 .go, .act 0 .go,
          .act 0 .go, .act 0 .go, .act 0 .go, .act 0 .go, .env (.event 1 true true), .act 1 .go,
          .act 1 .endOfStream, .act 1 .go, .act 1 .go, .act 1 .go, .act 1 .go, .act 1 .go,
          .act 1 .go, .act 1 .go] s ∧
      s.shared.calls = [(1, .connectionEstablished "peer"), (1, .onConnect), (1, .connected),
        (1, .onDisconnect), (1, .connectionClosed), (1, .onWritable)] ∧
      ¬ Throughout NotAfterDisconnect s.shared.calls) ∧
    ∃ s, Run system.step Unrestricted (initial none)
        [.env .listener, .act 0 (.accepted "peer"), .act 0 .go, .act 0 .go, .act 0 .go,
          .act 0 .go, .act 0 .go, .act 0 .go, .act 0 (.failed "refused"), .act 0 .go, .act 0 .go,
          .act 0 .go] s ∧
      s.threads = [.accept .listening] ∧ (1, Exit.onConnectFailed) ∈ s.shared.left ∧
      s.shared.calls = [(1, .connectionEstablished "peer"), (1, .onConnect)] := by
  refine ⟨?_, Run.exists_of_exec (by decide +kernel)⟩
  obtain ⟨s, hrun, hcalls⟩ :
      ∃ s, Run system.step Unrestricted (initial none)
        [.env .listener, .act 0 (.accepted "peer"), .act 0 .go, .act 0 .go, .act 0 .go,
          .act 0 .go, .act 0 .go, .act 0 .go, .act 0 .go, .env (.event 1 true true), .act 1 .go,
          .act 1 .endOfStream, .act 1 .go, .act 1 .go, .act 1 .go, .act 1 .go, .act 1 .go,
          .act 1 .go, .act 1 .go] s ∧
      s.shared.calls = [(1, .connectionEstablished "peer"), (1, .onConnect), (1, .connected),
        (1, .onDisconnect), (1, .connectionClosed), (1, .onWritable)] :=
    Run.exists_of_exec (by decide +kernel)
  refine ⟨s, hrun, hcalls, fun hordered => ?_⟩
  exact hordered [(1, .connectionEstablished "peer"), (1, .onConnect), (1, .connected),
    (1, .onDisconnect), (1, .connectionClosed)] (1, .onWritable) [] hcalls trivial (by simp)

/-! ## `on_connect` comes first -/

/-- Bytes are read, an event that reports room to write is handled, and an entry is
    removed only after `on_connect` has returned `Ok`. -/
def Thread.Introduced (s : TcpServer) : Thread → Choice → Prop
  | .handle id _ isWritable .lookup, _ =>
    id ∈ s.registry → isWritable = true → (id, .connected) ∈ s.calls
  | .handle id _ _ .reading, .bytes => (id, .connected) ∈ s.calls
  | .handle id _ _ .removing, _ => id ∈ s.connections → (id, .connected) ∈ s.calls
  | .close id .removing, _ => id ∈ s.connections → (id, .connected) ∈ s.calls
  | _, _ => True

instance (s : TcpServer) (t : Thread) (o : Choice) : Decidable (t.Introduced s o) := by
  unfold Thread.Introduced
  split <;> infer_instance

def Introducing : State → Step → Prop :=
  Machine.ThreadSteps fun s t o => t.DrawsNew s.shared ∧ t.Introduced s.shared o

instance : DecidableRel Introducing := by unfold Introducing; infer_instance

/-- The thread may call, or is in a call of, `on_data`, `on_writable` or
    `on_disconnect`. -/
def Handle.engaged (isWritable : Bool) : Handle → Bool
  | .lookup => false
  | .reading => isWritable
  | .removing => isWritable
  | .closing => isWritable
  | .returned _ => false
  | _ => true

def Thread.engaged (id : ℕ) : Thread → Bool
  | .handle i _ isWritable t => i == id && t.engaged isWritable
  | .close i .deregistering => i == id
  | .close i .disconnecting => i == id
  | _ => false

/-- The connection that the accept routine has inserted and announces. -/
def Thread.announces : Thread → Option ℕ
  | .accept (.establishing id _) => some id
  | .accept (.connecting id) => some id
  | .accept (.inOnConnect id) => some id
  | _ => none

/-- The connection for which the thread is in a callback. -/
def Thread.inCallback : Thread → Option ℕ
  | .handle id _ _ .inOnData => some id
  | .handle id _ _ (.inOnWritable _) => some id
  | t => t.announces

def BelongsAfterConnect : Callback → Prop
  | .onData => True
  | .onWritable => True
  | .onDisconnect => True
  | _ => False

/-- The call is none of `on_data`, `on_writable` and `on_disconnect` unless
    `on_connect` has returned `Ok` for the connection. -/
def AfterConnected (before : List (ℕ × Callback)) (call : ℕ × Callback) : Prop :=
  BelongsAfterConnect call.2 → (call.1, .connected) ∈ before

section

variable {s s' : TcpServer} {t t' : Thread} {l l' : List Thread} {o : Choice} {id : ℕ}

@[simp] theorem Handle.engaged_afterRead (isWritable ended : Bool) :
    (afterRead isWritable ended).engaged isWritable = isWritable := by
  cases isWritable <;> rfl

theorem engaged_of_makes {call : ℕ × Callback} (h : t.makes o = some call)
    (hcall : BelongsAfterConnect call.2) : t.engaged call.1 = true := by
  unfold Thread.makes at h
  split at h <;> cases h <;> first | exact hcall.elim | simp [Thread.engaged, Handle.engaged]

/-- A thread engages itself after `on_connect`. -/
theorem engaged_act (hintroduced : t.Introduced s o) (h : Acts s t o s' t')
    (hid : t'.engaged id = true) : t.engaged id = true ∨ (id, .connected) ∈ s.calls := by
  cases h with
  | accept => cases hid
  | handle i isReadable isWritable t t' o s' h =>
    cases h with
    | found hmem =>
      have hboth : i = id ∧ isWritable = true := by
        simp only [Thread.engaged, Bool.and_eq_true, beq_iff_eq] at hid
        cases isReadable with
        | true => exact hid
        | false => simpa using hid
      obtain ⟨rfl, hwritable⟩ := hboth
      exact .inr (hintroduced hmem hwritable)
    | read =>
      simp only [Thread.engaged, Bool.and_eq_true, beq_iff_eq] at hid
      exact .inr (hid.1 ▸ hintroduced)
    | remove hmem =>
      simp only [Thread.engaged, Bool.and_eq_true, beq_iff_eq] at hid
      exact .inr (hid.1 ▸ hintroduced hmem)
    | nothing | gone | close =>
      simp only [Thread.engaged, Handle.engaged_afterRead] at hid
      exact .inl hid
    | ended => exact .inl hid
    | data | handled | failed | uncount | deregister | refused | disconnect | writable =>
      simp only [Thread.engaged, Bool.and_eq_true, beq_iff_eq] at hid ⊢
      exact .inl ⟨hid.1, rfl⟩
    | missing | written =>
      simp only [Thread.engaged, Bool.and_eq_true] at hid
      cases hid.2
  | close i t t' o s' h =>
    cases h with
    | remove hmem => exact .inr (beq_iff_eq.1 hid ▸ hintroduced hmem)
    | deregister | refused => exact .inl hid
    | gone | disconnect | close => cases hid

/-- A routine announces only a connection that it has inserted. -/
theorem announces_act (h : Acts s t o s' t') (hid : t'.announces = some id) :
    t.announces = some id ∨ id ∈ s'.connections := by
  cases h with
  | accept t t' o s' h =>
    cases h with
    | insert i peer =>
      cases hid
      exact .inr (Finset.mem_insert_self _ _)
    | establish | connect => exact .inl hid
    | _ => cases hid
  | handle => cases hid
  | close => cases hid

theorem announces_of_makes (h : t.makes o = some (id, .connected)) : t.announces = some id := by
  unfold Thread.makes at h
  split at h <;> cases h
  rfl

end

structure Introductory (s : State) : Prop where
  engaged : ∀ t ∈ s.threads, ∀ id, t.engaged id = true → (id, .connected) ∈ s.shared.calls
  announced : ∀ t ∈ s.threads, ∀ id, t.announces = some id → s.shared.Known id
  connected : ∀ id, (id, .connected) ∈ s.shared.calls → s.shared.Known id
  ordered : Throughout AfterConnected s.shared.calls

section

variable {s s' : TcpServer} {t t' : Thread} {l l' : List Thread} {o : Choice} {id : ℕ}

theorem Introductory.act (h : Introductory ⟨s, l ++ t :: l'⟩) (hintroduced : t.Introduced s o)
    (hact : Acts s t o s' t') : Introductory ⟨s', l ++ t' :: l'⟩ := by
  obtain ⟨hengaged, hengagedRest⟩ := Machine.forall_threads_at.1 h.engaged
  obtain ⟨hannounced, hannouncedRest⟩ := Machine.forall_threads_at.1 h.announced
  refine ⟨Machine.forall_threads_at.2 ⟨fun i hi => ?_, fun t'' ht'' i hi => ?_⟩,
    Machine.forall_threads_at.2 ⟨fun i hi => ?_, fun t'' ht'' i hi => ?_⟩, fun i hi => ?_, ?_⟩
  · apply mem_calls_of_act hact
    rcases engaged_act hintroduced hact hi with hbefore | hconnected
    · exact hengaged i hbefore
    · exact hconnected
  · exact mem_calls_of_act hact (hengagedRest t'' ht'' i hi)
  · rcases announces_act hact hi with hbefore | hmem
    · exact Known.act (hannounced i hbefore) hact
    · exact .inl hmem
  · exact Known.act (hannouncedRest t'' ht'' i hi) hact
  · change (i, Callback.connected) ∈ s'.calls at hi
    rw [calls_act hact, List.mem_append] at hi
    rcases hi with hold | hnew
    · exact Known.act (h.connected i hold) hact
    · exact Known.act (hannounced i (announces_of_makes (Option.mem_toList.1 hnew))) hact
  · apply throughout_act hact h.ordered
    intro call hmakes hcall
    exact hengaged call.1 (engaged_of_makes hmakes hcall)

end

theorem introductory_of_run {max : Option UInt64} {as : List Step} {s : State}
    (h : Run system.step Introducing (initial max) as s) : Introductory s := by
  refine invariant_of_run (I := Introductory) (J := fun _ => True) h (fun _ _ _ => trivial) ?_ ?_ ?_
  · exact ⟨nofun, nofun, nofun, throughout_nil⟩
  · intro t input _ ht
    have hengaged : ∀ id, input.thread.engaged id = false := by
      intro id
      cases input <;> simp [Input.thread, Thread.engaged, Handle.engaged]
    have hannounces : input.thread.announces = none := by cases input <;> rfl
    refine ⟨fun t' ht' id hid => ?_, fun t' ht' id hid => ?_, ht.connected, ht.ordered⟩
    · rcases List.mem_append.1 ht' with ht' | ht'
      · exact ht.engaged t' ht' id hid
      · rw [List.mem_singleton.1 ht', hengaged id] at hid
        cases hid
    · rcases List.mem_append.1 ht' with ht' | ht'
      · exact ht.announced t' ht' id hid
      · rw [List.mem_singleton.1 ht', hannounces] at hid
        cases hid
  · exact fun s l l' t o s' t' _ hs hok hact => hs.act (Machine.threadSteps_at.1 hok).2 hact

/-- A connection for which a thread is in a callback has been inserted. -/
theorem Introductory.known {s : State} {t : Thread} {id : ℕ} (h : Introductory s)
    (ht : t ∈ s.threads) (hid : t.inCallback = some id) : s.shared.Known id := by
  have hhandle : t.announces = some id ∨ t.engaged id = true := by
    unfold Thread.inCallback at hid
    split at hid
    · cases hid
      exact .inr (by simp [Thread.engaged, Handle.engaged])
    · cases hid
      exact .inr (by simp [Thread.engaged, Handle.engaged])
    · exact .inl hid
  rcases hhandle with hannounces | hengaged
  · exact h.announced t ht id hannounces
  · exact h.connected id (h.engaged t ht id hengaged)

end Server
