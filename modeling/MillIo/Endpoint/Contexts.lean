-- SUMMARY: The locks of a `ServerContext`: which frames have them for readers, which write to them, and what keeps the two apart.
import MillIo.Endpoint.Held

/-!
# The locks of contexts

An operation that goes through the context of a server has its locks for readers until it
returns, over the callbacks that it makes. `start` writes to them. A writer that waits
stops the readers that come after it, and a callback may come back to a context that its
thread reads. As long as no start overlaps with a call through the context of its server,
nobody waits for these locks.
-/

namespace Reentry

open Interleaving

/-- The context that the call goes through. -/
def Frame.reads : Frame → Option ℕ
  | sendTo server _ _ => some server
  | broadcast server _ => some server
  | closeConnection server _ _ => some server
  | _ => none

/-- The context that the call has still to write to. -/
def Frame.writes : Frame → Option ℕ
  | startServer server .begun => some server
  | startServer server .haveServer => some server
  | _ => none

/-- One of the calls goes through the context that the other one has to write to. -/
def Frame.Clashes (f g : Frame) : Prop :=
  (f.writes ≠ none ∧ f.writes = g.reads) ∨ (g.writes ≠ none ∧ g.writes = f.reads)

instance : DecidableRel Frame.Clashes := fun _ _ => inferInstanceAs (Decidable (_ ∨ _))

/-- The frame goes on with the same call, or has written what it had to. -/
structure Frame.Continues (f f' : Frame) : Prop where
  reads : f'.reads = f.reads
  writes : f'.writes = f.writes ∨ f'.writes = none

/-- What comes after a frame clashes with no more than the frame did. -/
theorem Frame.Continues.clashes {f f' g : Frame} (h : f.Continues f') (hclash : f'.Clashes g) :
    f.Clashes g := by
  obtain ⟨hreads, hwrites⟩ := h
  rcases hclash with ⟨hsome, heq⟩ | ⟨hsome, heq⟩
  · have hsame := hwrites.resolve_right hsome
    exact .inl (hsame ▸ ⟨hsome, heq⟩)
  · exact .inr ⟨hsome, heq.trans hreads⟩

/-! ## The functions -/

section

variable {f : Frame}

theorem leads_andThen {k : Data → Data × Frame} (h : ∀ s, f.Continues (k s).2) :
    (andThen k).Leads f.Continues := by
  intro s o s' f' hnext
  cases o <;> simp only [reduceCtorEq] at hnext
  have hsame := h s
  rwa [Option.some.inj hnext] at hsame

theorem leads_either {ok failed : Frame} (hok : f.Continues ok) (hfailed : f.Continues failed) :
    (either ok failed).Leads f.Continues := by
  intro s o s' f' hnext
  cases o <;> simp only [reduceCtorEq] at hnext <;> cases hnext
  · exact hok
  · exact hfailed

theorem leads_read {g : ReadResult → Frame} (h : ∀ r, f.Continues (g r)) :
    (read g).Leads f.Continues := by
  intro s o s' f' hnext
  cases o <;> simp only [reduceCtorEq] at hnext <;> cases hnext <;> exact h _

end

theorem Accept.leads (server : ℕ) (phase : Accept) :
    (phase.instr server).Leads (Frame.accept server phase).Continues := by
  have hnext : ∀ phase', (Frame.accept server phase).Continues (.accept server phase') :=
    fun _ => ⟨rfl, .inl rfl⟩
  cases phase with
  | accepting =>
    intro s o s' f' hnext'
    cases o <;> simp only [reduceCtorEq] at hnext' <;> cases hnext' <;> exact hnext _
  | begun isReadable | drawing | inserting id => exact leads_andThen fun s => hnext _
  | counting | configuring | upgrading id | inRegister id => exact leads_either (hnext _) (hnext _)
  | removing id =>
    refine leads_andThen fun s => ?_
    split <;> exact hnext _
  | refused | notConfigured | eventLoopGone | notRegistered id | establishing id | connecting id
  | notConnected id | notAccepted => exact ⟨hnext _, hnext _⟩
  | listening | registering id | removed id | backingOut id | registered id | deregistering id
  | continuing | breaking => exact hnext _
  | returned => trivial

theorem Handle.leads (server id : ℕ) (isReadable isWritable : Bool) (phase : Handle) :
    (phase.instr (.handle server id isReadable isWritable) server id isReadable isWritable).Leads
      (Frame.handle server id isReadable isWritable phase).Continues := by
  have hnext : ∀ phase', (Frame.handle server id isReadable isWritable phase).Continues
      (.handle server id isReadable isWritable phase') := fun _ => ⟨rfl, .inl rfl⟩
  cases phase with
  | begun | haveHandledRead => exact leads_andThen fun s => hnext _
  | inRead => exact leads_read fun r => hnext (haveRead r)
  | disconnecting =>
    refine leads_andThen fun s => ?_
    split <;> exact hnext _
  | removed => exact leads_either (hnext _) (hnext _)
  | data | notHandled | notRead | notifying | notNotified | closed | writable | notWritten =>
    exact ⟨hnext _, hnext _⟩
  | reading | lockingStream | haveRead result | deregistering => exact hnext _
  | returned => trivial

theorem ClientHandle.leads (client : ℕ) (isReadable isWritable : Bool) (phase : ClientHandle) :
    (phase.instr (.clientHandle client isReadable isWritable) client isReadable isWritable).Leads
      (Frame.clientHandle client isReadable isWritable phase).Continues := by
  have hnext : ∀ phase', (Frame.clientHandle client isReadable isWritable phase).Continues
      (.clientHandle client isReadable isWritable phase') := fun _ => ⟨rfl, .inl rfl⟩
  cases phase with
  | begun | haveLocked | dropping | haveHandledRead => exact leads_andThen fun s => hnext _
  | inRead => exact leads_read fun r => hnext (haveRead r)
  | data | notHandled | notRead | closed | notifying | notNotified | writable | notWritten =>
    exact ⟨hnext _, hnext _⟩
  | reading | disconnecting | haveRead result | noStream | disconnected => exact hnext _
  | returned => trivial

theorem ServerStart.leads (server : ℕ) (phase : ServerStart) :
    (phase.instr server).Leads (Frame.startServer server phase).Continues := by
  cases phase with
  | begun => exact leads_andThen fun s => ⟨rfl, .inl rfl⟩
  | haveServer => exact leads_andThen fun s => ⟨rfl, .inr rfl⟩
  | haveEventLoop | registering => exact ⟨rfl, .inl rfl⟩
  | returned => trivial

theorem ClientStart.leads (client : ℕ) (phase : ClientStart) :
    (phase.instr client).Leads (Frame.startClient client phase).Continues := by
  have hnext : ∀ phase', (Frame.startClient client phase).Continues (.startClient client phase') :=
    fun _ => ⟨rfl, .inl rfl⟩
  cases phase with
  | registering =>
    intro s o s' f' hnext'
    cases o <;> simp only [reduceCtorEq] at hnext' <;> cases hnext' <;> exact hnext _
  | connecting => exact ⟨hnext _, hnext _⟩
  | begun | leaving => exact hnext _
  | returned => trivial

theorem SendTo.leads (server id : ℕ) (phase : SendTo) :
    (phase.instr server id).Leads (Frame.sendTo server id phase).Continues := by
  have hnext : ∀ phase', (Frame.sendTo server id phase).Continues (.sendTo server id phase') :=
    fun _ => ⟨rfl, .inl rfl⟩
  cases phase with
  | begun | getting => exact leads_andThen fun s => hnext _
  | found | writing => exact hnext _
  | returned => trivial

theorem Broadcast.leads (server : ℕ) (phase : Broadcast) :
    (phase.instr server).Leads (Frame.broadcast server phase).Continues := by
  have hnext : ∀ phase', (Frame.broadcast server phase).Continues (.broadcast server phase') :=
    fun _ => ⟨rfl, .inl rfl⟩
  cases phase with
  | begun => exact leads_andThen fun s => hnext _
  | iterating =>
    intro s o s' f' hnext'
    cases o <;> simp only [reduceCtorEq] at hnext'
    · cases hnext'
      exact hnext _
    · split at hnext' <;> cases hnext'
      exact hnext _
  | writing id => exact leads_either (hnext _) (hnext _)
  | notWritten id => exact ⟨hnext _, hnext _⟩
  | next id | written id => exact hnext _
  | returned => trivial

theorem CloseConnection.leads (server id : ℕ) (phase : CloseConnection) :
    (phase.instr server id).Leads (Frame.closeConnection server id phase).Continues := by
  have hnext : ∀ phase', (Frame.closeConnection server id phase).Continues
      (.closeConnection server id phase') := fun _ => ⟨rfl, .inl rfl⟩
  cases phase with
  | begun | haveServer => exact leads_andThen fun s => hnext _
  | removing =>
    refine leads_andThen fun s => ?_
    split <;> exact hnext _
  | notifying | notNotified | closed => exact ⟨hnext _, hnext _⟩
  | removed | leaving => exact hnext _
  | returned => trivial

theorem ClientDisconnect.leads (client : ℕ) (phase : ClientDisconnect) :
    (phase.instr client).Leads (Frame.disconnect client phase).Continues := by
  have hnext : ∀ phase', (Frame.disconnect client phase).Continues (.disconnect client phase') :=
    fun _ => ⟨rfl, .inl rfl⟩
  cases phase with
  | dropping => exact leads_andThen fun s => hnext _
  | notifying => exact ⟨hnext _, hnext _⟩
  | begun | dropped => exact hnext _
  | returned => trivial

/-- Every frame goes on with the call that it is of. -/
theorem Frame.leads (f : Frame) : f.instr.Leads f.Continues := by
  cases f with
  | accept server phase => exact phase.leads server
  | handle server id isReadable isWritable phase => exact phase.leads server id isReadable isWritable
  | clientHandle client isReadable isWritable phase => exact phase.leads client isReadable isWritable
  | startServer server phase => exact phase.leads server
  | startClient client phase => exact phase.leads client
  | sendTo server id phase => exact phase.leads server id
  | broadcast server phase => exact phase.leads server
  | closeConnection server id phase => exact phase.leads server id
  | disconnect client phase => exact phase.leads client
  | localAddr server phase | send client phase =>
    cases phase with
    | begun | locked => exact ⟨rfl, .inl rfl⟩
    | returned => trivial

/-! ## Apart for good -/

theorem Frame.Clashes.symm {f g : Frame} (h : f.Clashes g) : g.Clashes f := Or.symm h

/-- No call both reads and writes. -/
theorem Frame.not_clashes_self (f : Frame) : ¬ f.Clashes f := by
  have hself : f.writes ≠ none → f.writes ≠ f.reads := by
    cases f with
    | startServer server phase => cases phase <;> simp [writes, reads]
    | _ => simp [writes]
  rintro (⟨hsome, heq⟩ | ⟨hsome, heq⟩) <;> exact hself hsome heq

theorem code_inherits : code.Inherits Frame.Clashes where
  symm _ _ := Frame.Clashes.symm
  irrefl := Frame.not_clashes_self
  leads f := f.leads.mono fun _ h _ => h.clashes

end Reentry
