-- SUMMARY: Sends of any threads on one non-blocking stream: `TcpServer::send_to`, `TcpServer::broadcast` and `TcpClient::send`.
import MillIo.Rpc.Reassembly
import MillIo.Interleaving.Machine

/-!
# Sending on a stream

All three take the lock of the stream and call `write_all`, which writes until the
socket has taken all bytes, tries again when it is interrupted, and otherwise ends
with the first error. What the socket takes of each write is left open. `send_to`
and `send` return the error, `broadcast` reports it to `on_error` and goes on with
the next connection.
-/

namespace Sending

open Interleaving Protocol

inductive Sender
  | sendTo
  | broadcast
  | client
  deriving DecidableEq

inductive ErrorKind
  | wouldBlock
  | writeZero
  | other
  deriving DecidableEq

/-- A send by what it has still to do. -/
inductive Send
  | entering (sender : Sender) (data : List UInt8)
  /-- In `write_all`, with the lock. -/
  | writing (sender : Sender) (data : List UInt8) (written : ℕ)
  | succeeded (sender : Sender) (data : List UInt8)
  | failed (sender : Sender) (data : List UInt8) (written : ℕ) (error : ErrorKind)
  deriving DecidableEq

/-- One stream: the bytes its socket has taken, its lock, and the data of the
    sends that have succeeded, in the order in which they had the lock. -/
structure Stream where
  wire : List UInt8
  locked : Bool
  succeeded : List (List UInt8)

/-- What the socket does at a write. -/
inductive Choice
  | lock
  | accept (n : ℕ)
  | interrupted
  | error (kind : ErrorKind)
  deriving DecidableEq

/-- `write_all` returns when no bytes are left to write. -/
def proceed (s : Stream) : Send → Choice → Option (Stream × Send)
  | .entering sender data, .lock =>
    if s.locked then none
    else if data.isEmpty then
      some ({ s with succeeded := s.succeeded ++ [data] }, .succeeded sender data)
    else some ({ s with locked := true }, .writing sender data 0)
  | .writing sender data written, .accept n =>
    if data.length < written + n then none
    else if n = 0 then
      some ({ s with locked := false }, .failed sender data written .writeZero)
    else if written + n = data.length then
      some (⟨s.wire ++ (data.drop written).take n, false, s.succeeded ++ [data]⟩,
        .succeeded sender data)
    else
      some ({ s with wire := s.wire ++ (data.drop written).take n },
        .writing sender data (written + n))
  | .writing sender data written, .interrupted => some (s, .writing sender data written)
  | .writing sender data written, .error kind =>
    some ({ s with locked := false }, .failed sender data written kind)
  | _, _ => none

/-- A thread sends. -/
structure Call where
  sender : Sender
  data : List UInt8
  deriving DecidableEq

def system : Machine Stream Send Call Choice where
  env s call := some (s, [.entering call.sender call.data])
  act := proceed

abbrev State := Config Stream Send

abbrev Step := Action Call Choice

def initial : State := ⟨⟨[], false, []⟩, []⟩

/-- What the send in progress has written. -/
def Send.part : Send → List UInt8
  | .writing _ data written => data.take written
  | _ => []

def inProgress (ts : List Send) : List UInt8 := ts.flatMap Send.part

/-- What a failed send has left on the wire. -/
def Send.debris : Send → ℕ
  | .failed _ _ written _ => written
  | _ => 0

/-- A write fails when an earlier write of the same send has taken some bytes. -/
def truncates (s : State) : Step → Bool
  | .act i (.error _) | .act i (.accept 0) =>
    match s.threads[i]? with
    | some (.writing _ _ written) => written != 0
    | _ => false
  | _ => false

/-- No write fails when an earlier write of the same send has taken some bytes. -/
def Whole (s : State) (a : Step) : Prop := truncates s a = false

instance : DecidableRel Whole := fun s a => inferInstanceAs (Decidable (truncates s a = false))

/-! ## What a send can do -/

inductive Acts (s : Stream) : Send → Stream → Send → Prop
  | enter (sender : Sender) (data : List UInt8) : s.locked = false → data ≠ [] →
      Acts s (.entering sender data) { s with locked := true } (.writing sender data 0)
  | nothing (sender : Sender) :
      Acts s (.entering sender []) { s with succeeded := s.succeeded ++ [[]] }
        (.succeeded sender [])
  | write (sender : Sender) (data : List UInt8) (written n : ℕ) : written + n < data.length →
      Acts s (.writing sender data written)
        { s with wire := s.wire ++ (data.drop written).take n } (.writing sender data (written + n))
  | finish (sender : Sender) (data : List UInt8) (written n : ℕ) : written + n = data.length →
      Acts s (.writing sender data written)
        ⟨s.wire ++ (data.drop written).take n, false, s.succeeded ++ [data]⟩
        (.succeeded sender data)
  | fail (sender : Sender) (data : List UInt8) (written : ℕ) (kind : ErrorKind) :
      Acts s (.writing sender data written) { s with locked := false }
        (.failed sender data written kind)

theorem acts_of_proceed {s s' : Stream} {t t' : Send} {o : Choice}
    (hwritten : ∀ sender data written, t = .writing sender data written → written < data.length)
    (h : proceed s t o = some (s', t')) : Acts s t s' t' := by
  unfold proceed at h
  split at h
  · rename_i sender data
    split at h
    · cases h
    · rename_i hlocked
      split at h
      · rename_i hempty
        cases h
        rw [List.isEmpty_iff.1 hempty]
        exact .nothing sender
      · rename_i hempty
        cases h
        exact .enter sender data (by simpa using hlocked) (by simpa using hempty)
  · rename_i sender data written n
    split at h
    · cases h
    · rename_i hle
      split at h
      · cases h
        exact .fail _ _ _ _
      · split at h
        · rename_i heq
          cases h
          exact .finish _ _ _ _ heq
        · cases h
          exact .write _ _ _ _ (by omega)
  · rename_i sender data written
    cases h
    simpa using Acts.write (s := s) sender data written 0 (hwritten _ _ _ rfl)
  · cases h
    exact .fail _ _ _ _
  · cases h

/-! ## The bytes on the wire -/

/-- One if the send has the lock. -/
def Send.holds : Send → ℕ
  | .writing _ _ _ => 1
  | _ => 0

/-- Every byte on the wire is accounted for, and at most one send has the lock. -/
structure Accounted (s : State) : Prop where
  written : ∀ t ∈ s.threads, ∀ sender data n, t = .writing sender data n → n < data.length
  holder : Machine.total Send.holds s.threads = s.shared.locked.toNat
  length : s.shared.wire.length = s.shared.succeeded.flatten.length +
    (inProgress s.threads).length + Machine.total Send.debris s.threads
  bytes : Machine.total Send.debris s.threads = 0 →
    s.shared.wire = s.shared.succeeded.flatten ++ inProgress s.threads

section Steps

variable {s s' : Stream} {t t' : Send} {l l' : List Send}

theorem inProgress_at : inProgress (l ++ t :: l') = inProgress l ++ (t.part ++ inProgress l') := by
  simp [inProgress]

theorem part_eq_nil (h : t.holds = 0) : t.part = [] := by
  cases t <;> simp_all [Send.holds, Send.part]

theorem inProgress_eq_nil {ts : List Send} (h : Machine.total Send.holds ts = 0) :
    inProgress ts = [] := by
  rw [inProgress, List.flatMap_eq_nil_iff]
  intro t ht
  have hle := Machine.le_total (w := Send.holds) ht
  exact part_eq_nil (by omega)

/-- The send that has the lock is the only one in progress. -/
theorem Accounted.alone (h : Accounted ⟨s, l ++ t :: l'⟩) (ht : t.holds = 1) :
    Machine.total Send.holds l = 0 ∧ Machine.total Send.holds l' = 0 ∧ s.locked = true := by
  have hholder := h.holder
  simp only [Machine.total_append, Machine.total_cons, ht] at hholder
  cases hlocked : s.locked with
  | true =>
    rw [hlocked] at hholder
    simp only [Bool.toNat_true] at hholder
    exact ⟨by omega, by omega, rfl⟩
  | false =>
    rw [hlocked] at hholder
    simp only [Bool.toNat_false] at hholder
    omega

/-- The step of the send that has the lock: the bytes of all others stay as they
    are. -/
theorem Accounted.hold (h : Accounted ⟨s, l ++ t :: l'⟩) (ht : t.holds = 1) (hnone : t.debris = 0)
    (hwritten : ∀ sender data n, t' = .writing sender data n → n < data.length)
    (hlocked : s'.locked.toNat = t'.holds)
    (hlength : s'.wire.length + s.succeeded.flatten.length + t.part.length =
      s.wire.length + s'.succeeded.flatten.length + t'.part.length + t'.debris)
    (hbytes : t'.debris = 0 → s.wire = s.succeeded.flatten ++ t.part →
      s'.wire = s'.succeeded.flatten ++ t'.part) :
    Accounted ⟨s', l ++ t' :: l'⟩ := by
  obtain ⟨hl, hl', -⟩ := h.alone ht
  have hlengthOld := h.length
  have hbytesOld := h.bytes
  simp only [inProgress_at, inProgress_eq_nil hl, inProgress_eq_nil hl', Machine.total_append,
    Machine.total_cons, hnone, List.nil_append, List.append_nil] at hlengthOld hbytesOld
  refine ⟨Machine.forall_threads_at.2 ⟨hwritten, (Machine.forall_threads_at.1 h.written).2⟩,
    ?_, ?_, ?_⟩
  · simp [Machine.total_append, Machine.total_cons, hl, hl', hlocked]
  · simp only [inProgress_at, inProgress_eq_nil hl, inProgress_eq_nil hl', Machine.total_append,
      Machine.total_cons, List.nil_append, List.append_nil]
    omega
  · intro hzero
    simp only [Machine.total_append, Machine.total_cons] at hzero
    simp only [inProgress_at, inProgress_eq_nil hl, inProgress_eq_nil hl', List.nil_append,
      List.append_nil]
    exact hbytes (by omega) (hbytesOld (by omega))

/-- The step of a send that has written nothing yet. -/
theorem Accounted.begin (h : Accounted ⟨s, l ++ t :: l'⟩) (hpart : t.part = [] ∧ t'.part = [])
    (hdebris : t.debris = 0 ∧ t'.debris = 0) (hwire : s'.wire = s.wire)
    (hsucceeded : s'.succeeded.flatten = s.succeeded.flatten)
    (hwritten : ∀ sender data n, t' = .writing sender data n → n < data.length)
    (hlocked : s'.locked.toNat + t.holds = s.locked.toNat + t'.holds) :
    Accounted ⟨s', l ++ t' :: l'⟩ := by
  have hholder := h.holder
  have hlength := h.length
  have hbytes := h.bytes
  simp only [inProgress_at, Machine.total_append, Machine.total_cons, hpart, hdebris]
    at hholder hlength hbytes
  refine ⟨Machine.forall_threads_at.2 ⟨hwritten, (Machine.forall_threads_at.1 h.written).2⟩,
    ?_, ?_, ?_⟩
  · simp only [Machine.total_append, Machine.total_cons]
    omega
  · simpa only [inProgress_at, Machine.total_append, Machine.total_cons, hpart, hdebris, hwire,
      hsucceeded] using hlength
  · simpa only [inProgress_at, Machine.total_append, Machine.total_cons, hpart, hdebris, hwire,
      hsucceeded] using hbytes

theorem Accounted.act {o : Choice} (h : Accounted ⟨s, l ++ t :: l'⟩)
    (hact : proceed s t o = some (s', t')) : Accounted ⟨s', l ++ t' :: l'⟩ := by
  obtain ⟨hown, -⟩ := Machine.forall_threads_at.1 h.written
  cases acts_of_proceed hown hact with
  | enter sender data hlocked hne =>
    refine h.begin ⟨rfl, rfl⟩ ⟨rfl, rfl⟩ rfl rfl ?_ (by simp [hlocked, Send.holds])
    intro sender' data' n heq
    cases heq
    exact List.length_pos_iff.2 hne
  | nothing sender => exact h.begin ⟨rfl, rfl⟩ ⟨rfl, rfl⟩ rfl (by simp) nofun rfl
  | write sender data written n hlt =>
    obtain ⟨-, -, hlocked⟩ := h.alone rfl
    have htake : data.take (written + n) = data.take written ++ (data.drop written).take n :=
      List.take_add
    refine h.hold rfl rfl ?_ (by simp [hlocked, Send.holds]) ?_ ?_
    · intro sender' data' n' heq
      cases heq
      exact hlt
    · simp only [Send.part, Send.debris, htake, List.length_append]
      omega
    · intro _ hwire
      simp only [Send.part, htake, hwire, List.append_assoc]
  | finish sender data written n heq =>
    have hall : data.take written ++ (data.drop written).take n = data := by
      rw [← List.take_add, heq, List.take_length]
    have hlen := congrArg List.length hall
    rw [List.length_append] at hlen
    refine h.hold rfl rfl nofun rfl ?_ ?_
    · simp only [Send.part, Send.debris, List.length_append, List.flatten_append,
        List.flatten_singleton, List.length_nil]
      omega
    · intro _ hwire
      simp only [Send.part, List.append_nil, hwire, List.append_assoc, hall, List.flatten_append,
        List.flatten_singleton]
  | fail sender data written kind =>
    have hlen : (data.take written).length = written :=
      List.length_take_of_le (hown sender data written rfl).le
    refine h.hold rfl rfl nofun rfl ?_ ?_
    · simp only [Send.part, Send.debris, List.length_nil]
      omega
    · intro hnone hwire
      have hzero : written = 0 := hnone
      simpa only [Send.part, hzero, List.take_zero] using hwire

end Steps

/-! ## Whole runs -/

section Runs

variable {s u : State} {a : Step} {ok : State → Step → Prop} {as : List Step}

theorem Accounted.enter (h : Accounted s) (call : Call) :
    Accounted ⟨s.shared, s.threads ++ [.entering call.sender call.data]⟩ := by
  refine ⟨?_, ?_, ?_, ?_⟩
  · intro t ht sender data n heq
    rcases List.mem_append.1 ht with ht | ht
    · exact h.written t ht sender data n heq
    · rw [List.mem_singleton.1 ht] at heq
      cases heq
  · simpa [Send.holds] using h.holder
  · simpa [inProgress, Send.part, Send.debris] using h.length
  · simpa [inProgress, Send.part, Send.debris] using h.bytes

theorem Accounted.step (h : Accounted s) (hs : system.step s a = some u) : Accounted u := by
  rcases Machine.step_cases hs with ⟨call, r, rfl, hr, rfl⟩ | ⟨o, t, ⟨s', t'⟩, l, l', rfl, hts, hr, rfl⟩
  · cases hr
    exact h.enter call
  · obtain ⟨st, ts⟩ := s
    subst hts
    exact h.act hr

theorem accounted_of_run (h : Run system.step ok initial as s) : Accounted s :=
  h.invariant ⟨by simp [initial], rfl, rfl, fun _ => rfl⟩ fun _ _ _ ht _ hs => ht.step hs

/-- A send that fails leaves on the wire what it has written, and all others leave
    nothing. -/
theorem debris_step {st st' : Stream} {t t' : Send} {o : Choice} (l l' : List Send)
    (h : proceed st t o = some (st', t')) :
    t.debris = 0 ∧ (t'.debris = 0 ↔ Whole ⟨st, l ++ t :: l'⟩ (.act l.length o)) := by
  unfold proceed at h
  split at h
  · split at h
    · cases h
    · split at h <;> cases h <;> simp [Send.debris, Whole, truncates]
  · rename_i sender data written n
    split at h
    · cases h
    · split at h
      · rename_i hzero
        cases h
        subst hzero
        simp [Send.debris, Whole, truncates]
      · rename_i hzero
        obtain ⟨m, rfl⟩ := Nat.exists_eq_succ_of_ne_zero hzero
        split at h <;> cases h <;> simp [Send.debris, Whole, truncates]
  · cases h
    simp [Send.debris, Whole, truncates]
  · cases h
    simp [Send.debris, Whole, truncates]
  · cases h

theorem debris_eq_zero_iff (h : Run system.step Unrestricted initial as s) :
    Machine.total Send.debris s.threads = 0 ↔ Run system.step Whole initial as s := by
  constructor
  · intro hzero
    induction h with
    | refl => exact .refl
    | @snoc as s u a hrun _ hs ih =>
      rcases Machine.step_cases hs with
        ⟨call, r, rfl, hr, rfl⟩ | ⟨o, t, ⟨st', t'⟩, l, l', rfl, hts, hr, rfl⟩
      · cases hr
        have hprev := ih (by simpa [Send.debris] using hzero)
        exact hprev.snoc rfl hs
      · obtain ⟨st, ts⟩ := s
        subst hts
        obtain ⟨hown, hwhole⟩ := debris_step l l' hr
        simp only [Machine.total_append, Machine.total_cons] at hzero
        have hprev := ih (by simp only [Machine.total_append, Machine.total_cons]; omega)
        exact hprev.snoc (hwhole.1 (by omega)) hs
  · intro hrun
    refine hrun.invariant (I := fun s => Machine.total Send.debris s.threads = 0) rfl ?_
    intro s a u hzero hwhole hs
    rcases Machine.step_cases hs with
      ⟨call, r, rfl, hr, rfl⟩ | ⟨o, t, ⟨st', t'⟩, l, l', rfl, hts, hr, rfl⟩
    · cases hr
      simpa [Send.debris] using hzero
    · obtain ⟨st, ts⟩ := s
      subst hts
      obtain ⟨-, hiff⟩ := debris_step l l' hr
      simp only [Machine.total_append, Machine.total_cons] at hzero ⊢
      have hown := hiff.2 hwhole
      omega

/-! ## What the peer parses -/

/-- The data of every send encodes a well-formed frame. -/
def Framed (as : List Step) : Prop :=
  ∀ call, Action.env call ∈ as → ∃ f : Frame, f.WellFormed ∧ call.data = f.encode

def Send.data : Send → List UInt8
  | .entering _ data => data
  | .writing _ data _ => data
  | .succeeded _ data => data
  | .failed _ data _ _ => data

theorem data_of_proceed {st st' : Stream} {t t' : Send} {o : Choice}
    (h : proceed st t o = some (st', t')) :
    t'.data = t.data ∧ ∀ data ∈ st'.succeeded, data ∈ st.succeeded ∨ data = t.data := by
  unfold proceed at h
  split at h
  · split at h
    · cases h
    · split at h <;> cases h <;> simp [Send.data]
      exact fun data => .inl
  · split at h
    · cases h
    · split at h
      · cases h
        exact ⟨rfl, fun data => .inl⟩
      · split at h <;> cases h <;> simp [Send.data]
        exact fun data => .inl
  · cases h
    exact ⟨rfl, fun data => .inl⟩
  · cases h
    exact ⟨rfl, fun data => .inl⟩
  · cases h

/-- What is sent is the data of some call. -/
theorem data_of_run {P : List UInt8 → Prop} (h : Run system.step ok initial as s)
    (hP : ∀ call, Action.env call ∈ as → P call.data) :
    (∀ t ∈ s.threads, P t.data) ∧ ∀ data ∈ s.shared.succeeded, P data := by
  induction h with
  | refl => simp [initial]
  | @snoc as s u a _ _ hs ih =>
    obtain ⟨hthreads, hsucceeded⟩ := ih fun call hcall => hP call (List.mem_append_left _ hcall)
    rcases Machine.step_cases hs with
      ⟨call, r, rfl, hr, rfl⟩ | ⟨o, t, ⟨st', t'⟩, l, l', rfl, hts, hr, rfl⟩
    · cases hr
      refine ⟨fun t ht => ?_, hsucceeded⟩
      rcases List.mem_append.1 ht with ht | ht
      · exact hthreads t ht
      · rw [List.mem_singleton.1 ht]
        exact hP call (by simp)
    · obtain ⟨hdata, hnew⟩ := data_of_proceed hr
      rw [hts] at hthreads
      obtain ⟨hown, hrest⟩ := Machine.forall_threads_at.1 hthreads
      refine ⟨Machine.forall_threads_at.2 ⟨hdata ▸ hown, hrest⟩, fun data hmem => ?_⟩
      rcases hnew data hmem with hold | rfl
      · exact hsucceeded data hold
      · exact hown

theorem Accounted.inProgress_cases (h : Accounted s) : inProgress s.threads = [] ∨
    ∃ t ∈ s.threads, ∃ n, n < t.data.length ∧ inProgress s.threads = t.data.take n := by
  by_cases hidle : ∀ t ∈ s.threads, t.part = []
  · exact .inl (List.flatMap_eq_nil_iff.2 hidle)
  · push Not at hidle
    obtain ⟨t, ht, hpart⟩ := hidle
    obtain ⟨st, ts⟩ := s
    obtain ⟨l, l', rfl⟩ := List.append_of_mem ht
    cases t with
    | writing sender data n =>
      obtain ⟨hl, hl', -⟩ := h.alone rfl
      refine .inr ⟨_, ht, n, h.written _ ht sender data n rfl, ?_⟩
      simp [inProgress_at, inProgress_eq_nil hl, inProgress_eq_nil hl', Send.part, Send.data]
    | entering => exact absurd rfl hpart
    | succeeded => exact absurd rfl hpart
    | failed => exact absurd rfl hpart

theorem exists_frames {datas : List (List UInt8)}
    (h : ∀ data ∈ datas, ∃ f : Frame, f.WellFormed ∧ data = f.encode) :
    ∃ frames : List Frame, (∀ f ∈ frames, f.WellFormed) ∧ datas = frames.map Frame.encode := by
  induction datas with
  | nil => exact ⟨[], by simp, rfl⟩
  | cons data datas ih =>
    obtain ⟨f, hf, rfl⟩ := h data (by simp)
    obtain ⟨frames, hframes, rfl⟩ := ih fun data hdata => h data (by simp [hdata])
    exact ⟨f :: frames, by simpa using ⟨hf, hframes⟩, rfl⟩

theorem parse_wire (h : Run system.step ok initial as s) (hframed : Framed as)
    (hwire : s.shared.wire = s.shared.succeeded.flatten ++ inProgress s.threads) :
    ∃ frames : List Frame, s.shared.succeeded = frames.map Frame.encode ∧
      parseFrames s.shared.wire = .ok (frames, (encodeAll frames).length) := by
  obtain ⟨hthreads, hsucceeded⟩ :=
    data_of_run (P := fun data => ∃ f : Frame, f.WellFormed ∧ data = f.encode) h hframed
  obtain ⟨frames, hwf, hencode⟩ := exists_frames hsucceeded
  refine ⟨frames, hencode, ?_⟩
  have hmore : look (inProgress s.threads) = .more := by
    rcases (accounted_of_run h).inProgress_cases with hidle | ⟨t, ht, n, hlt, heq⟩
    · rw [hidle]
      rfl
    · obtain ⟨f, hf, hdata⟩ := hthreads t ht
      rw [heq, hdata]
      rw [hdata] at hlt
      exact look_of_proper_prefix hf (List.take_prefix n _) fun heq => by
        have hlen := congrArg List.length heq
        rw [List.length_take_of_le hlt.le] at hlen
        omega
  have hbytes : s.shared.wire = encodeAll frames ++ inProgress s.threads := by
    rw [hwire, hencode]
    rfl
  have hparse : reader.parse s.shared.wire = some (frames, inProgress s.threads) := by
    rw [hbytes]
    exact reader.parse_eq_some_iff.2 ⟨reads_encode hwf _, hmore⟩
  rcases parseFrames_spec s.shared.wire with ⟨fs, rest, hsome, hok, -⟩ | ⟨hnone, -⟩
  · rw [hparse] at hsome
    cases hsome
    rw [hok, hbytes]
    simp
  · rw [hparse] at hnone
    cases hnone

/-- In every run, the wire carries exactly the data of the sends that succeeded (and
    what the send in progress has written) if and only if no write failed in the
    middle of its data; the peer then parses exactly the frames that were sent. -/
theorem wire_framed_iff (h : Run system.step Unrestricted initial as s) :
    (s.shared.wire = s.shared.succeeded.flatten ++ inProgress s.threads ↔
      Run system.step Whole initial as s) ∧
    (Framed as → Run system.step Whole initial as s →
      ∃ frames : List Frame, s.shared.succeeded = frames.map Frame.encode ∧
        parseFrames s.shared.wire = .ok (frames, (encodeAll frames).length)) := by
  have haccounted := accounted_of_run h
  have hiff : s.shared.wire = s.shared.succeeded.flatten ++ inProgress s.threads ↔
      Run system.step Whole initial as s := by
    rw [← debris_eq_zero_iff h]
    refine ⟨fun hwire => ?_, haccounted.bytes⟩
    have hlength := haccounted.length
    rw [hwire, List.length_append] at hlength
    omega
  exact ⟨hiff, fun hframed hwhole => parse_wire h hframed (hiff.2 hwhole)⟩

/-- A ping is sent by two writes. -/
def twoWrites : List Step :=
  [.env ⟨.sendTo, Frame.ping.encode⟩, .act 0 .lock, .act 0 (.accept 4), .act 0 (.accept 5)]

theorem wire_framed_iff_ping : ∃ s, Run system.step Unrestricted initial twoWrites s ∧
    (s.shared.wire = s.shared.succeeded.flatten ++ inProgress s.threads ↔
      Run system.step Whole initial twoWrites s) ∧
    ∃ frames : List Frame, s.shared.succeeded = frames.map Frame.encode ∧
      parseFrames s.shared.wire = .ok (frames, (encodeAll frames).length) := by
  obtain ⟨s, hwhole, -⟩ : ∃ s, Run system.step Whole initial twoWrites s ∧ s.threads.length = 1 :=
    Run.exists_of_exec (by decide +kernel)
  have hframed : Framed twoWrites := by
    intro call hcall
    refine ⟨Frame.ping, Frame.wellFormed_ofPayload (by decide), ?_⟩
    simp only [twoWrites, List.mem_cons, Action.env.injEq, reduceCtorEq,
      List.not_mem_nil, or_false] at hcall
    rw [hcall]
  have hresult := wire_framed_iff hwhole.unrestricted
  exact ⟨s, hwhole.unrestricted, hresult.1, hresult.2 hframed hwhole⟩

/-- The socket takes four bytes of a ping and then would block; a pong follows. -/
theorem truncated_frame_on_wire : ∃ s, Run system.step Unrestricted initial
      [.env ⟨.sendTo, Frame.ping.encode⟩, .act 0 .lock, .act 0 (.accept 4),
        .act 0 (.error .wouldBlock), .env ⟨.sendTo, Frame.pong.encode⟩, .act 1 .lock,
        .act 1 (.accept 9)] s ∧
    s.shared.succeeded = [Frame.pong.encode] ∧
    s.shared.wire = Frame.ping.encode.take 4 ++ Frame.pong.encode ∧
    (parseFrames s.shared.wire).isOk = false :=
  Run.exists_of_exec (by decide +kernel)

end Runs

end Sending
