-- SUMMARY: The grammar that `parse_frames` accepts, and the frames of the library that belong to it.
import MillIo.Rpc.Reassembly

/-!
# The grammar of frames

A stream is a sequence of encoded frames and a rest. The rest is incomplete if more
bytes may make a frame of it, and malformed if it begins with nine bytes that are no
header. `parse_frames` tells these apart. A frame that the library builds is one that it
reads if its payload is not too large.

`Turn` is one turn of the loop of `parse_frames` in which a slice that is out of
bounds shows.
-/

namespace Protocol

/-- The bytes are a header that `decode` accepts. -/
def ValidHeader (bs : List UInt8) : Prop := ∃ h : FrameHeader, h.WellFormed ∧ h.encode = bs

/-- Shorter than a header, or a valid header whose payload is not all there. -/
def Incomplete (bs : List UInt8) : Prop :=
  bs.length < headerSize ∨
    ∃ h : FrameHeader, h.WellFormed ∧ h.encode = bs.take headerSize ∧
      bs.length < headerSize + h.payloadLen.toNat

/-- The bytes are the encodings of well-formed frames, and the rest. -/
structure Stream (bs : List UInt8) (frames : List Frame) (rest : List UInt8) : Prop where
  wellFormed : ∀ f ∈ frames, f.WellFormed
  encoded : bs = encodeAll frames ++ rest

/-! ## The loop with its slices -/

/-- `&buf[start..stop]`, or nothing where the slice panics. -/
def slice (buf : List UInt8) (start stop : ℕ) : Option (List UInt8) :=
  if start ≤ stop ∧ stop ≤ buf.length then some ((buf.drop start).take (stop - start)) else none

inductive Turn
  | panics
  | returns (result : Except RpcError (List Frame × ℕ))
  | goesOn (offset : ℕ) (frames : List Frame)

/-- One turn of the loop of `parse_frames`. -/
def turn (buf : List UInt8) (offset : ℕ) (frames : List Frame) : Turn :=
  if offset + headerSize ≤ buf.length then
    match slice buf offset (offset + headerSize) with
    | none => .panics
    | some headerBytes =>
      match FrameHeader.decode headerBytes with
      | .error e => .returns (.error e)
      | .ok header =>
        let totalFrameSize := headerSize + header.payloadLen.toNat
        if offset + totalFrameSize > buf.length then .returns (.ok (frames, offset))
        else match slice buf (offset + headerSize) (offset + totalFrameSize) with
          | none => .panics
          | some payload => .goesOn (offset + totalFrameSize) (frames ++ [⟨header, payload⟩])
  else .returns (.ok (frames, offset))

/-- The loop comes to its end with the result, and no slice panics. -/
inductive Loops (buf : List UInt8) : ℕ → List Frame → Except RpcError (List Frame × ℕ) → Prop
  | returns {offset : ℕ} {frames : List Frame} {result : Except RpcError (List Frame × ℕ)} :
      turn buf offset frames = .returns result → Loops buf offset frames result
  | goesOn {offset offset' : ℕ} {frames frames' : List Frame}
      {result : Except RpcError (List Frame × ℕ)} :
      turn buf offset frames = .goesOn offset' frames' → Loops buf offset' frames' result →
      Loops buf offset frames result

theorem slice_eq_some {buf : List UInt8} {start stop : ℕ} (h : start ≤ stop)
    (hstop : stop ≤ buf.length) :
    slice buf start stop = some ((buf.drop start).take (stop - start)) :=
  if_pos ⟨h, hstop⟩

/-- The loop ends as `parseLoop` does with as many turns as there are bytes. -/
theorem loops_parseLoop {buf : List UInt8} {turns offset : ℕ} (frames : List Frame)
    (hturns : buf.length ≤ offset + turns) :
    Loops buf offset frames (parseLoop buf turns offset frames) := by
  have hpos : 0 < headerSize := by decide
  induction turns generalizing offset frames with
  | zero =>
    refine .returns ?_
    rw [turn, if_neg (by omega)]
    rfl
  | succ turns ih =>
    by_cases hheader : offset + headerSize ≤ buf.length
    · have hslice := slice_eq_some (Nat.le_add_right offset headerSize) hheader
      rw [Nat.add_sub_cancel_left] at hslice
      cases hdecode : FrameHeader.decode ((buf.drop offset).take headerSize) with
      | error e =>
        refine .returns ?_
        simp only [turn, if_pos hheader, hslice, hdecode, parseLoop]
        rfl
      | ok header =>
        by_cases htotal : offset + (headerSize + header.payloadLen.toNat) > buf.length
        · refine .returns ?_
          simp only [turn, if_pos hheader, hslice, hdecode, if_pos htotal, parseLoop]
          exact congrArg Turn.returns (if_pos htotal).symm
        · have hle : offset + headerSize ≤ offset + (headerSize + header.payloadLen.toNat) := by omega
          have hpayload := slice_eq_some hle (Nat.not_lt.1 htotal)
          have hlength : offset + (headerSize + header.payloadLen.toNat) - (offset + headerSize) =
              header.payloadLen.toNat := by omega
          rw [hlength] at hpayload
          have hnext : Loops buf (offset + (headerSize + header.payloadLen.toNat)) _ _ :=
            ih (frames ++ [⟨header, (buf.drop (offset + headerSize)).take header.payloadLen.toNat⟩])
              (by omega)
          refine .goesOn ?_ (Eq.subst (motive := Loops buf _ _) ?_ hnext)
          · simp only [turn, if_pos hheader, hslice, hdecode, if_neg htotal, hpayload]
          · rw [parseLoop, if_pos hheader, hdecode]
            exact (if_neg htotal).symm
    · refine .returns ?_
      rw [turn, if_neg hheader, parseLoop, if_neg hheader]

/-! ## What the loop tells apart -/

theorem decode_eq_ok_iff {bs : List UInt8} {h : FrameHeader} :
    FrameHeader.decode bs = .ok h ↔ h.WellFormed ∧ h.encode = bs := by
  constructor
  · intro hok
    obtain ⟨hwf, heq⟩ := FrameHeader.decode_eq_ok hok
    exact ⟨hwf, heq.symm⟩
  · rintro ⟨hwf, rfl⟩
    exact FrameHeader.decode_encode hwf

theorem look_eq_reject_iff_not_validHeader {bs : List UInt8} :
    look bs = .reject ↔ headerSize ≤ bs.length ∧ ¬ ValidHeader (bs.take headerSize) := by
  simp only [look_eq_reject_iff, ValidHeader, decode_eq_ok_iff, ne_eq, not_exists]

theorem look_eq_more_iff {bs : List UInt8} : look bs = .more ↔ Incomplete bs := by
  unfold look Incomplete
  split
  · rename_i hshort
    exact iff_of_true rfl (.inl hshort)
  · rename_i hlong
    split
    · rename_i e hdecode
      refine iff_of_false nofun ?_
      rintro (hshort | ⟨h, hwf, hencode, -⟩)
      · exact hlong hshort
      · cases hdecode.symm.trans (decode_eq_ok_iff.2 ⟨hwf, hencode⟩)
    · rename_i header hdecode
      obtain ⟨hwf, hencode⟩ := decode_eq_ok_iff.1 hdecode
      split
      · rename_i hpart
        exact iff_of_true rfl (.inr ⟨header, hwf, hencode, hpart⟩)
      · rename_i hwhole
        refine iff_of_false nofun ?_
        rintro (hshort | ⟨h, hwf', hencode', hpart⟩)
        · exact hlong hshort
        · obtain rfl : header = h :=
            Except.ok.inj (hdecode.symm.trans (decode_eq_ok_iff.2 ⟨hwf', hencode'⟩))
          exact hwhole hpart

theorem reads_iff_stream {bs rest : List UInt8} {frames : List Frame} :
    reader.Reads bs frames rest ↔ Stream bs frames rest := by
  constructor
  · intro h
    refine ⟨?_, eq_of_reads h⟩
    induction h with
    | nil => exact fun f hf => absurd hf List.not_mem_nil
    | cons hlook _ ih => exact List.forall_mem_cons.2 ⟨(look_eq_frame_iff.1 hlook).1, ih⟩
  · rintro ⟨hwf, rfl⟩
    exact reads_encode hwf rest

/-- What is consumed are the encodings of the frames, and the rest is incomplete. -/
theorem stream_of_parseFrames {buf : List UInt8} {frames : List Frame} {consumed : ℕ}
    (h : parseFrames buf = .ok (frames, consumed)) :
    consumed ≤ buf.length ∧ buf.take consumed = encodeAll frames ∧
      (∀ f ∈ frames, f.WellFormed) ∧ Incomplete (buf.drop consumed) := by
  rcases parseFrames_spec buf with ⟨fs, rest, hparse, hframes, hdrop⟩ | ⟨-, e, hframes⟩
  · rw [hframes] at h
    cases h
    obtain ⟨hreads, hmore⟩ := Framing.Reader.parse_eq_some_iff.1 hparse
    obtain ⟨hwf, hencoded⟩ := reads_iff_stream.1 hreads
    refine ⟨Nat.sub_le _ _, ?_, hwf, ?_⟩
    · have hsplit := List.take_append_drop (buf.length - rest.length) buf
      rw [hdrop] at hsplit
      exact List.append_cancel_right (hsplit.trans hencoded)
    · rw [hdrop]
      exact look_eq_more_iff.1 hmore
  · cases hframes.symm.trans h

theorem parseFrames_fails_iff {buf : List UInt8} :
    (∃ e, parseFrames buf = .error e) ↔ ∃ frames rest, Stream buf frames rest ∧
      headerSize ≤ rest.length ∧ ¬ ValidHeader (rest.take headerSize) := by
  have hnone : reader.parse buf = none ↔ ∃ frames rest, Stream buf frames rest ∧
      headerSize ≤ rest.length ∧ ¬ ValidHeader (rest.take headerSize) := by
    simp only [Framing.Reader.parse_eq_none_iff, reads_iff_stream]
    exact exists₂_congr fun frames rest => and_congr_right fun _ => look_eq_reject_iff_not_validHeader
  rw [← hnone]
  rcases parseFrames_spec buf with ⟨fs, rest, hparse, hframes, -⟩ | ⟨hparse, hfails⟩
  · simp [hparse, hframes]
  · exact iff_of_true hfails hparse

/-- For every buffer. If `parse_frames` returns frames, these are well formed, what it
    has consumed is their encodings, and the rest is incomplete. It fails if and only if
    the buffer is a sequence of encoded frames and a rest that is long enough for a header
    and does not begin with one. The loop ends and never slices out of bounds. -/
theorem parseFrames_grammar (buf : List UInt8) :
    (∀ frames consumed, parseFrames buf = .ok (frames, consumed) →
      consumed ≤ buf.length ∧ buf.take consumed = encodeAll frames ∧
      (∀ f ∈ frames, f.header.version = Protocol.version ∧
        f.header.payloadLen.toNat = f.payload.length ∧ f.header.payloadLen ≤ maxPayloadSize) ∧
      Incomplete (buf.drop consumed)) ∧
    ((∃ e, parseFrames buf = .error e) ↔ ∃ frames rest, Stream buf frames rest ∧
      headerSize ≤ rest.length ∧ ¬ ValidHeader (rest.take headerSize)) ∧
    Loops buf 0 [] (parseFrames buf) := by
  refine ⟨fun frames consumed hok => ?_, parseFrames_fails_iff, loops_parseLoop [] (Nat.le_add_left _ 0)⟩
  obtain ⟨hle, htake, hwf, hrest⟩ := stream_of_parseFrames hok
  refine ⟨hle, htake, fun f hf => ?_, hrest⟩
  exact ⟨(hwf f hf).header.version, (hwf f hf).payloadLen.symm, (hwf f hf).header.payloadLen⟩

/-! ## Frames that the library builds -/

/-- The frames that `call_raw`, `call_oneway` and `handle_request` build, by the call
    that builds them. -/
inductive Message
  | request (requestId : UInt64) (serviceId methodId : UInt16) (args : List UInt8) (oneWay : Bool)
  | response (requestId : UInt64) (data : List UInt8)
  | error (requestId : UInt64) (errorData : List UInt8)
  deriving DecidableEq

namespace Message

def frame : Message → Frame
  | request requestId serviceId methodId args oneWay =>
    Frame.request requestId serviceId methodId args oneWay
  | response requestId data => Frame.response requestId data
  | error requestId errorData => Frame.error requestId errorData

/-- The fields in front of the data take twelve or eight bytes. -/
def payloadLength : Message → ℕ
  | request _ _ _ args _ => 12 + args.length
  | response _ data => 8 + data.length
  | error _ errorData => 8 + errorData.length

/-- The fields of the message are read from the frame. -/
def ReadFrom : Message → Frame → Prop
  | request requestId serviceId methodId args oneWay, f =>
    f.parseRequestPayload = .ok (requestId, serviceId, methodId, args) ∧
      f.header.flags.isOneWay = oneWay
  | response requestId data, f => f.parseResponsePayload = .ok (requestId, data)
  | error requestId errorData, f => f.parseResponsePayload = .ok (requestId, errorData)

/-- The other side reads the frame of the message, its header states the length of its
    payload, and the fields are what they were. -/
structure Readable (m : Message) : Prop where
  accepted : parseFrames m.frame.encode = .ok ([m.frame], m.frame.encode.length)
  length : m.frame.header.payloadLen.toNat = m.frame.payload.length
  fields : m.ReadFrom m.frame

theorem length_payload (m : Message) : m.frame.payload.length = m.payloadLength := by
  cases m <;>
    simp only [frame, Frame.request, Frame.response, Frame.error, Frame.ofPayload, payloadLength,
      List.length_append, LittleEndian.length_toBytes]

/-- The fields are read whatever the length. -/
theorem readFrom_frame (m : Message) : m.ReadFrom m.frame := by
  cases m with
  | request requestId serviceId methodId args oneWay =>
    exact ⟨Frame.parseRequestPayload_request .., Frame.isOneWay_request ..⟩
  | response requestId data => exact Frame.parseResponsePayload_ofPayload ..
  | error requestId errorData => exact Frame.parseResponsePayload_ofPayload ..

theorem wellFormed_frame {m : Message} (h : m.payloadLength ≤ maxPayloadSize.toNat) :
    m.frame.WellFormed := by
  rw [← length_payload] at h
  cases m <;> exact Frame.wellFormed_ofPayload h

end Message

/-- A well-formed frame is read as it is. -/
theorem parseFrames_encode {f : Frame} (hwf : f.WellFormed) :
    parseFrames f.encode = .ok ([f], f.encode.length) := by
  have hparse : reader.parse f.encode = some ([f], []) :=
    Framing.Reader.parse_eq_some_iff.2 ⟨reads_frame hwf, reader.look_nil⟩
  rcases parseFrames_spec f.encode with ⟨fs, rest, hsome, hframes, -⟩ | ⟨hnone, -⟩
  · cases hparse.symm.trans hsome
    exact hframes
  · cases hparse.symm.trans hnone

/-- A header that states too long a payload is rejected. -/
theorem parseFrames_of_tooLarge {f : Frame} (h : maxPayloadSize < f.header.payloadLen) :
    ∃ e, parseFrames f.encode = .error e := by
  refine parseFrames_fails_iff.2 ⟨[], f.encode, ⟨nofun, rfl⟩, ?_, ?_⟩
  · simp [Frame.encode]
  · rintro ⟨h', hwf, hencode⟩
    rw [Frame.encode, List.take_left' f.header.length_encode] at hencode
    have hlen := FrameHeader.payloadLen_of_encode_eq hencode
    exact absurd (hlen ▸ hwf.payloadLen) (UInt32.not_le.2 h)

/-- For every message: the other side reads it as it was built if and only if its payload
    is not too large. -/
theorem readable_iff_fits (m : Message) : m.Readable ↔ m.payloadLength ≤ maxPayloadSize.toNat := by
  constructor
  · rintro ⟨haccepted, hlength, -⟩
    obtain ⟨-, -, hwf, -⟩ := stream_of_parseFrames haccepted
    rw [← m.length_payload, ← hlength]
    exact UInt32.le_iff_toNat_le.1 (hwf m.frame (List.mem_singleton_self _)).header.payloadLen
  · intro h
    have hwf := Message.wellFormed_frame h
    exact ⟨parseFrames_encode hwf, hwf.payloadLen.symm, m.readFrom_frame⟩

/-- A message that is too large is rejected as long as the header can state its length. -/
theorem parseFrames_fails_of_tooLarge {m : Message} (h : maxPayloadSize.toNat < m.payloadLength)
    (hlt : m.payloadLength < 2 ^ 32) : ∃ e, parseFrames m.frame.encode = .error e := by
  have hlen : m.frame.header.payloadLen.toNat = m.payloadLength := by
    rw [← m.length_payload] at hlt ⊢
    cases m <;> exact UInt32.toNat_ofNat_of_lt' hlt
  refine parseFrames_of_tooLarge (UInt32.lt_iff_toNat_lt.2 ?_)
  rwa [hlen]

/-- A call with `n` bytes of arguments. -/
def callOf (n : ℕ) : Message := .request 1 0 1 (List.replicate n 0) false

theorem payloadLength_callOf (n : ℕ) : (callOf n).payloadLength = 12 + n :=
  congrArg (12 + ·) List.length_replicate

/-- The arguments of the call are one byte too long. -/
theorem unreadable_of_long_args :
    ¬ (callOf 16777205).Readable ∧ ∃ e, parseFrames (callOf 16777205).frame.encode = .error e := by
  have hfails : ∃ e, parseFrames (callOf 16777205).frame.encode = .error e := by
    refine parseFrames_fails_of_tooLarge ?_ ?_ <;> rw [payloadLength_callOf] <;> decide
  refine ⟨fun hreadable => ?_, hfails⟩
  obtain ⟨e, he⟩ := hfails
  rw [hreadable.accepted] at he
  cases he

end Protocol
