-- SUMMARY: Wire protocol of `mill-rpc-core/src/protocol.rs`: frame headers, frames, their payloads, and `parse_frames`.
import MillIo.Framing.LittleEndian
import MillIo.Framing.Reader
import MillIo.Rpc.Error

/-!
# The wire protocol

A frame is a header of nine bytes (magic, version, flags, message type and the
payload length in little-endian order) and the payload. `parseFrames` follows the
loop of the source; `reader` says what one turn of the loop sees, and
`parseFrames_eq` that the loop reads frames as every such reader does.
-/

namespace Protocol

def magic : List UInt8 := [0x4D, 0x52]
def version : UInt8 := 1
def headerSize : ℕ := 9
def maxPayloadSize : UInt32 := 16 * 1024 * 1024

inductive MessageType
  | request
  | response
  | error
  | ping
  | pong
  | cancel
  deriving DecidableEq, Repr

/-- A byte as `{:#04X}` and `0x{:02X}` print it. -/
def hexByte (b : UInt8) : String :=
  let digit (n : ℕ) : Char := "0123456789ABCDEF".toList.getD n '0'
  String.ofList ['0', 'x', digit (b.toNat / 16), digit (b.toNat % 16)]

namespace MessageType

def toU8 : MessageType → UInt8
  | request => 0x01
  | response => 0x02
  | error => 0x03
  | ping => 0x04
  | pong => 0x05
  | cancel => 0x06

def fromU8 (v : UInt8) : Except RpcError MessageType :=
  if v = 0x01 then .ok request
  else if v = 0x02 then .ok response
  else if v = 0x03 then .ok error
  else if v = 0x04 then .ok ping
  else if v = 0x05 then .ok pong
  else if v = 0x06 then .ok cancel
  else .error (RpcError.invalidArgument s!"Unknown message type: {hexByte v}")

@[simp] theorem fromU8_toU8 (t : MessageType) : fromU8 t.toU8 = .ok t := by
  cases t <;> rfl

theorem fromU8_eq_ok {v : UInt8} {t : MessageType} (h : fromU8 v = .ok t) : v = t.toU8 := by
  simp only [fromU8] at h
  repeat' split at h
  all_goals first | (cases h; assumption) | cases h

end MessageType

/-- Bit flags for frame options. -/
@[ext]
structure Flags where
  bits : UInt8
  deriving DecidableEq, Repr

namespace Flags

protected def none : Flags := ⟨0⟩
def oneWay : Flags := ⟨(1 : UInt8) <<< 1⟩
def isOneWay (f : Flags) : Bool := f.bits &&& oneWay.bits != 0

@[simp] theorem isOneWay_none : Flags.none.isOneWay = false := by decide
@[simp] theorem isOneWay_oneWay : Flags.oneWay.isOneWay = true := by decide

end Flags

@[ext]
structure FrameHeader where
  version : UInt8
  flags : Flags
  messageType : MessageType
  payloadLen : UInt32
  deriving DecidableEq, Repr

def u32ToLeBytes (n : UInt32) : List UInt8 := LittleEndian.toBytes 4 n.toNat
def u32FromLeBytes (bs : List UInt8) : UInt32 := UInt32.ofNat (LittleEndian.ofBytes bs)

namespace FrameHeader

def encode (h : FrameHeader) : List UInt8 :=
  magic ++ [h.version, h.flags.bits, h.messageType.toU8] ++ u32ToLeBytes h.payloadLen

/-- Decode a header from a slice. A slice of another length than nine is one
    that cannot be converted to the array that the source decodes. -/
def decode : List UInt8 → Except RpcError FrameHeader
  | [m₀, m₁, version, flags, messageType, l₀, l₁, l₂, l₃] =>
    if [m₀, m₁] ≠ magic then
      .error (RpcError.invalidArgument s!"Invalid magic: [{hexByte m₀}, {hexByte m₁}]")
    else if version ≠ Protocol.version then
      .error (RpcError.invalidArgument s!"Unsupported version: {version}")
    else do
      let messageType ← MessageType.fromU8 messageType
      let payloadLen := u32FromLeBytes [l₀, l₁, l₂, l₃]
      if payloadLen > maxPayloadSize then
        .error (RpcError.invalidArgument
          s!"Payload too large: {payloadLen} > {maxPayloadSize}")
      else .ok ⟨version, ⟨flags⟩, messageType, payloadLen⟩
  | _ => .error (RpcError.internal "Header slice conversion failed")

end FrameHeader

/-- A complete frame. -/
@[ext]
structure Frame where
  header : FrameHeader
  payload : List UInt8
  deriving DecidableEq, Repr

namespace Frame

/-- The frames of one message type, with the length of the payload in the
    header. -/
def ofPayload (flags : Flags) (messageType : MessageType) (payload : List UInt8) : Frame :=
  ⟨⟨Protocol.version, flags, messageType, UInt32.ofNat payload.length⟩, payload⟩

def request (requestId : UInt64) (serviceId methodId : UInt16) (args : List UInt8)
    (oneWay : Bool) : Frame :=
  ofPayload (if oneWay then Flags.oneWay else Flags.none) .request
    (LittleEndian.toBytes 8 requestId.toNat ++ LittleEndian.toBytes 2 serviceId.toNat ++
      LittleEndian.toBytes 2 methodId.toNat ++ args)

def response (requestId : UInt64) (data : List UInt8) : Frame :=
  ofPayload Flags.none .response (LittleEndian.toBytes 8 requestId.toNat ++ data)

def error (requestId : UInt64) (errorData : List UInt8) : Frame :=
  ofPayload Flags.none .error (LittleEndian.toBytes 8 requestId.toNat ++ errorData)

def ping : Frame := ofPayload Flags.none .ping []
def pong : Frame := ofPayload Flags.none .pong []

def encode (f : Frame) : List UInt8 := f.header.encode ++ f.payload

/-- The fields of a request payload: request, service, method and arguments. -/
def parseRequestPayload (f : Frame) : Except RpcError (UInt64 × UInt16 × UInt16 × List UInt8) :=
  if f.payload.length < 12 then
    .error (RpcError.invalidArgument "Request payload too short")
  else
    .ok (UInt64.ofNat (LittleEndian.ofBytes (f.payload.take 8)),
      UInt16.ofNat (LittleEndian.ofBytes ((f.payload.drop 8).take 2)),
      UInt16.ofNat (LittleEndian.ofBytes ((f.payload.drop 10).take 2)),
      f.payload.drop 12)

/-- The fields of the payload of a reply: request and data. -/
def parseResponsePayload (f : Frame) : Except RpcError (UInt64 × List UInt8) :=
  if f.payload.length < 8 then
    .error (RpcError.invalidArgument "Response payload too short")
  else
    .ok (UInt64.ofNat (LittleEndian.ofBytes (f.payload.take 8)), f.payload.drop 8)

end Frame

/-- The loop of `parse_frames`. Every turn moves the offset on, so as many turns
    as the buffer has bytes are enough. -/
def parseLoop (buf : List UInt8) :
    (turns offset : ℕ) → List Frame → Except RpcError (List Frame × ℕ)
  | 0, offset, frames => .ok (frames, offset)
  | turns + 1, offset, frames =>
    if offset + headerSize ≤ buf.length then do
      let header ← FrameHeader.decode ((buf.drop offset).take headerSize)
      let totalFrameSize := headerSize + header.payloadLen.toNat
      if offset + totalFrameSize > buf.length then .ok (frames, offset)
      else
        let payload := (buf.drop (offset + headerSize)).take header.payloadLen.toNat
        parseLoop buf turns (offset + totalFrameSize) (frames ++ [⟨header, payload⟩])
    else .ok (frames, offset)

/-- Reads frames from a byte buffer. Returns the complete frames and the number
    of bytes consumed. -/
def parseFrames (buf : List UInt8) : Except RpcError (List Frame × ℕ) :=
  parseLoop buf buf.length 0 []

/-! ## Headers -/

@[simp] theorem u32FromLeBytes_toLeBytes (n : UInt32) :
    u32FromLeBytes (u32ToLeBytes n) = n := by
  have hlt : n.toNat < 256 ^ 4 := n.toNat_lt
  rw [u32FromLeBytes, u32ToLeBytes, LittleEndian.ofBytes_toBytes hlt, UInt32.ofNat_toNat]

theorem u32ToLeBytes_fromLeBytes {bs : List UInt8} (h : bs.length = 4) :
    u32ToLeBytes (u32FromLeBytes bs) = bs := by
  have hlt := LittleEndian.ofBytes_lt bs
  rw [h] at hlt
  rw [u32ToLeBytes, u32FromLeBytes, UInt32.toNat_ofNat_of_lt' hlt, ← h,
    LittleEndian.toBytes_ofBytes]

namespace FrameHeader

/-- A header that `decode` accepts. -/
structure WellFormed (h : FrameHeader) : Prop where
  version : h.version = Protocol.version
  payloadLen : h.payloadLen ≤ maxPayloadSize

@[simp] theorem length_encode (h : FrameHeader) : h.encode.length = headerSize := by
  simp [encode, magic, headerSize, u32ToLeBytes]

theorem payloadLen_of_encode_eq {h h' : FrameHeader} (heq : h.encode = h'.encode) :
    h.payloadLen = h'.payloadLen := by
  have hlen : u32ToLeBytes h.payloadLen = u32ToLeBytes h'.payloadLen := congrArg (List.drop 5) heq
  rw [← u32FromLeBytes_toLeBytes h.payloadLen, hlen, u32FromLeBytes_toLeBytes]

theorem decode_encode {h : FrameHeader} (hwf : h.WellFormed) : decode h.encode = .ok h := by
  obtain ⟨l₀, l₁, l₂, l₃, hlen⟩ : ∃ l₀ l₁ l₂ l₃, u32ToLeBytes h.payloadLen = [l₀, l₁, l₂, l₃] :=
    ⟨_, _, _, _, rfl⟩
  have hback : u32FromLeBytes [l₀, l₁, l₂, l₃] = h.payloadLen := by
    rw [← hlen, u32FromLeBytes_toLeBytes]
  have hle : ¬ h.payloadLen > maxPayloadSize := UInt32.not_lt.2 hwf.payloadLen
  have hencode : h.encode = [0x4D, 0x52, h.version, h.flags.bits, h.messageType.toU8,
      l₀, l₁, l₂, l₃] := by
    rw [encode, hlen]
    rfl
  rw [hencode, decode, if_neg (by simp [magic]), if_neg (by simp [hwf.version]),
    MessageType.fromU8_toU8, hback]
  show (if h.payloadLen > maxPayloadSize then _ else _) = _
  rw [if_neg hle]

theorem decode_eq_ok {bs : List UInt8} {h : FrameHeader} (hok : decode bs = .ok h) :
    h.WellFormed ∧ bs = h.encode := by
  unfold decode at hok
  split at hok
  · rename_i m₀ m₁ version flags messageType l₀ l₁ l₂ l₃
    split at hok
    · cases hok
    · rename_i hmagic
      split at hok
      · cases hok
      · rename_i hversion
        cases htype : MessageType.fromU8 messageType with
        | error e =>
          rw [htype] at hok
          cases hok
        | ok t =>
          rw [htype] at hok
          change (if _ then _ else _) = _ at hok
          split at hok
          · cases hok
          · rename_i hlen
            cases hok
            rw [not_not] at hmagic hversion
            refine ⟨⟨hversion, UInt32.not_lt.1 hlen⟩, ?_⟩
            rw [encode, u32ToLeBytes_fromLeBytes rfl, ← hmagic,
              MessageType.fromU8_eq_ok htype]
            rfl
  · cases hok

end FrameHeader

/-! ## Frames on the wire -/

namespace Frame

/-- A frame whose header is accepted and states the length of its payload. -/
structure WellFormed (f : Frame) : Prop where
  header : f.header.WellFormed
  payloadLen : f.payload.length = f.header.payloadLen.toNat

def size (f : Frame) : ℕ := headerSize + f.header.payloadLen.toNat

theorem WellFormed.length_encode {f : Frame} (h : f.WellFormed) : f.encode.length = f.size := by
  simp [encode, size, h.payloadLen]

theorem wellFormed_ofPayload {flags : Flags} {t : MessageType} {payload : List UInt8}
    (h : payload.length ≤ maxPayloadSize.toNat) : (ofPayload flags t payload).WellFormed := by
  have hlt : payload.length < 2 ^ 32 := h.trans_lt maxPayloadSize.toNat_lt
  have hlen : (UInt32.ofNat payload.length).toNat = payload.length :=
    UInt32.toNat_ofNat_of_lt' hlt
  refine ⟨⟨rfl, ?_⟩, hlen.symm⟩
  rw [UInt32.le_iff_toNat_le]
  exact hlen.trans_le h

end Frame

/-- What one turn of the loop sees at its offset. -/
def look (bs : List UInt8) : Framing.Look Frame :=
  if bs.length < headerSize then .more
  else match FrameHeader.decode (bs.take headerSize) with
    | .error _ => .reject
    | .ok header =>
      if bs.length < headerSize + header.payloadLen.toNat then .more
      else .frame ⟨header, (bs.drop headerSize).take header.payloadLen.toNat⟩

/-- The reader sees a frame exactly where a well-formed one has been encoded. -/
theorem look_eq_frame_iff {bs : List UInt8} {f : Frame} :
    look bs = .frame f ↔ f.WellFormed ∧ f.encode <+: bs := by
  constructor
  · intro h
    unfold look at h
    split at h
    · cases h
    split at h
    · cases h
    rename_i header hdecode
    split at h
    · cases h
    rename_i hlen
    cases h
    obtain ⟨hwf, htake⟩ := FrameHeader.decode_eq_ok hdecode
    refine ⟨⟨hwf, ?_⟩, ?_⟩
    · simp only [List.length_take, List.length_drop]
      omega
    · refine ⟨(bs.drop headerSize).drop header.payloadLen.toNat, ?_⟩
      rw [Frame.encode, ← htake, List.append_assoc, List.take_append_drop,
        List.take_append_drop]
  · rintro ⟨hwf, rest, rfl⟩
    have htake : (f.encode ++ rest).take headerSize = f.header.encode := by
      rw [Frame.encode, List.append_assoc]
      exact List.take_left' f.header.length_encode
    have hdrop : ((f.encode ++ rest).drop headerSize).take f.header.payloadLen.toNat =
        f.payload := by
      rw [Frame.encode, List.append_assoc, List.drop_left' f.header.length_encode]
      exact List.take_left' hwf.payloadLen
    have hlength := hwf.length_encode
    simp only [Frame.size] at hlength
    rw [look, if_neg (by simp only [List.length_append]; omega), htake,
      FrameHeader.decode_encode hwf.header]
    simp only
    rw [if_neg (by simp only [List.length_append]; omega), hdrop]

/-- The reader rejects exactly what has nine bytes and no header in them. -/
theorem look_eq_reject_iff {bs : List UInt8} :
    look bs = .reject ↔
      headerSize ≤ bs.length ∧ ∀ h, FrameHeader.decode (bs.take headerSize) ≠ .ok h := by
  unfold look
  split
  · rename_i hlen
    simp only [reduceCtorEq, false_iff]
    omega
  · rename_i hlen
    split
    · rename_i e hdecode
      simp [hdecode]
      omega
    · rename_i header hdecode
      simp only [hdecode]
      split <;> simp

/-- `parse_frames` as a reader of frames. -/
def reader : Framing.Reader UInt8 Frame where
  look := look
  look_nil := rfl
  size := Frame.size
  size_pos := fun f => by simp only [Frame.size, headerSize]; omega
  size_le := fun h => by
    obtain ⟨hwf, hbegin⟩ := look_eq_frame_iff.1 h
    exact hwf.length_encode ▸ hbegin.length_le
  frame_append := fun cs h => by
    obtain ⟨hwf, hbegin⟩ := look_eq_frame_iff.1 h
    exact look_eq_frame_iff.2 ⟨hwf, hbegin.trans (List.prefix_append _ cs)⟩
  reject_append := fun cs h => by
    obtain ⟨hlen, hdecode⟩ := look_eq_reject_iff.1 h
    rw [look_eq_reject_iff, List.take_append_of_le_length hlen, List.length_append]
    exact ⟨by omega, hdecode⟩

/-- The loop reads what stands behind its offset. -/
theorem parseLoop_spec {buf : List UInt8} {turns offset : ℕ} (frames : List Frame)
    (hle : offset ≤ buf.length) (hturns : buf.length ≤ offset + turns) :
    (∃ fs rest, reader.parse (buf.drop offset) = some (fs, rest) ∧
      parseLoop buf turns offset frames = .ok (frames ++ fs, buf.length - rest.length) ∧
      buf.drop (buf.length - rest.length) = rest) ∨
    (reader.parse (buf.drop offset) = none ∧
      ∃ e, parseLoop buf turns offset frames = .error e) := by
  induction turns generalizing offset frames with
  | zero =>
    have heq : offset = buf.length := by omega
    subst heq
    refine .inl ⟨[], [], ?_, by simp [parseLoop], by simp⟩
    rw [List.drop_length, Framing.Reader.parse_nil]
  | succ turns ih =>
    have hlength : (buf.drop offset).length = buf.length - offset := List.length_drop
    have hoffset : buf.length - (buf.drop offset).length = offset := by omega
    by_cases hheader : offset + headerSize ≤ buf.length
    · rw [parseLoop, if_pos hheader]
      have hlong : ¬ (buf.drop offset).length < headerSize := by omega
      cases hdecode : FrameHeader.decode ((buf.drop offset).take headerSize) with
      | error e =>
        have hlook : look (buf.drop offset) = .reject := by rw [look, if_neg hlong, hdecode]
        exact .inr ⟨reader.parse_of_reject hlook, e, rfl⟩
      | ok header =>
        by_cases htotal : offset + (headerSize + header.payloadLen.toNat) > buf.length
        · have hlook : look (buf.drop offset) = .more := by
            rw [look, if_neg hlong, hdecode]
            exact if_pos (by omega)
          refine .inl ⟨[], buf.drop offset, reader.parse_of_more hlook, ?_, by rw [hoffset]⟩
          rw [hoffset, List.append_nil]
          exact if_pos htotal
        · have hlook : look (buf.drop offset) = .frame
              ⟨header, (buf.drop (offset + headerSize)).take header.payloadLen.toNat⟩ := by
            rw [look, if_neg hlong, hdecode, ← List.drop_drop]
            exact if_neg (by omega)
          have hparse := reader.parse_of_frame hlook
          rw [List.drop_drop] at hparse
          change _ = (reader.parse (buf.drop
            (offset + (headerSize + header.payloadLen.toNat)))).map _ at hparse
          have hpos : 0 < headerSize := by decide
          rcases ih (frames ++ [⟨header, _⟩]) (Nat.not_lt.1 htotal) (by omega) with
            ⟨fs, rest, hrest, hloop, hdrop⟩ | ⟨hrest, e, hloop⟩
          · refine .inl ⟨_ :: fs, rest, by rw [hparse, hrest]; rfl, ?_, hdrop⟩
            rw [List.append_cons, ← hloop]
            exact if_neg htotal
          · refine .inr ⟨by rw [hparse, hrest]; rfl, e, ?_⟩
            rw [← hloop]
            exact if_neg htotal
    · rw [parseLoop, if_neg hheader]
      have hlook : look (buf.drop offset) = .more := by rw [look, if_pos (by omega)]
      exact .inl ⟨[], buf.drop offset, reader.parse_of_more hlook,
        by rw [hoffset, List.append_nil], by rw [hoffset]⟩

/-- `parse_frames` reads all complete frames of the buffer, and fails where the
    reader rejects. -/
theorem parseFrames_spec (buf : List UInt8) :
    (∃ fs rest, reader.parse buf = some (fs, rest) ∧
      parseFrames buf = .ok (fs, buf.length - rest.length) ∧
      buf.drop (buf.length - rest.length) = rest) ∨
    (reader.parse buf = none ∧ ∃ e, parseFrames buf = .error e) := by
  simpa [parseFrames] using
    parseLoop_spec [] (Nat.zero_le buf.length) (Nat.le_add_left buf.length 0)

/-- A beginning of a frame that is not all of it needs more bytes. -/
theorem look_of_proper_prefix {bs : List UInt8} {f : Frame} (hwf : f.WellFormed)
    (hbegin : bs <+: f.encode) (hne : bs ≠ f.encode) : look bs = .more := by
  obtain ⟨rest, heq⟩ := hbegin
  have hfull : look (bs ++ rest) = .frame f := by
    rw [heq]
    exact look_eq_frame_iff.2 ⟨hwf, List.prefix_refl _⟩
  cases hlook : look bs with
  | more => rfl
  | reject =>
    have hreject := reader.reject_append rest hlook
    change look (bs ++ rest) = .reject at hreject
    rw [hfull] at hreject
    cases hreject
  | frame g =>
    -- a complete frame would already be the whole of it
    have happend := reader.frame_append rest hlook
    change look (bs ++ rest) = .frame g at happend
    rw [hfull] at happend
    cases happend
    have hle := (look_eq_frame_iff.1 hlook).2.length_le
    have hlength := congrArg List.length heq
    rw [List.length_append] at hlength
    have hrest : rest = [] := List.eq_nil_of_length_eq_zero (by omega)
    rw [hrest, List.append_nil] at heq
    exact absurd heq hne

/-- Encoded frames are read one after the other. -/
theorem reads_encode {fs : List Frame} (hwf : ∀ f ∈ fs, f.WellFormed) (rest : List UInt8) :
    reader.Reads ((fs.map Frame.encode).flatten ++ rest) fs rest := by
  induction fs with
  | nil => exact .nil
  | cons f fs ih =>
    have hf := hwf f (by simp)
    rw [List.map_cons, List.flatten_cons, List.append_assoc]
    refine .cons (look_eq_frame_iff.2 ⟨hf, List.prefix_append _ _⟩) ?_
    rw [List.drop_left' (show f.encode.length = reader.size f from hf.length_encode)]
    exact ih fun g hg => hwf g (by simp [hg])

/-! ## Payloads -/

namespace Frame

/-- A request is read as it was made. -/
theorem parseRequestPayload_request (requestId : UInt64) (serviceId methodId : UInt16)
    (args : List UInt8) (oneWay : Bool) :
    (request requestId serviceId methodId args oneWay).parseRequestPayload =
      .ok (requestId, serviceId, methodId, args) := by
  have hid : LittleEndian.ofBytes (LittleEndian.toBytes 8 requestId.toNat) = requestId.toNat :=
    LittleEndian.ofBytes_toBytes requestId.toNat_lt
  have hservice : LittleEndian.ofBytes (LittleEndian.toBytes 2 serviceId.toNat) =
      serviceId.toNat := LittleEndian.ofBytes_toBytes serviceId.toNat_lt
  have hmethod : LittleEndian.ofBytes (LittleEndian.toBytes 2 methodId.toNat) = methodId.toNat :=
    LittleEndian.ofBytes_toBytes methodId.toNat_lt
  have hshort : ∀ {width n k : ℕ}, width ≤ k → (LittleEndian.toBytes width n).drop k = [] :=
    fun hle => List.drop_eq_nil_of_le (by simpa using hle)
  have hlong : ¬ 8 + (2 + (2 + args.length)) < 12 := by omega
  simp [request, ofPayload, parseRequestPayload, List.drop_append, hid, hservice,
    hmethod, hshort, hlong]

/-- A reply is read as it was made. -/
theorem parseResponsePayload_ofPayload (flags : Flags) (t : MessageType) (requestId : UInt64)
    (data : List UInt8) :
    (ofPayload flags t (LittleEndian.toBytes 8 requestId.toNat ++ data)).parseResponsePayload =
      .ok (requestId, data) := by
  have hid : LittleEndian.ofBytes (LittleEndian.toBytes 8 requestId.toNat) = requestId.toNat :=
    LittleEndian.ofBytes_toBytes requestId.toNat_lt
  simp [ofPayload, parseResponsePayload, hid]

theorem isOneWay_request (requestId : UInt64) (serviceId methodId : UInt16) (args : List UInt8)
    (oneWay : Bool) :
    (request requestId serviceId methodId args oneWay).header.flags.isOneWay = oneWay := by
  cases oneWay
  · exact Flags.isOneWay_none
  · exact Flags.isOneWay_oneWay

end Frame

/-- An encoded frame is read as this one frame. -/
theorem reads_frame {f : Frame} (hwf : f.WellFormed) : reader.Reads f.encode [f] [] := by
  have h : reader.Reads (([f].map Frame.encode).flatten ++ []) [f] [] :=
    reads_encode (by simpa using hwf) []
  simpa using h

/-- Frames that are read are on the wire as they are encoded. -/
theorem eq_of_reads {bs rest : List UInt8} {fs : List Frame} (h : reader.Reads bs fs rest) :
    bs = (fs.map Frame.encode).flatten ++ rest := by
  induction h with
  | nil => rfl
  | @cons bs rest f fs hlook _ ih =>
    obtain ⟨hwf, tail, rfl⟩ := look_eq_frame_iff.1 hlook
    rw [List.drop_left' (show f.encode.length = reader.size f from hwf.length_encode)] at ih
    rw [List.map_cons, List.flatten_cons, List.append_assoc, ← ih]

end Protocol
