-- SUMMARY: What is handed over of a stream of frames, whole or followed by a malformed header, in any chunking.
import MillIo.Rpc.Receive

/-!
# Reassembly of a stream

A stream of well-formed frames is handed over frame by frame in every chunking.
Behind a malformed header the receivers start afresh with the next chunk, and
what they hand over depends on where the chunks end.
-/

open Protocol

/-- The frames one after the other on the wire. -/
def encodeAll (frames : List Frame) : List UInt8 := (frames.map Frame.encode).flatten

/-- Nine bytes or more that do not begin with a header. -/
structure MalformedHeader (bs : List UInt8) : Prop where
  length : headerSize ≤ bs.length
  decode : ∀ h, FrameHeader.decode (bs.take headerSize) ≠ .ok h

/-- Parsing from the start, the first malformed header is at offset `k`. -/
def FirstMalformed (bs : List UInt8) (k : ℕ) : Prop :=
  ∃ frames rest, (∀ f ∈ frames, f.WellFormed) ∧ bs = encodeAll frames ++ rest ∧
    MalformedHeader rest ∧ k = (encodeAll frames).length

/-- The bytes begin with a complete well-formed frame. -/
def BeginsWithFrame (bs : List UInt8) : Prop := ∃ f : Frame, f.WellFormed ∧ f.encode <+: bs

/-- The stream cut at each chunk with which `parse_frames` fails on what has come
    since the last such chunk. These chunks themselves belong to no piece. -/
def pieces (cur : List UInt8) : List (List UInt8) → List (List UInt8)
  | [] => [cur]
  | chunk :: chunks =>
    match parseFrames (cur ++ chunk) with
    | .ok _ => pieces (cur ++ chunk) chunks
    | .error _ => cur :: pieces [] chunks

/-! ## In terms of the reader -/

theorem malformedHeader_iff {bs : List UInt8} : MalformedHeader bs ↔ look bs = .reject := by
  rw [look_eq_reject_iff]
  exact ⟨fun h => ⟨h.length, h.decode⟩, fun h => ⟨h.1, h.2⟩⟩

theorem sum_size {frames : List Frame} (hwf : ∀ f ∈ frames, f.WellFormed) :
    (frames.map reader.size).sum = (encodeAll frames).length := by
  rw [encodeAll, List.length_flatten, List.map_map]
  congr 1
  exact List.map_congr_left fun f hf => (hwf f hf).length_encode.symm

theorem pieces_eq (start : ℕ) (cur : List UInt8) (chunks : List (List UInt8)) :
    pieces cur chunks = (reader.segments start cur chunks).map Prod.snd := by
  induction chunks generalizing start cur with
  | nil => rfl
  | cons chunk chunks ih =>
    rcases parseFrames_spec (cur ++ chunk) with ⟨fs, rest, hparse, hok, -⟩ | ⟨hparse, e, herr⟩
    · rw [pieces, hok, Framing.Reader.segments, hparse]
      exact ih start _
    · rw [pieces, herr, Framing.Reader.segments, hparse]
      exact congrArg _ (ih _ _)

/-! ## Well-formed streams -/

/-- Every chunking of well-formed frames and a beginning of one more hands over
    exactly these frames in order, and leaves exactly that beginning. -/
theorem frames_of_every_chunking {frames : List Frame} {next : Frame} {part : List UInt8}
    {chunks : List (List UInt8)} {handled : List (ℕ × Frame)} {buffer : List UInt8}
    (hwf : ∀ f ∈ frames, f.WellFormed) (hnext : next.WellFormed) (hpart : part <+: next.encode)
    (hproper : part ≠ next.encode) (hchunks : chunks.flatten = encodeAll frames ++ part)
    (h : Received chunks handled buffer) : handled.map Prod.snd = frames ∧ buffer = part := by
  have hreads := reads_encode hwf part
  have hmore := look_of_proper_prefix hnext hpart hproper
  have hparse : reader.parse ([] ++ chunks.flatten) = some (frames, part) := by
    rw [List.nil_append, hchunks]
    exact reader.parse_eq_some_iff.2 ⟨hreads, hmore⟩
  have hfeed := reader.feed_of_parse reader.parse_nil hparse
  obtain ⟨rfl, rfl⟩ := h.eq
  rw [Framing.Reader.deliver_snd, hfeed]
  exact ⟨rfl, rfl⟩

/-- A ping and the first three bytes of a pong, cut inside both headers. -/
theorem frames_of_every_chunking_ping :
    ((RpcClientHandler.handled 0 []
      [[0x4D], [0x52, 1, 0, 4, 0, 0, 0], [0, 0x4D, 0x52], [1]]).1.map Prod.snd = [Frame.ping]) ∧
    (RpcClientHandler.handled 0 []
      [[0x4D], [0x52, 1, 0, 4, 0, 0, 0], [0, 0x4D, 0x52], [1]]).2 = [0x4D, 0x52, 1] :=
  frames_of_every_chunking
    (fun f hf => by
      rw [List.mem_singleton.1 hf]
      exact Frame.wellFormed_ofPayload (by decide))
    (show Frame.pong.WellFormed from Frame.wellFormed_ofPayload (by decide))
    ⟨[0, 5, 0, 0, 0, 0], by decide⟩ (by decide) (by decide) .client

/-! ## Frames in front of a malformed header -/

/-- The bytes between the frames and the end of a run of whole chunks. -/
theorem parse_run {frames : List Frame} {rest : List UInt8} {pre chunks : List (List UInt8)}
    (hwf : ∀ f ∈ frames, f.WellFormed) (hrest : MalformedHeader rest)
    (hchunks : chunks.flatten = encodeAll frames ++ rest) (hpre : pre <+: chunks) :
    ((reader.parse pre.flatten).isSome ∧ reader.frames pre.flatten = frames) ↔
      (encodeAll frames).length ≤ pre.flatten.length ∧
        pre.flatten.length < (encodeAll frames).length + headerSize := by
  obtain ⟨post, rfl⟩ := hpre
  rw [List.flatten_append] at hchunks
  constructor
  · rintro ⟨hsome, hframes⟩
    obtain ⟨⟨fs, rest'⟩, hparse⟩ := Option.isSome_iff_exists.1 hsome
    rw [Framing.Reader.frames_of_parse hparse] at hframes
    subst hframes
    have hlength := reader.parse_length hparse
    rw [sum_size hwf] at hlength
    refine ⟨by omega, ?_⟩
    -- nine bytes behind the frames would be the malformed header
    by_contra hlong
    obtain ⟨hreads, hmore⟩ := reader.parse_eq_some_iff.1 hparse
    have happend := hreads.append post.flatten
    have hstream := reads_encode hwf rest
    rw [← encodeAll, ← hchunks] at hstream
    have hreject := malformedHeader_iff.1 hrest
    obtain ⟨hs, hnil, htail⟩ := happend.continue hstream (by simp [reader, hreject])
    rw [List.self_eq_append_right] at hnil
    subst hnil
    cases htail
    have hbad : MalformedHeader rest' := by
      refine ⟨by omega, ?_⟩
      have hdecode := hrest.decode
      rwa [List.take_append_of_le_length (by omega)] at hdecode
    have hreject' := malformedHeader_iff.1 hbad
    change look rest' = .more at hmore
    rw [hreject'] at hmore
    cases hmore
  · rintro ⟨hle, hlt⟩
    obtain ⟨part, hpart⟩ : encodeAll frames <+: pre.flatten :=
      List.prefix_of_prefix_length_le (List.prefix_append _ rest)
        (hchunks ▸ List.prefix_append _ post.flatten) hle
    have hshort : look part = .more := by
      have hlength := congrArg List.length hpart
      rw [List.length_append] at hlength
      rw [look, if_pos (by omega)]
    have hparse : reader.parse pre.flatten = some (frames, part) := by
      rw [← hpart]
      exact reader.parse_eq_some_iff.2 ⟨reads_encode hwf part, hshort⟩
    rw [hparse]
    exact ⟨rfl, Framing.Reader.frames_of_parse hparse⟩

/-- The frames in front of a malformed header are all handed over if and only if
    some chunk ends behind the last of them and before the header is complete
    (or no chunk has to). -/
theorem frames_before_malformed_iff {frames : List Frame} {rest : List UInt8}
    {chunks : List (List UInt8)} {handled : List (ℕ × Frame)} {buffer : List UInt8}
    (hwf : ∀ f ∈ frames, f.WellFormed) (hrest : MalformedHeader rest)
    (hchunks : chunks.flatten = encodeAll frames ++ rest) (h : Received chunks handled buffer) :
    (handled.filter fun p => p.1 < (encodeAll frames).length).map Prod.snd = frames ↔
      ∃ pre, pre <+: chunks ∧ (encodeAll frames).length ≤ pre.flatten.length ∧
        pre.flatten.length < (encodeAll frames).length + headerSize := by
  have hreads := reads_encode hwf rest
  rw [← encodeAll, ← hchunks] at hreads
  have hreject := malformedHeader_iff.1 hrest
  obtain ⟨rfl, -⟩ := h.eq
  have hbefore := Framing.Reader.deliver_before_eq_iff hreads hreject
  rw [sum_size hwf] at hbefore
  rw [hbefore]
  exact exists_congr fun pre => and_congr_right fun hpre => parse_run hwf hrest hchunks hpre

theorem frames_before_malformed_iff_ping :
    ((RpcClientHandler.handled 0 [] [Frame.ping.encode, List.replicate 9 0]).1.filter
        fun p => p.1 < (encodeAll [Frame.ping]).length).map Prod.snd = [Frame.ping] ↔
      ∃ pre, pre <+: [Frame.ping.encode, List.replicate 9 0] ∧
        (encodeAll [Frame.ping]).length ≤ pre.flatten.length ∧
        pre.flatten.length < (encodeAll [Frame.ping]).length + headerSize :=
  frames_before_malformed_iff
    (fun f hf => by
      rw [List.mem_singleton.1 hf]
      exact Frame.wellFormed_ofPayload (by decide))
    (show MalformedHeader (List.replicate 9 0) from malformedHeader_iff.2 (by decide))
    (by decide) .client

/-- A ping is lost if nine zero bytes come in the same chunk, and not if they
    come in the next one. -/
theorem ping_lost_before_malformed :
    MalformedHeader (List.replicate 9 0) ∧
    (RpcClientHandler.handled 0 [] [Frame.ping.encode ++ List.replicate 9 0]).1 = [] ∧
    (RpcClientHandler.handled 0 [] [Frame.ping.encode, List.replicate 9 0]).1 =
      [(0, Frame.ping)] :=
  ⟨malformedHeader_iff.2 (by decide), by decide, by decide⟩

/-! ## Behind a malformed header -/

/-- No piece of the stream but the first begins with a complete well-formed
    frame. -/
def RestartsQuiet (chunks : List (List UInt8)) : Prop :=
  ∀ piece ∈ (pieces [] chunks).tail, ¬ BeginsWithFrame piece

theorem handled_lt_iff {chunks : List (List UInt8)} {k : ℕ} {handled : List (ℕ × Frame)}
    {buffer : List UInt8} (hk : FirstMalformed chunks.flatten k)
    (h : Received chunks handled buffer) :
    (∀ p ∈ handled, p.1 < k) ↔ RestartsQuiet chunks := by
  obtain ⟨frames, rest, hwf, heq, hrest, rfl⟩ := hk
  have hreads := reads_encode hwf rest
  rw [← encodeAll, ← heq] at hreads
  obtain ⟨rfl, -⟩ := h.eq
  rw [← sum_size hwf, Framing.Reader.deliver_lt_iff hreads (malformedHeader_iff.1 hrest),
    RestartsQuiet, pieces_eq 0, ← List.map_tail, List.forall_mem_map]
  refine forall₂_congr fun p _ => ?_
  rw [BeginsWithFrame, not_exists]
  exact forall_congr' fun f => not_congr look_eq_frame_iff

/-- What a client puts on the wire for a call: a request whose header states the
    length of its payload, or a length that no header may state. -/
def IsRequest (f : Frame) : Prop :=
  (∃ requestId serviceId methodId args oneWay,
    f = Frame.request requestId serviceId methodId args oneWay) ∧
  (f.header.payloadLen.toNat = f.payload.length ∨ maxPayloadSize < f.header.payloadLen)

theorem IsRequest.version {f : Frame} (h : IsRequest f) : f.header.version = Protocol.version := by
  obtain ⟨⟨requestId, serviceId, methodId, args, oneWay, rfl⟩, -⟩ := h
  rfl

/-- A request that is too large puts a malformed header on the wire. -/
theorem IsRequest.malformed {f : Frame} (h : IsRequest f) (hwf : ¬ f.WellFormed)
    (rest : List UInt8) : MalformedHeader (f.encode ++ rest) := by
  have hlarge : maxPayloadSize < f.header.payloadLen := by
    rcases h.2 with hlen | hlarge
    · by_contra hle
      exact hwf ⟨⟨h.version, UInt32.not_lt.1 hle⟩, hlen.symm⟩
    · exact hlarge
  refine ⟨by simp [Frame.encode], fun header hdecode => ?_⟩
  obtain ⟨hheader, heq⟩ := FrameHeader.decode_eq_ok hdecode
  rw [Frame.encode, List.append_assoc, List.take_left' f.header.length_encode] at heq
  rw [FrameHeader.payloadLen_of_encode_eq heq] at hlarge
  exact UInt32.not_lt.2 hheader.payloadLen hlarge

/-- The frames up to the first one that is not well-formed. -/
theorem sent_split (sent : List Frame) : (∀ f ∈ sent, f.WellFormed) ∨
    ∃ good f bad, sent = good ++ f :: bad ∧ (∀ g ∈ good, g.WellFormed) ∧ ¬ f.WellFormed := by
  induction sent with
  | nil => exact .inl (by simp)
  | cons f sent ih =>
    by_cases hf : f.WellFormed
    · rcases ih with hwf | ⟨good, g, bad, rfl, hgood, hg⟩
      · exact .inl (by simpa using ⟨hf, hwf⟩)
      · exact .inr ⟨f :: good, g, bad, rfl, by simpa using ⟨hf, hgood⟩, hg⟩
    · exact .inr ⟨[], f, sent, rfl, by simp, hf⟩

theorem handled_mem_sent {chunks : List (List UInt8)} {handled : List (ℕ × Frame)}
    {buffer : List UInt8} {sent : List Frame} (h : Received chunks handled buffer)
    (hsent : ∀ f ∈ sent, IsRequest f) (hchunks : chunks.flatten = encodeAll sent)
    (hquiet : RestartsQuiet chunks) : ∀ p ∈ handled, p.2 ∈ sent := by
  intro p hp
  rcases sent_split sent with hwf | ⟨good, f, bad, rfl, hgood, hf⟩
  · have hreads := reads_encode hwf []
    rw [List.append_nil, ← encodeAll, ← hchunks] at hreads
    have hparse : reader.parse ([] ++ chunks.flatten) = some (sent, []) :=
      reader.parse_eq_some_iff.2 ⟨hreads, rfl⟩
    obtain ⟨rfl, -⟩ := h.eq
    have hframes := reader.feed_of_parse reader.parse_nil hparse
    have hmem := List.mem_map_of_mem (f := Prod.snd) hp
    rwa [Framing.Reader.deliver_snd, hframes] at hmem
  · have hstream : chunks.flatten = encodeAll good ++ (f.encode ++ encodeAll bad) := by
      simpa [encodeAll] using hchunks
    have hbad := (hsent f (by simp)).malformed hf (encodeAll bad)
    have hk : FirstMalformed chunks.flatten (encodeAll good).length :=
      ⟨good, _, hgood, hstream, hbad, rfl⟩
    have hlt := (handled_lt_iff hk h).2 hquiet p hp
    have hreads := reads_encode hgood (f.encode ++ encodeAll bad)
    rw [← encodeAll, ← hstream] at hreads
    obtain ⟨rfl, -⟩ := h.eq
    have hbefore := Framing.Reader.deliver_before_prefix hreads (malformedHeader_iff.1 hbad)
    rw [sum_size hgood] at hbefore
    have hmem := hbefore.subset (List.mem_map_of_mem (List.mem_filter.2 ⟨hp, by simpa using hlt⟩))
    exact List.mem_append_left _ hmem

/-- Nothing behind a malformed header is handed over as a frame if and only if no
    restart meets a frame, and then what is handed over of a stream of requests
    are requests that were sent. -/
theorem nothing_behind_malformed_iff {chunks : List (List UInt8)} {handled : List (ℕ × Frame)}
    {buffer : List UInt8} (h : Received chunks handled buffer) :
    (∀ k, FirstMalformed chunks.flatten k →
      ((∀ p ∈ handled, p.1 < k) ↔ RestartsQuiet chunks)) ∧
    ∀ sent, (∀ f ∈ sent, IsRequest f) → chunks.flatten = encodeAll sent → RestartsQuiet chunks →
      ∀ p ∈ handled, p.2 ∈ sent :=
  ⟨fun _ hk => handled_lt_iff hk h,
    fun _ hsent hchunks hquiet => handled_mem_sent h hsent hchunks hquiet⟩

theorem nothing_behind_malformed_iff_request :
    ((∀ p ∈ (RpcClientHandler.handled 0 [] [List.replicate 9 0]).1, p.1 < 0) ↔
      RestartsQuiet [List.replicate 9 0]) ∧
    ∀ p ∈ (RpcClientHandler.handled 0 [] [(Frame.request 7 0 1 [9] false).encode]).1,
      p.2 ∈ [Frame.request 7 0 1 [9] false] := by
  have hmalformed : FirstMalformed [List.replicate 9 0].flatten 0 :=
    ⟨[], List.replicate 9 0, by simp, rfl, malformedHeader_iff.2 (by decide), rfl⟩
  have hrequest : IsRequest (Frame.request 7 0 1 [9] false) :=
    ⟨⟨7, 0, 1, [9], false, rfl⟩, .inl (by decide)⟩
  have hpieces : (pieces [] [(Frame.request 7 0 1 [9] false).encode]).tail = [] := by decide
  have hquiet : RestartsQuiet [(Frame.request 7 0 1 [9] false).encode] := by
    rw [RestartsQuiet, hpieces]
    simp
  exact ⟨(nothing_behind_malformed_iff .client).1 0 hmalformed,
    (nothing_behind_malformed_iff .client).2 [Frame.request 7 0 1 [9] false]
      (by simpa using hrequest) (by decide) hquiet⟩

/-- The header of a request with arguments of 32 MiB, and then a chunk that begins
    with what looks like a request among these arguments. -/
theorem request_from_inside_arguments :
    FirstMalformed ([0x4D, 0x52, 1, 0, 1, 0, 0, 0, 2] ++ (Frame.request 7 0 1 [9] false).encode) 0 ∧
    (RpcServerHandler.handled 1 0 ⟨fun _ => some []⟩
      [(1, [0x4D, 0x52, 1, 0, 1, 0, 0, 0, 2]), (1, (Frame.request 7 0 1 [9] false).encode)]).1 =
      [(9, Frame.request 7 0 1 [9] false)] :=
  ⟨⟨[], _, by simp, rfl, malformedHeader_iff.2 (by decide), rfl⟩, by decide⟩
