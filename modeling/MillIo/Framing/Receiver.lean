-- SUMMARY: A receiver that buffers the chunks of a stream and reads the frames of its buffer, and what it makes of any chunking.
import MillIo.Framing.Reader

/-!
# Receiving a stream in chunks

The receiver appends each chunk to its buffer, hands over the complete frames at
the front and keeps the rest. When the reader rejects the buffer, the receiver
drops all of it and starts afresh with the next chunk.
-/

namespace Framing

namespace Reader

variable {β φ : Type*} (r : Reader β φ)

/-- The frames that one chunk makes the receiver hand over, and its new buffer. -/
def receive (buf chunk : List β) : List φ × List β :=
  match r.parse (buf ++ chunk) with
  | some p => p
  | none => ([], [])

/-- The frames handed over for the chunks, and the buffer in the end. -/
def feed (buf : List β) : List (List β) → List φ × List β
  | [] => ([], buf)
  | chunk :: chunks =>
    let p := r.receive buf chunk
    let q := feed p.2 chunks
    (p.1 ++ q.1, q.2)

/-- Frames that stand one after the other from an offset on, each with its own
    offset. -/
def located (start : ℕ) : List φ → List (ℕ × φ)
  | [] => []
  | f :: fs => (start, f) :: located (start + r.size f) fs

/-- The frames of `feed`, each with its offset in the stream. The buffer begins
    at `start`. -/
def deliver (start : ℕ) (buf : List β) : List (List β) → List (ℕ × φ)
  | [] => []
  | chunk :: chunks =>
    match r.parse (buf ++ chunk) with
    | some p =>
      r.located start p.1 ++ deliver (start + (p.1.map r.size).sum) p.2 chunks
    | none => deliver (start + (buf ++ chunk).length) [] chunks

/-- The stream cut at the chunks that make the receiver start afresh: what it
    reads as one piece, with the offset of each piece. The chunk that is
    rejected belongs to no piece. -/
def segments (start : ℕ) (cur : List β) : List (List β) → List (ℕ × List β)
  | [] => [(start, cur)]
  | chunk :: chunks =>
    if (r.parse (cur ++ chunk)).isSome then segments start (cur ++ chunk) chunks
    else (start, cur) :: segments (start + (cur ++ chunk).length) [] chunks

/-- The complete frames at the front of the bytes. -/
def frames (bs : List β) : List φ := ((r.parse bs).map Prod.fst).getD []

variable {r} {buf bs rest : List β} {fs gs : List φ} {chunks : List (List β)} {start k : ℕ}

/-! ## Streams without a rejection -/

/-- A stream that can be read to its end is read alike in every chunking. -/
theorem feed_of_parse (hbuf : r.parse buf = some ([], buf))
    (h : r.parse (buf ++ chunks.flatten) = some (fs, rest)) : r.feed buf chunks = (fs, rest) := by
  induction chunks generalizing buf fs with
  | nil =>
    rw [List.flatten_nil, List.append_nil, hbuf] at h
    cases h
    rfl
  | cons chunk chunks ih =>
    rw [List.flatten_cons, ← List.append_assoc] at h
    cases hchunk : r.parse (buf ++ chunk) with
    | none =>
      rw [parse_none_append hchunk] at h
      cases h
    | some p =>
      obtain ⟨gs, buf'⟩ := p
      rw [parse_append hchunk] at h
      obtain ⟨q, hq, heq⟩ := Option.map_eq_some_iff.1 h
      cases heq
      simp [feed, receive, hchunk, ih (parse_rest hchunk) hq]

/-! ## Offsets -/

@[simp] theorem located_snd : (r.located start fs).map Prod.snd = fs := by
  induction fs generalizing start with
  | nil => rfl
  | cons f fs ih => simp [located, ih]

theorem located_append :
    r.located start (fs ++ gs) =
      r.located start fs ++ r.located (start + (fs.map r.size).sum) gs := by
  induction fs generalizing start with
  | nil => simp [located]
  | cons f fs ih => simp [located, ih, Nat.add_assoc]

@[simp] theorem located_eq_nil_iff : r.located start fs = [] ↔ fs = [] := by
  cases fs <;> simp [located]

theorem le_of_mem_located {p : ℕ × φ} (h : p ∈ r.located start fs) : start ≤ p.1 := by
  induction fs generalizing start with
  | nil => cases h
  | cons f fs ih =>
    rcases List.mem_cons.1 h with rfl | h
    · exact le_rfl
    · exact (Nat.le_add_right _ _).trans (ih h)

theorem lt_of_mem_located {p : ℕ × φ} (h : p ∈ r.located start fs) :
    p.1 < start + (fs.map r.size).sum := by
  induction fs generalizing start with
  | nil => cases h
  | cons f fs ih =>
    have hpos := r.size_pos f
    simp only [List.map_cons, List.sum_cons]
    rcases List.mem_cons.1 h with rfl | h
    · omega
    · have hlt := ih h
      omega

/-- Behind each chunk the buffer holds the end of what has been received. -/
theorem deliver_cons (chunk : List β) :
    r.deliver start buf (chunk :: chunks) =
      r.located start (r.receive buf chunk).1 ++
        r.deliver (start + ((buf ++ chunk).length - (r.receive buf chunk).2.length))
          (r.receive buf chunk).2 chunks := by
  cases hchunk : r.parse (buf ++ chunk) with
  | none => simp [deliver, receive, hchunk, located]
  | some p =>
    have hlength := parse_length hchunk
    have hconsumed : (buf ++ chunk).length - p.2.length = (p.1.map r.size).sum := by omega
    simp only [deliver, receive, hchunk, hconsumed]

theorem deliver_snd : (r.deliver start buf chunks).map Prod.snd = (r.feed buf chunks).1 := by
  induction chunks generalizing start buf with
  | nil => rfl
  | cons chunk chunks ih =>
    cases hchunk : r.parse (buf ++ chunk) with
    | none => simp [deliver, feed, receive, hchunk, ih]
    | some p => simp [deliver, feed, receive, hchunk, ih]

/-! ## Segments -/

theorem frames_of_parse (h : r.parse bs = some (fs, rest)) : r.frames bs = fs := by
  simp [frames, h]

theorem frames_ne_nil {f : φ} (hbs : (r.parse bs).isSome) (hlook : r.look bs = .frame f) :
    r.frames bs ≠ [] := by
  obtain ⟨⟨fs, rest⟩, hparse⟩ := Option.isSome_iff_exists.1 hbs
  obtain ⟨hreads, hmore⟩ := parse_eq_some_iff.1 hparse
  rw [frames_of_parse hparse]
  rintro rfl
  cases hreads
  rw [hlook] at hmore
  cases hmore

theorem frames_eq_nil (hlook : ∀ f, r.look bs ≠ .frame f) : r.frames bs = [] := by
  cases hparse : r.parse bs with
  | none => simp [frames, hparse]
  | some p =>
    obtain ⟨fs, rest⟩ := p
    rw [frames_of_parse hparse]
    cases (parse_eq_some_iff.1 hparse).1 with
    | nil => rfl
    | cons h _ => exact absurd h (hlook _)

theorem frames_prefix_append {cs : List β} (hbs : (r.parse bs).isSome)
    (hcs : (r.parse (bs ++ cs)).isSome) : r.frames bs <+: r.frames (bs ++ cs) := by
  obtain ⟨⟨fs, rest⟩, hparse⟩ := Option.isSome_iff_exists.1 hbs
  obtain ⟨q, hq⟩ := Option.isSome_iff_exists.1 hcs
  have happend := hq
  rw [parse_append hparse] at happend
  obtain ⟨q', -, rfl⟩ := Option.map_eq_some_iff.1 happend
  rw [frames_of_parse hparse, frames_of_parse hq]
  exact List.prefix_append fs q'.1

/-- What the receiver hands over are the frames of the segments. -/
theorem deliver_eq_segments (start : ℕ) (chunks : List (List β))
    (h : r.parse bs = some (gs, buf)) :
    r.located start gs ++ r.deliver (start + (gs.map r.size).sum) buf chunks =
      (r.segments start bs chunks).flatMap fun p => r.located p.1 (r.frames p.2) := by
  induction chunks generalizing start bs gs buf with
  | nil => simp [deliver, segments, frames_of_parse h]
  | cons chunk chunks ih =>
    have happend := parse_append h chunk
    have hlength := parse_length h
    cases hchunk : r.parse (buf ++ chunk) with
    | none =>
      rw [hchunk] at happend
      have hstart : start + (gs.map r.size).sum + (buf ++ chunk).length =
          start + (bs ++ chunk).length := by
        simp only [List.length_append]
        omega
      have hafresh := ih (start + (bs ++ chunk).length) r.parse_nil
      simp only [located, List.map_nil, List.sum_nil, Nat.add_zero, List.nil_append] at hafresh
      simp only [deliver, segments, hchunk, happend, Option.map_none, Option.isSome_none,
        Bool.false_eq_true, if_false, List.flatMap_cons, frames_of_parse h, hstart, hafresh]
    | some p =>
      rw [hchunk] at happend
      have hnext := ih start happend
      simp only [located_append, List.map_append, List.sum_append, List.append_assoc,
        ← Nat.add_assoc] at hnext
      simp [deliver, segments, hchunk, happend, hnext]

theorem deliver_eq (chunks : List (List β)) :
    r.deliver 0 [] chunks =
      (r.segments 0 [] chunks).flatMap fun p => r.located p.1 (r.frames p.2) := by
  simpa [located] using deliver_eq_segments 0 chunks r.parse_nil

theorem start_le_of_mem_segments {p : ℕ × List β} (h : p ∈ r.segments start bs chunks) :
    start ≤ p.1 := by
  induction chunks generalizing start bs with
  | nil =>
    simp only [segments, List.mem_singleton] at h
    rw [h]
  | cons chunk chunks ih =>
    simp only [segments] at h
    split at h
    · exact ih h
    · rcases List.mem_cons.1 h with rfl | h
      · exact le_rfl
      · exact (Nat.le_add_right _ _).trans (ih h)

theorem parse_isSome_of_mem_segments {p : ℕ × List β} (hbs : (r.parse bs).isSome)
    (h : p ∈ r.segments start bs chunks) : (r.parse p.2).isSome := by
  induction chunks generalizing start bs with
  | nil =>
    simp only [segments, List.mem_singleton] at h
    rwa [h]
  | cons chunk chunks ih =>
    simp only [segments] at h
    split at h
    · rename_i hchunk
      exact ih hchunk h
    · rcases List.mem_cons.1 h with rfl | h
      · exact hbs
      · exact ih (by simp [parse_nil]) h

/-- The first segment is a run of whole chunks. It is followed by others only if
    the chunk behind it makes the reader reject, and these begin at or behind
    the end of that chunk. -/
theorem segments_cons (start : ℕ) (chunks : List (List β)) (hbs : (r.parse bs).isSome) :
    ∃ pre tail, r.segments start bs chunks = (start, bs ++ pre.flatten) :: tail ∧
      (r.parse (bs ++ pre.flatten)).isSome ∧
      (tail = [] ∧ pre = chunks ∨ ∃ bad, pre ++ [bad] <+: chunks ∧
        r.parse (bs ++ (pre ++ [bad]).flatten) = none ∧
        ∀ p ∈ tail, start + (bs ++ (pre ++ [bad]).flatten).length ≤ p.1) := by
  induction chunks generalizing bs with
  | nil => exact ⟨[], [], by simp [segments], by simpa using hbs, .inl ⟨rfl, rfl⟩⟩
  | cons chunk chunks ih =>
    by_cases hchunk : (r.parse (bs ++ chunk)).isSome
    · obtain ⟨pre, tail, heq, hpre, htail⟩ := ih hchunk
      rw [List.append_assoc] at heq hpre
      refine ⟨chunk :: pre, tail, by simpa [segments, hchunk] using heq, hpre, ?_⟩
      rcases htail with ⟨rfl, rfl⟩ | ⟨bad, hbad, hnone, hle⟩
      · exact .inl ⟨rfl, rfl⟩
      · rw [List.append_assoc] at hnone hle
        exact .inr ⟨bad, by simpa using hbad, hnone, hle⟩
    · have hnone : r.parse (bs ++ chunk) = none := by simpa using hchunk
      refine ⟨[], r.segments (start + (bs ++ chunk).length) [] chunks, by simp [segments, hnone],
        by simpa using hbs, .inr ⟨chunk, by simp, by simpa using hnone, fun p hp => ?_⟩⟩
      simpa using start_le_of_mem_segments hp

/-! ## Streams with a rejection -/

section Rejected

variable (hreads : r.Reads chunks.flatten fs rest) (hreject : r.look rest = .reject)
include hreads hreject

/-- What can be read of the beginning of the stream are frames before the
    rejection. -/
theorem frames_prefix {pre : List (List β)} (hpre : pre <+: chunks)
    (h : (r.parse pre.flatten).isSome) : r.frames pre.flatten <+: fs := by
  obtain ⟨⟨gs, rest'⟩, hparse⟩ := Option.isSome_iff_exists.1 h
  obtain ⟨post, rfl⟩ := hpre
  rw [List.flatten_append] at hreads
  have happend := (parse_eq_some_iff.1 hparse).1.append post.flatten
  obtain ⟨hs, rfl, -⟩ := happend.continue hreads (by simp [hreject])
  exact ⟨hs, by rw [frames_of_parse hparse]⟩

theorem sum_le_of_parse_none {pre : List (List β)} (hpre : pre <+: chunks)
    (h : r.parse pre.flatten = none) : (fs.map r.size).sum ≤ pre.flatten.length := by
  obtain ⟨gs, rest', hreads', hreject'⟩ := parse_eq_none_iff.1 h
  obtain ⟨post, rfl⟩ := hpre
  rw [List.flatten_append] at hreads
  obtain ⟨rfl, -⟩ := hreads.unique (hreads'.append post.flatten) (by simp [hreject])
    (by simp [r.reject_append _ hreject'])
  have hlength := hreads'.length
  omega

/-- The frames that begin before the rejected bytes are those of the first
    segment, and all others begin behind the rejected bytes. -/
theorem deliver_split : ∃ pre tail, r.segments 0 [] chunks = (0, pre.flatten) :: tail ∧
    pre <+: chunks ∧ (r.parse pre.flatten).isSome ∧
    (∀ pre', pre' <+: chunks → (r.parse pre'.flatten).isSome → pre' <+: pre) ∧
    (∀ p ∈ r.located 0 (r.frames pre.flatten), p.1 < (fs.map r.size).sum) ∧
    ∀ p ∈ tail, (fs.map r.size).sum ≤ p.1 := by
  obtain ⟨pre, tail, heq, hpre, htail⟩ :=
    segments_cons 0 chunks (show (r.parse []).isSome by rw [parse_nil]; rfl)
  simp only [List.nil_append, Nat.zero_add] at heq hpre htail
  have hbegin : pre <+: chunks := by
    rcases htail with ⟨-, rfl⟩ | ⟨bad, hbad, -⟩
    · exact List.prefix_refl _
    · exact (List.prefix_append pre [bad]).trans hbad
  refine ⟨pre, tail, heq, hbegin, hpre, fun pre' hpre' hsome => ?_, fun p hp => ?_, ?_⟩
  · rcases htail with ⟨-, rfl⟩ | ⟨bad, hbad, hnone, -⟩
    · exact hpre'
    · -- a longer beginning of the chunks contains the one that is rejected
      rcases List.prefix_or_prefix_of_prefix hpre' hbad with h | ⟨post, rfl⟩
      · rcases List.prefix_concat_iff.1 h with rfl | h
        · rw [hnone] at hsome
          cases hsome
        · exact h
      · rw [List.flatten_append, parse_none_append hnone] at hsome
        cases hsome
  · obtain ⟨hs, rfl⟩ := frames_prefix hreads hreject hbegin hpre
    have hlt := lt_of_mem_located hp
    simp only [List.map_append, List.sum_append]
    omega
  · rcases htail with ⟨rfl, -⟩ | ⟨bad, hbad, hnone, hle⟩
    · simp
    · intro p hp
      have hsum := sum_le_of_parse_none hreads hreject hbad hnone
      exact hsum.trans (hle p hp)

/-- Nothing behind the rejected bytes is taken for a frame if and only if no
    segment but the first begins with one. -/
theorem deliver_lt_iff :
    (∀ p ∈ r.deliver 0 [] chunks, p.1 < (fs.map r.size).sum) ↔
      ∀ p ∈ (r.segments 0 [] chunks).tail, ∀ f, r.look p.2 ≠ .frame f := by
  obtain ⟨pre, tail, heq, -, -, -, hlt, hle⟩ := deliver_split hreads hreject
  have hsome : ∀ p ∈ tail, (r.parse p.2).isSome := by
    intro p hp
    have hmem : p ∈ r.segments 0 [] chunks := by
      rw [heq]
      exact List.mem_cons_of_mem _ hp
    exact parse_isSome_of_mem_segments (by rw [parse_nil]; rfl) hmem
  rw [deliver_eq, heq, List.tail_cons, List.flatMap_cons]
  simp only [List.mem_append, List.mem_flatMap]
  constructor
  · intro h p hp f hlook
    have hframes := frames_ne_nil (hsome p hp) hlook
    obtain ⟨g, gs, hcons⟩ := List.exists_cons_of_ne_nil hframes
    have hmem : (p.1, g) ∈ r.located p.1 (r.frames p.2) := by simp [hcons, located]
    exact absurd (h (p.1, g) (.inr ⟨p, hp, hmem⟩)) (Nat.not_lt.2 (hle p hp))
  · rintro h p (hp | ⟨q, hq, hp⟩)
    · exact hlt p hp
    · rw [frames_eq_nil (h q hq)] at hp
      cases hp

/-- What is handed over of the frames before the rejected bytes comes from the
    chunks in front of the first one that is rejected. -/
theorem deliver_before : ∃ pre, pre <+: chunks ∧ (r.parse pre.flatten).isSome ∧
    (∀ pre', pre' <+: chunks → (r.parse pre'.flatten).isSome → pre' <+: pre) ∧
    ((r.deliver 0 [] chunks).filter fun p => p.1 < (fs.map r.size).sum) =
      r.located 0 (r.frames pre.flatten) := by
  obtain ⟨pre, tail, heq, hbegin, hpre, hmax, hlt, hle⟩ := deliver_split hreads hreject
  refine ⟨pre, hbegin, hpre, hmax, ?_⟩
  rw [deliver_eq, heq, List.flatMap_cons, List.filter_append,
    List.filter_eq_self.2 (by simpa using hlt), List.filter_eq_nil_iff.2 ?_, List.append_nil]
  intro p hp
  obtain ⟨q, hq, hp⟩ := List.mem_flatMap.1 hp
  simpa using (hle q hq).trans (le_of_mem_located hp)

theorem deliver_before_prefix :
    ((r.deliver 0 [] chunks).filter fun p => p.1 < (fs.map r.size).sum).map Prod.snd <+: fs := by
  obtain ⟨pre, hbegin, hpre, -, heq⟩ := deliver_before hreads hreject
  rw [heq, located_snd]
  exact frames_prefix hreads hreject hbegin hpre

/-- The frames before the rejected bytes are all handed over if and only if a
    run of whole chunks from the start ends behind the last of them and is not
    yet rejected. -/
theorem deliver_before_eq_iff :
    ((r.deliver 0 [] chunks).filter fun p => p.1 < (fs.map r.size).sum).map Prod.snd = fs ↔
      ∃ pre, pre <+: chunks ∧ (r.parse pre.flatten).isSome ∧ r.frames pre.flatten = fs := by
  obtain ⟨pre, hbegin, hpre, hmax, heq⟩ := deliver_before hreads hreject
  rw [heq, located_snd]
  constructor
  · exact fun h => ⟨pre, hbegin, hpre, h⟩
  · rintro ⟨pre', hpre', hsome, hframes⟩
    -- the chunks in front of the rejected one go at least as far as any other run
    obtain ⟨post, rfl⟩ := hmax pre' hpre' hsome
    have hge := frames_prefix hreads hreject hbegin hpre
    rw [List.flatten_append] at hpre hge ⊢
    have hle := frames_prefix_append hsome hpre
    rw [hframes] at hle
    exact hge.eq_of_length_le hle.length_le

end Rejected

end Reader

end Framing
