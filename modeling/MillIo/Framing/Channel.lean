-- SUMMARY: A byte stream that carries frames to a receiver: no frame is lost, duplicated or reordered, in any chunking.
import MillIo.Framing.Receiver

/-!
# Frames in transit

The sender writes encoded frames to a stream. The bytes reach the receiver in
chunks, and the frames of a chunk are taken one by one. Each frame that has been
sent is taken, in the hands of the receiver, or has not been received completely.
-/

namespace Framing

namespace Reader

variable {β φ : Type*} {r : Reader β φ} {frames taken inHand fs : List φ} {f : φ}
  {written bs buf : List β} {delivered n : ℕ}

/-- The stream `written` consists of `frames`. Of its bytes, `delivered` have reached
    the receiver, and of the frames in them `taken` have been taken, `inHand` have
    not, and the bytes `buf` are left. -/
structure Carries (r : Reader β φ) (frames taken : List φ) (written : List β) (delivered : ℕ)
    (buf : List β) (inHand : List φ) : Prop where
  reads : r.Reads written frames []
  le : delivered ≤ written.length
  parsed : r.parse (written.take delivered) = some (taken ++ inHand, buf)

/-- An empty stream carries nothing. -/
theorem carries_nil : r.Carries [] [] [] 0 [] [] :=
  ⟨.nil, Nat.zero_le _, r.parse_nil⟩

theorem parse_of_reads (h : r.Reads written frames []) : r.parse written = some (frames, []) :=
  parse_eq_some_iff.2 ⟨h, r.look_nil⟩

namespace Carries

/-- The sender writes one more frame. -/
theorem write (h : r.Carries frames taken written delivered buf inHand) (hbs : r.Reads bs [f] []) :
    r.Carries (frames ++ [f]) taken (written ++ bs) delivered buf inHand where
  reads := (h.reads.append bs).trans hbs
  le := h.le.trans (by simp)
  parsed := by
    rw [List.take_append_of_le_length h.le]
    exact h.parsed

theorem split (h : r.Carries frames taken written delivered buf inHand) :
    ∃ gs, r.parse (buf ++ written.drop delivered) = some (gs, []) ∧
      frames = taken ++ inHand ++ gs := by
  have hall := parse_of_reads h.reads
  rw [← List.take_append_drop delivered written, parse_append h.parsed] at hall
  obtain ⟨⟨gs, rest⟩, hgs, heq⟩ := Option.map_eq_some_iff.1 hall
  cases heq
  exact ⟨gs, hgs, rfl⟩

/-- What has been taken or is in hand is a beginning of what has been sent. -/
theorem isPrefix (h : r.Carries frames taken written delivered buf inHand) :
    taken ++ inHand <+: frames := by
  obtain ⟨gs, -, heq⟩ := h.split
  exact ⟨gs, heq.symm⟩

/-- The next bytes reach the receiver, which has nothing in hand. -/
theorem receive (h : r.Carries frames taken written delivered buf [])
    (hn : delivered + n ≤ written.length) :
    r.Carries frames taken written (delivered + n)
      (r.receive buf ((written.drop delivered).take n)).2
      (r.receive buf ((written.drop delivered).take n)).1 := by
  obtain ⟨gs, hgs, -⟩ := h.split
  rw [← List.take_append_drop n (written.drop delivered), ← List.append_assoc] at hgs
  cases hchunk : r.parse (buf ++ (written.drop delivered).take n) with
  | none =>
    rw [parse_none_append hchunk] at hgs
    cases hgs
  | some p =>
    refine ⟨h.reads, hn, ?_⟩
    rw [List.take_add, parse_append h.parsed, hchunk, Reader.receive, hchunk]
    simp

/-- The receiver takes the first frame that it has in hand. -/
theorem take (h : r.Carries frames taken written delivered buf (f :: fs)) :
    r.Carries frames (taken ++ [f]) written delivered buf fs :=
  ⟨h.reads, h.le, by simpa using h.parsed⟩

/-- When all bytes have been delivered and nothing is in hand, all frames have been
    taken. -/
theorem all_taken (h : r.Carries frames taken written delivered buf [])
    (hall : delivered = written.length) : taken = frames := by
  have hparse := h.parsed
  rw [hall, List.take_length, parse_of_reads h.reads] at hparse
  cases hparse
  simp

end Carries

end Reader

end Framing
