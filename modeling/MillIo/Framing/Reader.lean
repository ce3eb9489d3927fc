-- SUMMARY: Readers that find one frame at the front of a byte stream, and reading all frames of a buffer with them.
import Mathlib.Data.List.Basic
import Mathlib.Algebra.Order.Ring.Nat

/-!
# Reading frames from a stream

A reader looks at the front of the bytes it has so far. It sees a complete
frame, or bytes that no continuation can make well formed, or it needs more.
Bytes that arrive later do not change what it has seen. Reading a buffer takes
frame after frame off its front until the reader needs more or rejects.
-/

namespace Framing

inductive Look (φ : Type*)
  | more
  | reject
  | frame (f : φ)
  deriving DecidableEq

/-- How a reader sees the front of its input, and how many bytes a frame takes.
    Frames and rejections are final. -/
structure Reader (β φ : Type*) where
  look : List β → Look φ
  look_nil : look [] = .more
  size : φ → ℕ
  size_pos : ∀ f, 0 < size f
  size_le : ∀ {bs f}, look bs = .frame f → size f ≤ bs.length
  frame_append : ∀ {bs f} cs, look bs = .frame f → look (bs ++ cs) = .frame f
  reject_append : ∀ {bs} cs, look bs = .reject → look (bs ++ cs) = .reject

namespace Reader

variable {β φ : Type*} {r : Reader β φ} {bs cs rest rest' : List β} {f : φ} {fs gs : List φ}

/-! ## Reading as a relation -/

/-- The frames `fs` stand one after the other at the front of the bytes, and
    `rest` is what comes behind them. -/
inductive Reads (r : Reader β φ) : List β → List φ → List β → Prop
  | nil {bs : List β} : Reads r bs [] bs
  | cons {bs rest : List β} {f : φ} {fs : List φ} :
      r.look bs = .frame f → Reads r (bs.drop (r.size f)) fs rest → Reads r bs (f :: fs) rest

theorem Reads.append (h : r.Reads bs fs rest) (cs : List β) :
    r.Reads (bs ++ cs) fs (rest ++ cs) := by
  induction h with
  | nil => exact .nil
  | cons hlook _ ih =>
    refine .cons (r.frame_append cs hlook) ?_
    rwa [List.drop_append_of_le_length (r.size_le hlook)]

theorem Reads.trans (h : r.Reads bs fs rest) (h' : r.Reads rest gs rest') :
    r.Reads bs (fs ++ gs) rest' := by
  induction h with
  | nil => exact h'
  | cons hlook _ ih => exact .cons hlook (ih h')

theorem Reads.length (h : r.Reads bs fs rest) :
    bs.length = (fs.map r.size).sum + rest.length := by
  induction h with
  | nil => simp
  | cons hlook _ ih =>
    have hle := r.size_le hlook
    simp only [List.length_drop] at ih
    simp only [List.map_cons, List.sum_cons]
    omega

/-- One reading is the beginning of every other that goes on as far as it can. -/
theorem Reads.continue (h : r.Reads bs fs rest) (h' : r.Reads bs gs rest')
    (hend : ∀ f, r.look rest' ≠ .frame f) : ∃ hs, gs = fs ++ hs ∧ r.Reads rest hs rest' := by
  induction h generalizing gs with
  | nil => exact ⟨gs, rfl, h'⟩
  | cons hlook _ ih =>
    cases h' with
    | nil => exact absurd hlook (hend _)
    | cons hlook' h' =>
      rw [hlook] at hlook'
      cases hlook'
      obtain ⟨hs, rfl, hrest⟩ := ih h'
      exact ⟨hs, rfl, hrest⟩

theorem Reads.unique (h : r.Reads bs fs rest) (h' : r.Reads bs gs rest')
    (hend : ∀ f, r.look rest ≠ .frame f) (hend' : ∀ f, r.look rest' ≠ .frame f) :
    gs = fs ∧ rest' = rest := by
  obtain ⟨hs, rfl, hrest⟩ := h.continue h' hend'
  cases hrest with
  | nil => simp
  | cons hlook _ => exact absurd hlook (hend _)

/-! ## Reading as a function -/

def parseFuel (r : Reader β φ) : ℕ → List β → Option (List φ × List β)
  | 0, bs => some ([], bs)
  | fuel + 1, bs =>
    match r.look bs with
    | .more => some ([], bs)
    | .reject => none
    | .frame f => (parseFuel r fuel (bs.drop (r.size f))).map fun p => (f :: p.1, p.2)

/-- All frames of the buffer and the bytes behind them, or nothing at all if the
    reader rejects what comes behind them. -/
def parse (r : Reader β φ) (bs : List β) : Option (List φ × List β) :=
  parseFuel r (bs.length + 1) bs

theorem parseFuel_spec {fuel : ℕ} (hfuel : bs.length < fuel) :
    (∃ fs rest, parseFuel r fuel bs = some (fs, rest) ∧ r.Reads bs fs rest ∧
      r.look rest = .more) ∨
    (parseFuel r fuel bs = none ∧ ∃ fs rest, r.Reads bs fs rest ∧ r.look rest = .reject) := by
  induction fuel generalizing bs with
  | zero => omega
  | succ fuel ih =>
    cases hlook : r.look bs with
    | more => exact .inl ⟨[], bs, by simp [parseFuel, hlook], .nil, hlook⟩
    | reject => exact .inr ⟨by simp [parseFuel, hlook], [], bs, .nil, hlook⟩
    | frame f =>
      -- every frame takes at least one byte, so the fuel lasts for the rest
      have hpos := r.size_pos f
      have hle := r.size_le hlook
      have hdrop : (bs.drop (r.size f)).length < fuel := by
        rw [List.length_drop]
        omega
      rcases ih hdrop with ⟨fs, rest, heq, hreads, hmore⟩ | ⟨heq, fs, rest, hreads, hrej⟩
      · exact .inl ⟨f :: fs, rest, by simp [parseFuel, hlook, heq], .cons hlook hreads, hmore⟩
      · exact .inr ⟨by simp [parseFuel, hlook, heq], f :: fs, rest, .cons hlook hreads, hrej⟩

theorem parse_eq_some_iff :
    r.parse bs = some (fs, rest) ↔ r.Reads bs fs rest ∧ r.look rest = .more := by
  rcases parseFuel_spec (r := r) (Nat.lt_succ_self bs.length) with
    ⟨gs, rest', heq, hreads, hmore⟩ | ⟨heq, gs, rest', hreads, hrej⟩
  · have hend : ∀ f, r.look rest' ≠ .frame f := by simp [hmore]
    constructor
    · intro h
      rw [parse, heq] at h
      cases h
      exact ⟨hreads, hmore⟩
    · rintro ⟨h, h'⟩
      obtain ⟨rfl, rfl⟩ := hreads.unique h hend (by simp [h'])
      exact heq
  · constructor
    · intro h
      rw [parse, heq] at h
      cases h
    · rintro ⟨h, h'⟩
      obtain ⟨rfl, rfl⟩ := hreads.unique h (by simp [hrej]) (by simp [h'])
      rw [hrej] at h'
      cases h'

theorem parse_eq_none_iff :
    r.parse bs = none ↔ ∃ fs rest, r.Reads bs fs rest ∧ r.look rest = .reject := by
  rcases parseFuel_spec (r := r) (Nat.lt_succ_self bs.length) with
    ⟨gs, rest', heq, hreads, hmore⟩ | ⟨heq, gs, rest', hreads, hrej⟩
  · constructor
    · intro h
      rw [parse, heq] at h
      cases h
    · rintro ⟨fs, rest, h, h'⟩
      obtain ⟨rfl, rfl⟩ := hreads.unique h (by simp [hmore]) (by simp [h'])
      rw [hmore] at h'
      cases h'
  · exact iff_of_true heq ⟨gs, rest', hreads, hrej⟩

theorem parse_of_more (h : r.look bs = .more) : r.parse bs = some ([], bs) :=
  parse_eq_some_iff.2 ⟨.nil, h⟩

theorem parse_of_reject (h : r.look bs = .reject) : r.parse bs = none :=
  parse_eq_none_iff.2 ⟨[], bs, .nil, h⟩

theorem parse_of_frame (h : r.look bs = .frame f) :
    r.parse bs = (r.parse (bs.drop (r.size f))).map fun p => (f :: p.1, p.2) := by
  cases hrest : r.parse (bs.drop (r.size f)) with
  | none =>
    obtain ⟨fs, rest, hreads, hrej⟩ := parse_eq_none_iff.1 hrest
    exact parse_eq_none_iff.2 ⟨f :: fs, rest, .cons h hreads, hrej⟩
  | some p =>
    obtain ⟨hreads, hmore⟩ := parse_eq_some_iff.1 hrest
    exact parse_eq_some_iff.2 ⟨.cons h hreads, hmore⟩

theorem parse_none_append (h : r.parse bs = none) (cs : List β) : r.parse (bs ++ cs) = none := by
  obtain ⟨fs, rest, hreads, hrej⟩ := parse_eq_none_iff.1 h
  exact parse_eq_none_iff.2 ⟨fs, rest ++ cs, hreads.append cs, r.reject_append cs hrej⟩

/-- Reading goes on behind the frames that have been taken off. -/
theorem parse_append (h : r.parse bs = some (fs, rest)) (cs : List β) :
    r.parse (bs ++ cs) = (r.parse (rest ++ cs)).map fun p => (fs ++ p.1, p.2) := by
  obtain ⟨hreads, -⟩ := parse_eq_some_iff.1 h
  cases hrest : r.parse (rest ++ cs) with
  | none =>
    obtain ⟨gs, rest', hreads', hrej⟩ := parse_eq_none_iff.1 hrest
    exact parse_eq_none_iff.2 ⟨fs ++ gs, rest', (hreads.append cs).trans hreads', hrej⟩
  | some p =>
    obtain ⟨hreads', hmore⟩ := parse_eq_some_iff.1 hrest
    exact parse_eq_some_iff.2 ⟨(hreads.append cs).trans hreads', hmore⟩

/-- What has been read is settled: reading it again finds no frame. -/
theorem parse_rest (h : r.parse bs = some (fs, rest)) : r.parse rest = some ([], rest) :=
  parse_of_more (parse_eq_some_iff.1 h).2

theorem parse_length (h : r.parse bs = some (fs, rest)) :
    bs.length = (fs.map r.size).sum + rest.length :=
  (parse_eq_some_iff.1 h).1.length

theorem parse_nil : r.parse [] = some ([], []) :=
  parse_of_more r.look_nil

end Reader

end Framing
