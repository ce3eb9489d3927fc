-- SUMMARY: Arithmetic of a ring of time slots that a cursor visits one block at a time.
import Mathlib.Data.Nat.Basic
import Mathlib.Algebra.Order.Group.Nat
import Mathlib.Tactic.Common

/-!
# Rings of time slots

A ring has `n` slots, each covering a block of `u` consecutive ticks; the tick
`t` belongs to the block `t / u` and so to the slot `t / u % n`. A cursor `c`
moves forward one tick at a time and visits a slot when it enters a block of
that slot. A deadline may sit in the ring as long as the next visit of its slot
is the one for its own block.
-/

namespace SlotRing

/-- The slot of a ring that the tick `t` falls into. -/
def slotOf (u n t : ℕ) : ℕ := t / u % n

/-- The block of the deadline `d` is yet to be entered by the cursor `c`, and no
    earlier block shares its slot. A deadline `n` blocks ahead shares the slot
    the cursor is in, whose visit is over. -/
def Ahead (u n c d : ℕ) : Prop := c / u < d / u ∧ d / u ≤ c / u + n

/-- What is known of a deadline in the ring before the slot of the cursor has
    been visited: at the first tick of a block the deadline may be in that very
    block. -/
def Nearing (u n c d : ℕ) : Prop :=
  if c % u = 0 then c / u ≤ d / u ∧ d / u < c / u + n else Ahead u n c d

variable {u n c d : ℕ}

/-! ## Placing a deadline -/

/-- A deadline that is at least one block and less than a full turn away may be
    put into the ring. -/
theorem ahead_of_le (hu : 0 < u) (hlow : u ≤ d - c) (hhigh : d - c < n * u) : Ahead u n c d := by
  have hc := Nat.div_add_mod c u
  have hmod := Nat.mod_lt c hu
  constructor
  · rw [Nat.lt_iff_add_one_le, Nat.le_div_iff_mul_le hu, Nat.add_mul, Nat.mul_comm (c / u) u]
    omega
  · rw [← Nat.lt_add_one_iff, Nat.div_lt_iff_lt_mul hu]
    simp only [Nat.add_mul, Nat.mul_comm (c / u) u]
    omega

theorem nearing_of_lt (hu : 0 < u) (hcd : c ≤ d) (hlow : u ≤ d - c ∨ c % u = 0)
    (hhigh : d - c < n * u) : Nearing u n c d := by
  have hc := Nat.div_add_mod c u
  have hmod := Nat.mod_lt c hu
  unfold Nearing
  split
  · rename_i h0
    refine ⟨Nat.div_le_div_right hcd, (Nat.div_lt_iff_lt_mul hu).2 ?_⟩
    rw [Nat.add_mul, Nat.mul_comm (c / u) u]
    omega
  · rename_i h0
    exact ahead_of_le hu (hlow.resolve_right h0) hhigh

/-! ## Moving the cursor -/

theorem Ahead.lt (h : Ahead u n c d) : c < d :=
  Nat.lt_of_not_le fun hdc => absurd (Nat.div_le_div_right (c := u) hdc) (by have := h.1; omega)

theorem Ahead.succ (h : Ahead u n c d) : Nearing u n (c + 1) d := by
  obtain ⟨hlow, hhigh⟩ := h
  have hsucc : (c + 1) / u = c / u + if u ∣ c + 1 then 1 else 0 := Nat.succ_div
  unfold Nearing
  split
  · rename_i h0
    rw [if_pos (Nat.dvd_of_mod_eq_zero h0)] at hsucc
    omega
  · rename_i h0
    rw [if_neg fun hdvd => h0 (Nat.mod_eq_zero_of_dvd hdvd)] at hsucc
    unfold Ahead
    omega

/-! ## Visiting a slot -/

theorem Nearing.ahead_of_mod_ne (h : Nearing u n c d) (h0 : c % u ≠ 0) : Ahead u n c d := by
  unfold Nearing at h
  rwa [if_neg h0] at h

/-- A slot that is visited at the first tick of a block holds deadlines of that
    block only. -/
theorem Nearing.div_eq (h : Nearing u n c d) (h0 : c % u = 0) (hslot : slotOf u n d = slotOf u n c) :
    d / u = c / u := by
  unfold Nearing at h
  rw [if_pos h0] at h
  obtain ⟨hlow, hhigh⟩ := h
  have hdvd : n ∣ d / u - c / u := Nat.dvd_of_mod_eq_zero (Nat.sub_mod_eq_zero_of_mod_eq hslot)
  have hzero := Nat.eq_zero_of_dvd_of_lt hdvd (by omega)
  omega

theorem Nearing.ahead_of_slot_ne (h : Nearing u n c d) (h0 : c % u = 0)
    (hslot : slotOf u n d ≠ slotOf u n c) : Ahead u n c d := by
  unfold Nearing at h
  rw [if_pos h0] at h
  obtain ⟨hlow, hhigh⟩ := h
  have hne : c / u ≠ d / u := fun he => hslot (by simp only [slotOf, he])
  exact ⟨by omega, by omega⟩

/-- Emptying the slot of the cursor at the first tick of a block leaves only
    deadlines of later blocks in the ring. -/
theorem Nearing.lt_of_div_eq (hu : 0 < u) (h0 : c % u = 0) (hdiv : d / u = c / u) : d < c + u := by
  have hc := Nat.div_add_mod c u
  have hd := Nat.div_add_mod d u
  have hmod := Nat.mod_lt d hu
  rw [hdiv] at hd
  omega

end SlotRing
