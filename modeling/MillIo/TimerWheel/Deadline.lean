-- SUMMARY: When the deadline that a schedule or a re-arming computes from a delay is exact.
import MillIo.TimerWheel.Serial

/-!
# Deadlines

A deadline is the tick of a clock reading plus a delay in whole milliseconds.
`Duration::as_millis` is a `u128` that is cast to `u64`, and the sum of the two is
not a saturating one, so both steps can lose the high bits of a long delay.
-/
namespace TimerWheel

open Interleaving

namespace WheelInner

section Deadline

variable {w : WheelInner} {now : Instant} {delay : Duration}

/-- The deadline is not before the sum of the tick and the delay, capped at
    `u64::MAX`, and no bit was lost in computing it: where the sum does not fit,
    it panics in a checked build and wraps in others. -/
structure ExactDeadline (w : WheelInner) (now : Instant) (delay : Duration) (deadlineTick : ℕ) :
    Prop where
  not_before : min (w.instantToTick now + asMillis delay) (2 ^ 64 - 1) ≤ deadlineTick
  narrowed : asU64 (asMillis delay) = asMillis delay
  added : w.DelayFits now delay

/-- The timer has been entered with an exact deadline. -/
def EntersExactly (w w' : WheelInner) (id : TimerId) (now : Instant) (delay : Duration) : Prop :=
  ∃ entry, w'.lookup id = some entry ∧ w.ExactDeadline now delay entry.deadlineTick

/-- A delay with which the deadline fits is not narrowed. -/
theorem asU64_delay (h : w.instantToTick now + asMillis delay < 2 ^ 64) :
    asU64 (asMillis delay) = asMillis delay :=
  Nat.mod_eq_of_lt (Nat.lt_of_le_of_lt (Nat.le_add_left _ _) h)

theorem deadlineFor_eq (h : w.instantToTick now + asMillis delay < 2 ^ 64) :
    w.deadlineFor now delay = w.instantToTick now + asMillis delay := by
  rw [deadlineFor, asU64_delay h]
  exact Nat.mod_eq_of_lt h

theorem exactDeadline_iff : w.ExactDeadline now delay (w.deadlineFor now delay) ↔
    w.instantToTick now + asMillis delay < 2 ^ 64 := by
  constructor
  · intro h
    have hsum : w.instantToTick now + asU64 (asMillis delay) < 2 ^ 64 := h.added
    rwa [h.narrowed] at hsum
  · intro h
    have hdelay := asU64_delay h
    refine ⟨?_, hdelay, ?_⟩
    · rw [deadlineFor_eq h]
      exact Nat.min_le_left _ _
    · unfold DelayFits
      rwa [hdelay]

/-- What is entered under the id decides. -/
theorem entersExactly_insertEntry {u : WheelInner} {id : TimerId} {kind : TimerKind} :
    w.EntersExactly (u.insertEntry ⟨id, w.deadlineFor now delay, kind⟩) id now delay ↔
      w.instantToTick now + asMillis delay < 2 ^ 64 := by
  have hlookup : (u.insertEntry ⟨id, w.deadlineFor now delay, kind⟩).lookup id =
      some ⟨id, w.deadlineFor now delay, kind⟩ := by simp
  simp only [EntersExactly, hlookup, Option.some.injEq, exists_eq_left', exactDeadline_iff]

/-- The three places where a deadline is made from a delay lose nothing exactly as
    long as the tick and the delay add up to a `u64`. A re-arming makes one for
    the timers that were not cancelled in flight. -/
theorem deadlines_exact_iff (w : WheelInner) (id : TimerId) (now : Instant) (delay : Duration) :
    (w.EntersExactly (w.scheduleOnce id delay now) id now delay ↔
      w.instantToTick now + asMillis delay < 2 ^ 64) ∧
    (w.EntersExactly (w.scheduleRepeating id delay now) id now delay ↔
      w.instantToTick now + asMillis delay < 2 ^ 64) ∧
    ∀ entry : TimerEntry, entry.kind = .repeating delay → entry.id ∉ w.canceledInFlight →
      (w.EntersExactly (w.rearm now entry) entry.id now delay ↔
        w.instantToTick now + asMillis delay < 2 ^ 64) := by
  refine ⟨entersExactly_insertEntry, entersExactly_insertEntry, ?_⟩
  intro entry hkind hid
  rcases rearm_cases now w entry with ⟨hid', _⟩ | ⟨_, honce, _⟩ | ⟨_, interval, hrep, hrearm⟩
  · exact absurd hid' hid
  · cases hkind.symm.trans honce
  · cases hkind.symm.trans hrep
    rw [hrearm]
    exact entersExactly_insertEntry

/-- At tick 7 with a delay of 5 ms. -/
theorem deadlines_exact_five : (new 0).EntersExactly
    ((new 0).rearm 7000000 ⟨1, 5, .repeating 5000000⟩) 1 7000000 5000000 :=
  ((deadlines_exact_iff (new 0) 1 7000000 5000000).2.2 ⟨1, 5, .repeating 5000000⟩ rfl
    (Finset.notMem_empty 1)).2 (by decide)

end Deadline

end WheelInner

/-- One millisecond after the start, the longest delay that fits into `u64`
    milliseconds gets the deadline 0, and a tick at the same instant fires it. A
    delay of one millisecond more is cut to none. -/
theorem longest_delay_fires_at_once :
    (∃ s, Run serial.step Unrestricted (initial 0)
      [.env (.elapse 1000000), .env (.schedule (.once (fromMillis (2 ^ 64 - 1)))),
        .act 0 .returns, .env .tick, .act 1 .returns, .act 1 .returns, .act 1 .returns] s ∧
      s.shared.clock = 1000000 ∧ .started 1 ∈ s.shared.history) ∧
    ¬ (WheelInner.new 0).EntersExactly
      ((WheelInner.new 0).scheduleOnce 1 (fromMillis (2 ^ 64 - 1)) 1000000) 1 1000000
      (fromMillis (2 ^ 64 - 1)) ∧
    (WheelInner.new 0).deadlineFor 1000000 (fromMillis (2 ^ 64)) = 1 := by
  refine ⟨Run.exists_of_exec (by decide +kernel), ?_, by decide⟩
  rintro ⟨entry, hentry, hexact⟩
  exact absurd hexact.added (by decide)

end TimerWheel
