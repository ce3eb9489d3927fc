-- SUMMARY: In every run whose clock readings and delays fit into the tick counter the placement of timers holds at every moment, whatever the callers do.
import MillIo.TimerWheel.Aim
import MillIo.TimerWheel.Layout

/-!
# Runs in time

The cursor never runs ahead of the clock, so every deadline that fits is computed in
time. This needs that no reading of the clock and no sum of a reading and a delay
overflows.
-/
namespace TimerWheel

open Interleaving

/-! ## The condition on runs -/

/-- The delays that the next step of a call adds to the clock fit. -/
def Call.InTime (s : Shared) : Call → Prop
  | scheduling _ request => s.inner.DelayFits s.clock request.delay
  | firing _ toReschedule => ∀ e ∈ toReschedule, s.inner.DelayFits s.clock e.kind.delay
  | _ => True

instance (s : Shared) : DecidablePred (Call.InTime s)
  | .scheduling _ _ => inferInstanceAs (Decidable (WheelInner.DelayFits _ _ _))
  | .firing _ _ => inferInstanceAs (Decidable (∀ e ∈ _, WheelInner.DelayFits _ _ _))
  | .ticking _ => .isTrue trivial
  | .advanced _ => .isTrue trivial
  | .running _ _ _ => .isTrue trivial
  | .done => .isTrue trivial

/-- Clock readings and the deadlines made from them fit into `u64` ticks. -/
def Timely (s : State) : Step → Prop
  | .env (.elapse d) => asMillis (s.shared.clock + d - s.shared.inner.startTime) < 2 ^ 64
  | .env _ => True
  | .act i _ => ∀ t ∈ s.threads[i]?, t.InTime s.shared

instance : DecidableRel Timely
  | _, .env (.elapse _) => inferInstanceAs (Decidable (_ < _))
  | _, .env (.schedule _) => .isTrue trivial
  | _, .env (.cancel _) => .isTrue trivial
  | _, .env .tick => .isTrue trivial
  | _, .env .timeUntilNext => .isTrue trivial
  | s, .act i _ => inferInstanceAs (Decidable (∀ t ∈ s.threads[i]?, t.InTime s.shared))

/-! ## The invariant -/

/-- The wheel is in order, its cursor is not ahead of the clock, and the ids in
    it are those of timers that no call holds. -/
structure Timed (s : State) : Prop where
  ok : s.shared.inner.Ok
  clock_fits : asMillis (s.shared.clock - s.shared.inner.startTime) < 2 ^ 64
  reached : s.shared.inner.currentTick ≤ s.shared.inner.instantToTick s.shared.clock
  reading : ∀ now, .ticking now ∈ s.threads → now ≤ s.shared.clock
  used : ∀ id, s.shared.inner.Holds id → id < s.shared.nextId
  free : ∀ t ∈ s.threads, ∀ id ∈ t.held, ¬ s.shared.inner.Holds id

section Timed

variable {start : Instant} {as : List Step} {s : State}

theorem clock_fits_of_run (h : Run serial.step Timely (initial start) as s) :
    asMillis (s.shared.clock - s.shared.inner.startTime) < 2 ^ 64 := by
  refine Machine.invariant_of_run
    (I := fun s => asMillis (s.shared.clock - s.shared.inner.startTime) < 2 ^ 64)
    h (fun _ _ hr => owned_of_run hr) (by simp [initial, WheelInner.new, asMillis]) ?_ ?_
  · intro x ts e y ts' _ hfits htimely he
    obtain ⟨rfl, rfl⟩ := Prod.mk.inj (Option.some.inj he)
    show asMillis ((enterSerial x e).1.clock - (enterSerial x e).1.inner.startTime) < 2 ^ 64
    rw [(enter_cursor x e).1]
    cases e with
    | elapse d => exact htimely
    | schedule => exact hfits
    | cancel => exact hfits
    | tick => exact hfits
    | timeUntilNext => exact hfits
  · intro x l l' t c y t' ho hfits _ hr
    obtain ⟨hstart, hclock, -⟩ := act_cursor ho.keyed (acts_of_proceed hr)
    simpa only [hstart, hclock] using hfits

/-- The cursor has not got ahead of the clock. -/
theorem reached_of_run (h : Run serial.step Timely (initial start) as s) :
    s.shared.inner.currentTick ≤ s.shared.inner.instantToTick s.shared.clock := by
  have hpaced := paced_of_run h
  have hfits := clock_fits_of_run h
  rw [WheelInner.instantToTick_of_lt rfl hfits, hpaced.startTime]
  exact hpaced.reached

/-- With readings and delays that fit every deadline is computed in time. -/
theorem onTime_of_timely (h : Run serial.step Timely (initial start) as s) :
    Run serial.step OnTime (initial start) as s := by
  refine h.restrict fun as s a u hr htimely _ => ?_
  have hreached := reached_of_run hr
  cases a with
  | env e => trivial
  | act i o =>
    intro t ht
    have hin : t.InTime s.shared := htimely t ht
    cases t with
    | scheduling id request => exact ⟨hreached, hin⟩
    | firing expired toReschedule =>
      cases expired with
      | nil => exact fun e he _ => ⟨hreached, hin e he⟩
      | cons => trivial
    | _ => trivial

theorem timed_of_run (h : Run serial.step Timely (initial start) as s) : Timed s := by
  have hline := inLine_of_run h
  refine ⟨ok_of_run (onTime_of_timely h), clock_fits_of_run h, reached_of_run h,
    fun now hnow => ((paced_of_run h).reading _ hnow now rfl).2, fun id hid => ?_,
    fun t ht id hid => WheelInner.not_holds_of_queued (hline.held t ht id hid)⟩
  by_contra hge
  exact WheelInner.not_holds_of_queued (hline.drawn id (Nat.le_of_not_lt hge)) hid

end Timed

end TimerWheel
