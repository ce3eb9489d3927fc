-- SUMMARY: The timer wheel under its lock: the data of `WheelInner` and its operations as `mill-io/src/timer_wheel.rs` computes them.
import Mathlib.Algebra.Order.Ring.Nat
import Mathlib.Data.List.AList
import Mathlib.Data.Finset.Basic
import Mathlib.Data.Fin.VecNotation
import Mathlib.Logic.Function.Basic

/-!
# The timer wheel under its lock

A 4-level hierarchical wheel. A timer is placed in the lowest level that can
represent its delay; when a lower level wraps, the timers of the next slot above
cascade down. Timers beyond the range of the wheel wait in an overflow list. The
ids of cancelled timers stay in their slots and are skipped there.

A callback is known by the id of its timer and is not part of the data. The
arithmetic on ticks is that of `u64` with wrapping addition.
-/

namespace TimerWheel

/-- A raw timer id. -/
abbrev TimerId := ℕ

/-- A reading of the monotonic clock, in nanoseconds. -/
abbrev Instant := ℕ

/-- A span of time, in nanoseconds. -/
abbrev Duration := ℕ

/-- `Duration::as_millis`. -/
def asMillis (d : Duration) : ℕ := d / 1000000

/-- `Duration::from_millis`. -/
def fromMillis (n : ℕ) : Duration := n * 1000000

/-- The cast `as u64`, and the value of a wrapping `u64` sum. -/
def asU64 (n : ℕ) : ℕ := n % 2 ^ 64

/-- `u64::saturating_add`. -/
def saturatingAdd (a b : ℕ) : ℕ := min (b + a) (2 ^ 64 - 1)

abbrev numLevels : ℕ := 4

instance : NeZero numLevels := ⟨by decide⟩

def levelBits : Fin numLevels → ℕ := ![8, 6, 6, 6]

def levelSize : Fin numLevels → ℕ := ![256, 64, 64, 64]

def shifts : Fin numLevels → ℕ := ![0, 8, 14, 20]

def masks : Fin numLevels → ℕ := ![0xFF, 0x3F, 0x3F, 0x3F]

def maxRangeTicks : ℕ := 1 <<< 26

theorem masks_lt_levelSize (level : Fin numLevels) : masks level < levelSize level := by
  revert level
  decide

/-- A slot of one of the levels. -/
abbrev Slot := (level : Fin numLevels) × Fin (levelSize level)

/-- The slot of a level that a tick selects: `(tick >> SHIFTS) & MASKS`. -/
def slotAt (level : Fin numLevels) (tick : ℕ) : Slot :=
  ⟨level, (tick >>> shifts level) &&& masks level,
    Nat.lt_of_le_of_lt Nat.and_le_right (masks_lt_levelSize level)⟩

/-- All slots, level by level and each level from its first slot on. -/
def slots : List Slot :=
  (List.finRange numLevels).flatMap fun level =>
    (List.finRange (levelSize level)).map (Sigma.mk level)

inductive TimerKind
  | once
  | repeating (interval : Duration)
  deriving DecidableEq, Repr

namespace TimerKind

/-- `matches!(kind, TimerKind::Repeating(..))`. -/
def isRepeating : TimerKind → Bool
  | once => false
  | repeating _ => true

/-- The delay from one firing to the next. -/
def delay : TimerKind → Duration
  | once => 0
  | repeating interval => interval

end TimerKind

structure TimerEntry where
  id : TimerId
  deadlineTick : ℕ
  kind : TimerKind
  deriving DecidableEq, Repr

structure WheelInner where
  levels : Slot → List TimerId
  currentTick : ℕ
  startTime : Instant
  timers : AList fun _ : TimerId => TimerEntry
  overflow : List TimerId
  overflowMinDeadline : Option ℕ
  timerCount : ℕ
  earliestDeadline : Option ℕ
  inFlight : Finset TimerId
  canceledInFlight : Finset TimerId

namespace WheelInner

def new (startTime : Instant) : WheelInner where
  levels := fun _ => []
  currentTick := 0
  startTime := startTime
  timers := ∅
  overflow := []
  overflowMinDeadline := none
  timerCount := 0
  earliestDeadline := none
  inFlight := ∅
  canceledInFlight := ∅

/-- The entry of a live timer. -/
def lookup (w : WheelInner) (id : TimerId) : Option TimerEntry := w.timers.lookup id

/-- Enter a timer in the map. -/
def add (w : WheelInner) (entry : TimerEntry) : WheelInner :=
  { w with timers := w.timers.insert entry.id entry, timerCount := w.timerCount + 1 }

/-- Remove a live timer from the map; its id stays where it is in the wheel. -/
def remove (w : WheelInner) (id : TimerId) : WheelInner :=
  { w with timers := w.timers.erase id, timerCount := w.timerCount - 1 }

/-- Instants before the start time count as tick 0. -/
def instantToTick (w : WheelInner) (instant : Instant) : ℕ :=
  asU64 (asMillis (instant - w.startTime))

-- ---------------------------------------------------------------------------
-- Placing ids
-- ---------------------------------------------------------------------------

def levelForDelta (delta : ℕ) : Fin numLevels :=
  go (List.finRange numLevels) 0
where
  go : List (Fin numLevels) → ℕ → Fin numLevels
    | [], _ => 3
    | level :: rest, cumulativeBits =>
      let cumulativeBits := cumulativeBits + levelBits level
      if delta < 1 <<< cumulativeBits then level else go rest cumulativeBits

def insertIntoWheel (w : WheelInner) (id : TimerId) (deadlineTick : ℕ) : WheelInner :=
  let delta := deadlineTick - w.currentTick
  if maxRangeTicks ≤ delta then
    { w with
      overflow := w.overflow ++ [id]
      overflowMinDeadline :=
        some (w.overflowMinDeadline.elim deadlineTick fun d => min d deadlineTick) }
  else
    let slot := slotAt (levelForDelta delta) deadlineTick
    { w with levels := Function.update w.levels slot (w.levels slot ++ [id]) }

/-- The loop body shared by `cascade` and `reinsert_overflow`: a live id is
    placed anew, a stale one is dropped. -/
def reinsert (w : WheelInner) (id : TimerId) : WheelInner :=
  match w.lookup id with
  | some entry => w.insertIntoWheel id entry.deadlineTick
  | none => w

/-- Take all ids out of a slot. -/
def clearSlot (w : WheelInner) (slot : Slot) : WheelInner :=
  { w with levels := Function.update w.levels slot [] }

def cascade (w : WheelInner) (level : Fin numLevels) : WheelInner :=
  let slot := slotAt level w.currentTick
  (w.levels slot).foldl reinsert (w.clearSlot slot)

def reinsertOverflow (w : WheelInner) : WheelInner :=
  w.overflow.foldl reinsert { w with overflow := [], overflowMinDeadline := none }

-- ---------------------------------------------------------------------------
-- Advancing
-- ---------------------------------------------------------------------------

/-- Remove a live timer and append its entry to `expired`; skip a stale id. -/
def expire (p : List TimerEntry × WheelInner) (id : TimerId) : List TimerEntry × WheelInner :=
  match p.2.lookup id with
  | some entry => (p.1 ++ [entry], p.2.remove id)
  | none => p

/-- The loop over the higher levels that cascades as long as the levels below
    wrap, and stops at the first one that does not. -/
def cascadeLevels : List (Fin numLevels) → ℕ → WheelInner → WheelInner
  | [], _, w => w
  | level :: rest, shiftAcc, w =>
    if w.currentTick &&& ((1 <<< shiftAcc) - 1) = 0 then
      cascadeLevels rest (shiftAcc + levelBits level) (w.cascade level)
    else w

/-- `self.current_tick += 1`, which cannot overflow below a target tick. -/
def incrementTick (w : WheelInner) : WheelInner := { w with currentTick := w.currentTick + 1 }

/-- `self.earliest_deadline = None`. -/
def invalidateEarliest (w : WheelInner) : WheelInner := { w with earliestDeadline := none }

/-- One round of the tick-by-tick loop: fire the current slot of level 0, move
    the cursor, cascade. -/
def walkTick (expired : List TimerEntry) (w : WheelInner) : List TimerEntry × WheelInner :=
  let slot := slotAt 0 w.currentTick
  let (expired, w) := (w.levels slot).foldl expire (expired, w.clearSlot slot)
  (expired, cascadeLevels [1, 2, 3] (levelBits 0) w.incrementTick)

/-- `while current_tick < target_tick`. Every round moves the cursor by one tick,
    so `target_tick - current_tick` rounds are enough. -/
def walk (targetTick : ℕ) : ℕ → List TimerEntry → WheelInner → List TimerEntry × WheelInner
  | 0, expired, w => (expired, w)
  | rounds + 1, expired, w =>
    if w.currentTick < targetTick then
      let (expired, w) := walkTick expired w
      walk targetTick rounds expired w
    else (expired, w)

/-- The loop body of `drain_due_into`. -/
def drainOne (targetTick : ℕ) (p : List TimerEntry × WheelInner) (id : TimerId) :
    List TimerEntry × WheelInner :=
  match p.2.lookup id with
  | some entry =>
    if entry.deadlineTick ≤ targetTick then expire p id
    else (p.1, p.2.insertIntoWheel id entry.deadlineTick)
  | none => p

/-- All ids in the wheel and the overflow list, in the order of a large jump. -/
def allIds (w : WheelInner) : List TimerId := slots.flatMap w.levels ++ w.overflow

/-- The wheel emptied of ids, with its cursor at the target. -/
def jumpTo (w : WheelInner) (targetTick : ℕ) : WheelInner :=
  { w with
    levels := fun _ => [], overflow := [], overflowMinDeadline := none
    currentTick := targetTick }

def drainDueInto (w : WheelInner) (targetTick : ℕ) : List TimerEntry × WheelInner :=
  let (expired, w) := w.allIds.foldl (drainOne targetTick) ([], w.jumpTo targetTick)
  (expired, w.invalidateEarliest)

/-- The end of the tick-by-tick path: rescan the overflow list if one of its
    timers may fit by now, and invalidate the cached deadline. -/
def settle (expired : List TimerEntry) (w : WheelInner) : WheelInner :=
  let w := if w.overflowMinDeadline.any fun d => d - w.currentTick < maxRangeTicks then
    w.reinsertOverflow else w
  if expired.isEmpty then w else w.invalidateEarliest

def advanceTo (w : WheelInner) (now : Instant) : List TimerEntry × WheelInner :=
  let targetTick := w.instantToTick now
  if saturatingAdd w.currentTick maxRangeTicks < targetTick then
    w.drainDueInto targetTick
  else
    let (expired, w) := walk targetTick (targetTick - w.currentTick) [] w
    (expired, w.settle expired)

-- ---------------------------------------------------------------------------
-- The cached earliest deadline
-- ---------------------------------------------------------------------------

def noteInserted (w : WheelInner) (deadlineTick : ℕ) : WheelInner :=
  { w with
    earliestDeadline :=
      match w.earliestDeadline with
      | some current => some (min current deadlineTick)
      | none => if w.timerCount = 1 then some deadlineTick else none }

def noteRemoved (w : WheelInner) (removedDeadline : ℕ) : WheelInner :=
  if w.earliestDeadline = some removedDeadline then w.invalidateEarliest else w

def recomputeEarliest (w : WheelInner) : Option ℕ × WheelInner :=
  let earliest := (w.timers.entries.map fun e => e.2.deadlineTick).min?
  (earliest, { w with earliestDeadline := earliest })

def timeUntilNext (w : WheelInner) (now : Instant) : Option Duration × WheelInner :=
  if w.timerCount = 0 then (none, w)
  else
    let (earliest, w) := match w.earliestDeadline with
      | some e => (some e, w)
      | none => w.recomputeEarliest
    (earliest.map fun e =>
      let nowTick := w.instantToTick now
      if e ≤ nowTick then 0 else fromMillis (e - nowTick), w)

-- ---------------------------------------------------------------------------
-- The critical sections of `TimerWheel`
-- ---------------------------------------------------------------------------

/-- The deadline of a timer that is scheduled or re-armed at `now`. -/
def deadlineFor (w : WheelInner) (now : Instant) (delay : Duration) : ℕ :=
  asU64 (w.instantToTick now + asU64 (asMillis delay))

/-- The four updates made for a new entry by `schedule_once`,
    `schedule_repeating` and the re-arming of `tick`. -/
def insertEntry (w : WheelInner) (entry : TimerEntry) : WheelInner :=
  ((w.add entry).insertIntoWheel entry.id entry.deadlineTick).noteInserted entry.deadlineTick

def scheduleOnce (w : WheelInner) (id : TimerId) (delay : Duration) (now : Instant) : WheelInner :=
  w.insertEntry ⟨id, w.deadlineFor now delay, .once⟩

def scheduleRepeating (w : WheelInner) (id : TimerId) (interval : Duration) (now : Instant) :
    WheelInner :=
  w.insertEntry ⟨id, w.deadlineFor now interval, .repeating interval⟩

def cancel (w : WheelInner) (id : TimerId) : Bool × WheelInner :=
  match w.lookup id with
  | some entry => (true, (w.remove id).noteRemoved entry.deadlineTick)
  | none =>
    if id ∈ w.inFlight then
      (true, { w with canceledInFlight := insert id w.canceledInFlight })
    else (false, w)

/-- The second critical section of `tick`: enter the repeating timers of the
    batch in `in_flight`. -/
def markInFlight (w : WheelInner) (expired : List TimerEntry) : WheelInner :=
  expired.foldl
    (fun w entry =>
      if entry.kind.isRepeating then { w with inFlight := insert entry.id w.inFlight } else w) w

/-- The loop body of the last critical section of `tick`. -/
def rearm (now : Instant) (w : WheelInner) (entry : TimerEntry) : WheelInner :=
  let id := entry.id
  let w := { w with inFlight := w.inFlight.erase id }
  if id ∈ w.canceledInFlight then
    { w with canceledInFlight := w.canceledInFlight.erase id }
  else match entry.kind with
    | .once => w
    | .repeating interval => w.insertEntry ⟨id, w.deadlineFor now interval, entry.kind⟩

/-- The last critical section of `tick`. -/
def rearmAll (now : Instant) (w : WheelInner) (toReschedule : List TimerEntry) : WheelInner :=
  toReschedule.foldl (rearm now) w

end WheelInner

end TimerWheel
