-- SUMMARY: Where a timer may sit in the wheel: the placement invariant, and how inserting, cascading and firing keep it.
import MillIo.TimerWheel.Batch
import MillIo.Scheduling.SlotRing
import MillIo.Scheduling.Agenda
import Mathlib.Data.Fintype.Basic
import Mathlib.Tactic.FinCases

/-!
# Placement

Every level of the wheel is a ring of slots. The slot that the cursor is in has
been visited at levels 1 to 3 and is still to be fired at level 0, so a deadline
one full turn ahead may share it at the higher levels but not at level 0. The
invariant below names the levels that have been visited at the current tick, and
the ids that an operation holds in its hand between taking them out of a slot and
placing or firing them.
-/

namespace TimerWheel

open SlotRing

/-! ## Levels as rings -/

/-- The ticks that one slot of a level covers. -/
def ticksPerSlot (level : Fin numLevels) : ℕ := 2 ^ shifts level

theorem ticksPerSlot_pos (level : Fin numLevels) : 0 < ticksPerSlot level := Nat.two_pow_pos _

theorem ticksPerSlot_dvd {k level : Fin numLevels} (h : k ≤ level) :
    ticksPerSlot k ∣ ticksPerSlot level := by
  apply Nat.pow_dvd_pow 2
  revert k level
  decide

theorem slotAt_val (level : Fin numLevels) (tick : ℕ) :
    (slotAt level tick).2.val = slotOf (ticksPerSlot level) (levelSize level) tick := by
  have hmask : ∃ b, masks level = 2 ^ b - 1 ∧ levelSize level = 2 ^ b := by
    fin_cases level
    · exact ⟨8, rfl, rfl⟩
    · exact ⟨6, rfl, rfl⟩
    · exact ⟨6, rfl, rfl⟩
    · exact ⟨6, rfl, rfl⟩
  obtain ⟨b, hmask, hsize⟩ := hmask
  simp only [slotAt, slotOf, ticksPerSlot, hmask, hsize, Nat.shiftRight_eq_div_pow,
    Nat.and_two_pow_sub_one_eq_mod]

theorem slotAt_eq_iff {level : Fin numLevels} {t t' : ℕ} : slotAt level t = slotAt level t' ↔
    slotOf (ticksPerSlot level) (levelSize level) t =
      slotOf (ticksPerSlot level) (levelSize level) t' := by
  rw [← slotAt_val, ← slotAt_val]
  exact ⟨congrArg fun s : Slot => s.2.val, fun h => Sigma.ext rfl (heq_of_eq (Fin.ext h))⟩

/-- `level_for_delta` finds the level whose span covers the delay and whose slots
    are not longer than it. -/
theorem levelForDelta_spec {delta : ℕ} (h : delta < maxRangeTicks) :
    delta < levelSize (WheelInner.levelForDelta delta) *
        ticksPerSlot (WheelInner.levelForDelta delta) ∧
      (WheelInner.levelForDelta delta ≠ 0 →
        ticksPerSlot (WheelInner.levelForDelta delta) ≤ delta) := by
  have hfin : List.finRange numLevels = [0, 1, 2, 3] := rfl
  have hmax : maxRangeTicks = 67108864 := rfl
  simp only [WheelInner.levelForDelta, hfin, WheelInner.levelForDelta.go]
  rw [hmax] at h
  split_ifs with h0 h1 h2 <;>
    simp [levelBits, levelSize, ticksPerSlot, shifts, Nat.shiftLeft_eq] at * <;> omega

namespace WheelInner

/-! ## Places -/

/-- A place that an id can be in. -/
inductive Place
  | slot (s : Slot)
  | overflow
  deriving DecidableEq

def idsAt (w : WheelInner) : Place → List TimerId
  | .slot s => w.levels s
  | .overflow => w.overflow

/-- The id is somewhere in the wheel, whether it is live or stale. -/
def Holds (w : WheelInner) (id : TimerId) : Prop := ∃ p, id ∈ w.idsAt p

/-- The place that `insert_into_wheel` selects. -/
def placeFor (w : WheelInner) (deadlineTick : ℕ) : Place :=
  if maxRangeTicks ≤ deadlineTick - w.currentTick then .overflow
  else .slot (slotAt (levelForDelta (deadlineTick - w.currentTick)) deadlineTick)

/-- The deadline may wait at the place until the cursor gets there. In the levels
    of `visited` the slot of the cursor has been emptied at the current tick;
    `bound` is a lower bound of the deadlines in the overflow list. -/
def Fits (visited : Finset (Fin numLevels)) (bound cursor deadline : ℕ) : Place → Prop
  | .slot s => s = slotAt s.1 deadline ∧
    if s.1 ∈ visited then Ahead (ticksPerSlot s.1) (levelSize s.1) cursor deadline
    else Nearing (ticksPerSlot s.1) (levelSize s.1) cursor deadline
  | .overflow => bound ≤ deadline

/-- The levels whose slot at the cursor has been visited between two operations. -/
def higherLevels : Finset (Fin numLevels) := {1, 2, 3}

/-- The placement invariant. The ids of `hand` have been taken out of the wheel
    and are about to be placed again or fired. -/
structure Placed (visited : Finset (Fin numLevels)) (bound : ℕ) (hand : List TimerId)
    (w : WheelInner) : Prop where
  keyed : ∀ id e, w.lookup id = some e → e.id = id
  placed : ∀ id e, w.lookup id = some e → id ∈ hand ∨ w.Holds id
  ahead : ∀ p id e, id ∈ w.idsAt p → w.lookup id = some e → w.currentTick ≤ e.deadlineTick
  fits : ∀ p id e, id ∈ w.idsAt p → w.lookup id = some e →
    Fits visited bound w.currentTick e.deadlineTick p
  nodup : ∀ p, (w.idsAt p).Nodup
  unique : ∀ p q id, id ∈ w.idsAt p → id ∈ w.idsAt q → p = q
  hand_nodup : hand.Nodup
  hand_free : ∀ id ∈ hand, ¬ w.Holds id
  overflow_none : w.overflowMinDeadline = none ↔ w.overflow = []
  overflow_le : ∀ m, w.overflowMinDeadline = some m → ∀ id ∈ w.overflow, ∀ e,
    w.lookup id = some e → m ≤ e.deadlineTick
  counted : w.timerCount = w.timers.keys.length

/-! ## Inserting into the wheel -/

section Insert

variable {w : WheelInner} {id : TimerId} {d : ℕ}

theorem idsAt_insertIntoWheel (p : Place) : (w.insertIntoWheel id d).idsAt p =
    if p = w.placeFor d then w.idsAt p ++ [id] else w.idsAt p := by
  simp only [insertIntoWheel, placeFor]
  split
  · cases p <;> simp [idsAt]
  · cases p with
    | overflow => simp [idsAt]
    | slot s =>
      simp only [idsAt, Function.update_apply, Place.slot.injEq]
      split <;> simp [*]

theorem mem_idsAt_insertIntoWheel {p : Place} {i : TimerId} :
    i ∈ (w.insertIntoWheel id d).idsAt p ↔ i ∈ w.idsAt p ∨ (i = id ∧ p = w.placeFor d) := by
  rw [idsAt_insertIntoWheel]
  split <;> simp [*]

theorem holds_insertIntoWheel {i : TimerId} :
    (w.insertIntoWheel id d).Holds i ↔ w.Holds i ∨ i = id := by
  simp only [Holds, mem_idsAt_insertIntoWheel, exists_or, exists_and_left, exists_eq, and_true]

/-- A deadline that is not in the past fits where `insert_into_wheel` puts it. -/
theorem fits_placeFor {visited : Finset (Fin numLevels)} {bound : ℕ} (h0 : 0 ∉ visited)
    (hb : bound ≤ w.currentTick + maxRangeTicks) (hd : w.currentTick ≤ d) :
    Fits visited bound w.currentTick d (w.placeFor d) := by
  unfold placeFor
  split
  · simp only [Fits]
    omega
  · rename_i hrange
    obtain ⟨hhigh, hlow⟩ := levelForDelta_spec (Nat.lt_of_not_le hrange)
    generalize levelForDelta (d - w.currentTick) = k at hhigh hlow
    refine ⟨rfl, ?_⟩
    by_cases hk : k = 0
    · subst hk
      rw [show (slotAt 0 d).1 = 0 from rfl, if_neg h0]
      exact nearing_of_lt (ticksPerSlot_pos _) hd (.inr (Nat.mod_one _)) hhigh
    · split
      · exact ahead_of_le (ticksPerSlot_pos _) (hlow hk) hhigh
      · exact nearing_of_lt (ticksPerSlot_pos _) hd (.inl (hlow hk)) hhigh

end Insert

section Keep

variable {visited : Finset (Fin numLevels)} {bound : ℕ} {hand : List TimerId} {w : WheelInner}
  {id : TimerId} {e : TimerEntry}

/-- The minimum of the overflow list is below the deadlines that were below the
    old one and below the new deadline. -/
theorem insertIntoWheel_overflow_le {d m : ℕ}
    (hm : (w.insertIntoWheel id d).overflowMinDeadline = some m) {i : TimerId}
    (hi : i ∈ (w.insertIntoWheel id d).overflow) :
    (i = id ∧ m ≤ d) ∨ (i ∈ w.overflow ∧ ∀ m', w.overflowMinDeadline = some m' → m ≤ m') := by
  simp only [insertIntoWheel] at hm hi
  split at hm <;> rename_i hrange
  · rw [if_pos hrange] at hi
    obtain rfl := Option.some.inj hm
    rcases List.mem_append.1 hi with hi | hi
    · refine .inr ⟨hi, fun m' hm' => ?_⟩
      rw [hm']
      exact Nat.min_le_left _ _
    · refine .inl ⟨List.mem_singleton.1 hi, ?_⟩
      cases w.overflowMinDeadline with
      | none => exact Nat.le_refl _
      | some m' => exact Nat.min_le_right _ _
  · rw [if_neg hrange] at hi
    refine .inr ⟨hi, fun m' hm' => ?_⟩
    cases hm.symm.trans hm'
    exact Nat.le_refl _

theorem Placed.insertIntoWheel (h : Placed visited bound (id :: hand) w) (h0 : 0 ∉ visited)
    (hb : bound ≤ w.currentTick + maxRangeTicks) (he : w.lookup id = some e)
    (hd : w.currentTick ≤ e.deadlineTick) :
    Placed visited bound hand (w.insertIntoWheel id e.deadlineTick) := by
  have hfree : ∀ p, id ∉ w.idsAt p := fun p hp => h.hand_free id (by simp) ⟨p, hp⟩
  have hhand := List.nodup_cons.1 h.hand_nodup
  refine ⟨?_, ?_, ?_, ?_, ?_, ?_, hhand.2, ?_, ?_, ?_, ?_⟩
  · simpa using h.keyed
  · intro i e' he'
    rw [insertIntoWheel_lookup] at he'
    rw [holds_insertIntoWheel]
    have := h.placed i e' he'
    simp only [List.mem_cons] at this
    tauto
  · intro p i e' hi he'
    rw [insertIntoWheel_lookup] at he'
    rw [insertIntoWheel_currentTick]
    rcases mem_idsAt_insertIntoWheel.1 hi with hi | ⟨rfl, rfl⟩
    · exact h.ahead p i e' hi he'
    · cases he.symm.trans he'
      exact hd
  · intro p i e' hi he'
    rw [insertIntoWheel_lookup] at he'
    rw [insertIntoWheel_currentTick]
    rcases mem_idsAt_insertIntoWheel.1 hi with hi | ⟨rfl, rfl⟩
    · exact h.fits p i e' hi he'
    · cases he.symm.trans he'
      exact fits_placeFor h0 hb hd
  · intro p
    rw [idsAt_insertIntoWheel]
    split
    · exact List.nodup_append.2 ⟨h.nodup p, List.nodup_singleton _, by
        rintro i hi j hj rfl
        exact hfree p (List.mem_singleton.1 hj ▸ hi)⟩
    · exact h.nodup p
  · intro p q i hp hq
    rcases mem_idsAt_insertIntoWheel.1 hp with hp | ⟨rfl, rfl⟩ <;>
      rcases mem_idsAt_insertIntoWheel.1 hq with hq | ⟨hi, hq⟩
    · exact h.unique p q i hp hq
    · exact absurd (hi ▸ hp) (hfree p)
    · exact absurd hq (hfree q)
    · exact hq.symm
  · intro i hi hholds
    rcases holds_insertIntoWheel.1 hholds with hholds | rfl
    · exact h.hand_free i (by simp [hi]) hholds
    · exact hhand.1 hi
  · simp only [WheelInner.insertIntoWheel]
    split
    · simp
    · exact h.overflow_none
  · intro m hm i hi e' he'
    rw [insertIntoWheel_lookup] at he'
    rcases insertIntoWheel_overflow_le hm hi with ⟨rfl, hle⟩ | ⟨hi, hle⟩
    · cases he.symm.trans he'
      exact hle
    · cases hmin : w.overflowMinDeadline with
      | none =>
        rw [h.overflow_none.1 hmin] at hi
        cases hi
      | some m' => exact Nat.le_trans (hle m' hmin) (h.overflow_le m' hmin i hi e' he')
  · simpa using h.counted

/-- A stale id may be dropped. -/
theorem Placed.drop (h : Placed visited bound (id :: hand) w) (hid : w.lookup id = none) :
    Placed visited bound hand w where
  __ := h
  placed i e he := by
    have hne : i ≠ id := by
      rintro rfl
      cases hid.symm.trans he
    simpa [hne] using h.placed i e he
  hand_nodup := (List.nodup_cons.1 h.hand_nodup).2
  hand_free i hi := h.hand_free i (by simp [hi])

/-- A live timer may be removed from the map. -/
theorem Placed.remove (h : Placed visited bound hand w) (he : w.lookup id = some e) :
    Placed visited bound hand (w.remove id) := by
  have hlive : ∀ {i e'}, (w.remove id).lookup i = some e' → w.lookup i = some e' := by
    intro i e' he'
    rw [remove_lookup] at he'
    split at he'
    · cases he'
    · exact he'
  refine { h with
    keyed := fun i e' he' => h.keyed i e' (hlive he')
    placed := fun i e' he' => h.placed i e' (hlive he')
    ahead := fun p i e' hi he' => h.ahead p i e' hi (hlive he')
    fits := fun p i e' hi he' => h.fits p i e' hi (hlive he')
    overflow_le := fun m hm i hi e' he' => h.overflow_le m hm i hi e' (hlive he')
    counted := ?_ }
  have hmem : id ∈ w.timers.keys := by
    rw [← AList.mem_keys, ← AList.lookup_isSome]
    exact Option.isSome_of_eq_some he
  show w.timerCount - 1 = (w.timers.erase id).keys.length
  rw [AList.keys_erase, List.length_erase_of_mem hmem, ← h.counted]

/-! ## Placing ids anew -/

theorem holds_reinsert {i : TimerId} (h : (w.reinsert id).Holds i) :
    w.Holds i ∨ (i = id ∧ ∃ e, w.lookup id = some e) := by
  unfold reinsert at h
  split at h
  · rename_i e he
    exact (holds_insertIntoWheel.1 h).imp_right fun hi => ⟨hi, e, he⟩
  · exact .inl h

theorem Placed.reinsert (h : Placed visited bound (id :: hand) w) (h0 : 0 ∉ visited)
    (hb : bound ≤ w.currentTick + maxRangeTicks)
    (hd : ∀ e, w.lookup id = some e → w.currentTick ≤ e.deadlineTick) :
    Placed visited bound hand (w.reinsert id) := by
  unfold WheelInner.reinsert
  split
  · rename_i e he
    exact h.insertIntoWheel h0 hb he (hd e he)
  · rename_i he
    exact h.drop he

theorem holds_foldl_reinsert {ids : List TimerId} {i : TimerId}
    (h : (ids.foldl WheelInner.reinsert w).Holds i) :
    w.Holds i ∨ (i ∈ ids ∧ ∃ e, w.lookup i = some e) := by
  induction ids generalizing w with
  | nil => exact .inl h
  | cons id ids ih =>
    rcases ih h with h | ⟨hi, e, he⟩
    · rcases holds_reinsert h with h | ⟨rfl, hlive⟩
      · exact .inl h
      · exact .inr ⟨by simp, hlive⟩
    · exact .inr ⟨by simp [hi], e, by simpa using he⟩

theorem Placed.foldl_reinsert {ids : List TimerId} (h : Placed visited bound (ids ++ hand) w)
    (h0 : 0 ∉ visited) (hb : bound ≤ w.currentTick + maxRangeTicks)
    (hd : ∀ id ∈ ids, ∀ e, w.lookup id = some e → w.currentTick ≤ e.deadlineTick) :
    Placed visited bound hand (ids.foldl WheelInner.reinsert w) := by
  induction ids generalizing w with
  | nil => exact h
  | cons id ids ih =>
    refine ih (h.reinsert h0 hb (hd id (by simp))) (by simpa using hb) ?_
    intro i hi e he
    simpa using hd i (by simp [hi]) e (by simpa using he)

end Keep

/-! ## Visiting the slot of the cursor -/

section Visit

variable {visited : Finset (Fin numLevels)} {bound : ℕ} {hand : List TimerId} {w : WheelInner}

theorem mem_idsAt_clearSlot {s : Slot} {p : Place} {i : TimerId} :
    i ∈ (w.clearSlot s).idsAt p ↔ i ∈ w.idsAt p ∧ p ≠ .slot s := by
  cases p with
  | overflow => simp [idsAt, clearSlot]
  | slot t =>
    by_cases ht : t = s
    · subst ht
      simp [idsAt, clearSlot]
    · simp [idsAt, clearSlot, ht]

/-- What is not in the slot of the cursor is ahead once that slot has been visited. -/
theorem Fits.visit {cursor d : ℕ} {p : Place} (h : Fits visited bound cursor d p)
    {level : Fin numLevels} (h0 : cursor % ticksPerSlot level = 0)
    (hne : p ≠ .slot (slotAt level cursor)) : Fits (insert level visited) bound cursor d p := by
  cases p with
  | overflow => exact h
  | slot s =>
    obtain ⟨hs, hring⟩ := h
    refine ⟨hs, ?_⟩
    by_cases hv : s.1 ∈ visited
    · rw [if_pos hv] at hring
      rwa [if_pos (Finset.mem_insert_of_mem hv)]
    · rw [if_neg hv] at hring
      by_cases hl : s.1 = level
      · -- The rest of the level is in other slots than the one just emptied.
        subst hl
        rw [if_pos (Finset.mem_insert_self _ _)]
        refine hring.ahead_of_slot_ne h0 fun hslot => hne ?_
        rw [hs, slotAt_eq_iff.2 hslot]
        rfl
      · rwa [if_neg (by simp [hl, hv])]

/-- Levels whose slots the cursor has not just entered need no visit. -/
theorem Fits.of_mod_ne {cursor d : ℕ} {p : Place} (h : Fits visited bound cursor d p)
    {visited' : Finset (Fin numLevels)} (hsub : visited ⊆ visited')
    (hmod : ∀ level ∈ visited', level ∉ visited → cursor % ticksPerSlot level ≠ 0) :
    Fits visited' bound cursor d p := by
  cases p with
  | overflow => exact h
  | slot s =>
    obtain ⟨hs, hring⟩ := h
    refine ⟨hs, ?_⟩
    by_cases hv : s.1 ∈ visited
    · rw [if_pos hv] at hring
      rwa [if_pos (hsub hv)]
    · rw [if_neg hv] at hring
      by_cases hv' : s.1 ∈ visited'
      · rw [if_pos hv']
        exact hring.ahead_of_mod_ne (hmod _ hv' hv)
      · rwa [if_neg hv']

/-- At the first tick of one of its blocks, emptying the slot of the cursor takes
    all deadlines of that block into the hand and makes the level visited. -/
theorem Placed.clearSlot (h : Placed visited bound [] w) (level : Fin numLevels)
    (h0 : w.currentTick % ticksPerSlot level = 0) :
    Placed (insert level visited) bound (w.levels (slotAt level w.currentTick))
      (w.clearSlot (slotAt level w.currentTick)) := by
  refine ⟨h.keyed, ?_, ?_, ?_, ?_, ?_, h.nodup (.slot _), ?_, h.overflow_none, h.overflow_le,
    h.counted⟩
  · intro i e he
    obtain ⟨p, hp⟩ := (h.placed i e he).resolve_left (by simp)
    by_cases hps : p = .slot (slotAt level w.currentTick)
    · subst hps
      exact .inl hp
    · exact .inr ⟨p, mem_idsAt_clearSlot.2 ⟨hp, hps⟩⟩
  · intro p i e hi he
    exact h.ahead p i e (mem_idsAt_clearSlot.1 hi).1 he
  · intro p i e hi he
    obtain ⟨hi, hne⟩ := mem_idsAt_clearSlot.1 hi
    exact (h.fits p i e hi he).visit h0 hne
  · intro p
    cases p with
    | overflow => exact h.nodup .overflow
    | slot s =>
      by_cases hs : s = slotAt level w.currentTick
      · subst hs
        simp [idsAt, WheelInner.clearSlot]
      · simpa [idsAt, WheelInner.clearSlot, Function.update_of_ne hs] using h.nodup (.slot s)
  · intro p q i hp hq
    exact h.unique p q i (mem_idsAt_clearSlot.1 hp).1 (mem_idsAt_clearSlot.1 hq).1
  · rintro i hi ⟨p, hp⟩
    obtain ⟨hp, hne⟩ := mem_idsAt_clearSlot.1 hp
    exact hne (h.unique p (.slot _) i hp hi)

/-- The deadlines in a slot that is visited at the first tick of a block are in
    that block. -/
theorem Placed.deadline_lt (h : Placed visited bound hand w) (level : Fin numLevels)
    (hv : level ∉ visited) (h0 : w.currentTick % ticksPerSlot level = 0) {id : TimerId}
    {e : TimerEntry} (hid : id ∈ w.levels (slotAt level w.currentTick))
    (he : w.lookup id = some e) :
    w.currentTick ≤ e.deadlineTick ∧ e.deadlineTick < w.currentTick + ticksPerSlot level := by
  obtain ⟨hs, hring⟩ := h.fits (.slot _) id e hid he
  refine ⟨h.ahead (.slot _) id e hid he, ?_⟩
  rw [show (slotAt level w.currentTick).1 = level from rfl, if_neg hv] at hring
  have hslot := slotAt_eq_iff.1 hs.symm
  exact Nearing.lt_of_div_eq (ticksPerSlot_pos _) h0 (hring.div_eq h0 hslot)

theorem Placed.of_mod_ne (h : Placed visited bound hand w) {visited' : Finset (Fin numLevels)}
    (hsub : visited ⊆ visited')
    (hmod : ∀ level ∈ visited', level ∉ visited → w.currentTick % ticksPerSlot level ≠ 0) :
    Placed visited' bound hand w where
  __ := h
  fits p i e hi he := (h.fits p i e hi he).of_mod_ne hsub hmod

theorem Placed.cascade {level : Fin numLevels} (h : Placed visited bound [] w)
    (hlevel : level ∉ visited) (h0 : 0 ∉ visited) (hne : level ≠ 0)
    (hb : bound ≤ w.currentTick + maxRangeTicks)
    (hmod : w.currentTick % ticksPerSlot level = 0) :
    Placed (insert level visited) bound [] (w.cascade level) := by
  have hhand := h.clearSlot level hmod
  rw [← List.append_nil (w.levels _)] at hhand
  refine hhand.foldl_reinsert (by simp [h0, hne.symm]) hb ?_
  intro i hi e he
  exact (h.deadline_lt level hlevel hmod hi he).1

theorem holds_clearSlot {s : Slot} {i : TimerId} (h : (w.clearSlot s).Holds i) : w.Holds i := by
  obtain ⟨p, hp⟩ := h
  exact ⟨p, (mem_idsAt_clearSlot.1 hp).1⟩

theorem holds_cascade {level : Fin numLevels} {i : TimerId} (h : (w.cascade level).Holds i) :
    w.Holds i := by
  rcases holds_foldl_reinsert h with h | ⟨hi, _⟩
  · exact holds_clearSlot h
  · exact ⟨.slot _, hi⟩

end Visit

end WheelInner

end TimerWheel
