-- SUMMARY: Which live timers an advance fires, in every reachable state: also where a wrapped deadline lies behind the cursor.
import MillIo.TimerWheel.Ledger
import MillIo.TimerWheel.Deadline

/-!
# Aim

A live timer waits where its deadline selects: ahead of the cursor in a place where
the cursor meets it at the deadline, and behind the cursor, where only a sum that
wrapped can put it, in the slot of its deadline at level 0. Unlike the placement of
timers this needs no condition on the delays, and it decides which timers a walk and
a jump fire.
-/

namespace TimerWheel

open SlotRing

namespace WheelInner

/-- A place in which a live timer may wait for the cursor. -/
def Aimed (visited : Finset (Fin numLevels)) (bound cursor deadline : ℕ) (p : Place) : Prop :=
  if cursor ≤ deadline then Fits visited bound cursor deadline p
  else p = .slot (slotAt 0 deadline)

/-- Every live timer waits in such places only, and the minimum of the overflow list
    does not miss one. -/
structure Aiming (visited : Finset (Fin numLevels)) (bound : ℕ) (w : WheelInner) : Prop where
  aimed : ∀ p id e, id ∈ w.idsAt p → w.lookup id = some e →
    Aimed visited bound w.currentTick e.deadlineTick p
  overflow_le : ∀ id ∈ w.overflow, ∀ e, w.lookup id = some e →
    ∃ m, w.overflowMinDeadline = some m ∧ m ≤ e.deadlineTick

/-- What holds of the wheel between two operations. -/
def OnAim (w : WheelInner) : Prop := w.Aiming higherLevels (w.currentTick + maxRangeTicks)

/-- A walk from the cursor to the target comes by the deadline, or by its slot once
    the deadline is behind. -/
def Meets (cursor target deadline : ℕ) : Prop :=
  ∃ tick, cursor ≤ tick ∧ tick < target ∧ deadline ≤ tick ∧ slotAt 0 tick = slotAt 0 deadline

section Aim

variable {visited : Finset (Fin numLevels)} {bound cursor d : ℕ} {w w' : WheelInner}
  {id i : TimerId} {e : TimerEntry} {p : Place}

/-! ## Places -/

theorem Aimed.fits (h : Aimed visited bound cursor d p) (hd : cursor ≤ d) :
    Fits visited bound cursor d p := by
  rwa [Aimed, if_pos hd] at h

theorem Aimed.behind (h : Aimed visited bound cursor d p) (hd : d < cursor) :
    p = .slot (slotAt 0 d) := by
  rwa [Aimed, if_neg (Nat.not_le_of_lt hd)] at h

/-- Where the deadline is ahead, only the fit is at stake. -/
theorem Aimed.of_fits {visited' : Finset (Fin numLevels)} {bound' : ℕ}
    (h : Aimed visited bound cursor d p)
    (hfits : Fits visited bound cursor d p → Fits visited' bound' cursor d p) :
    Aimed visited' bound' cursor d p := by
  unfold Aimed at h ⊢
  split
  · rename_i hd
    rw [if_pos hd] at h
    exact hfits h
  · rename_i hd
    rwa [if_neg hd] at h

theorem aimed_placeFor (h0 : 0 ∉ visited) (hb : bound ≤ w.currentTick + maxRangeTicks) :
    Aimed visited bound w.currentTick d (w.placeFor d) := by
  unfold Aimed
  split
  · rename_i hd
    exact fits_placeFor h0 hb hd
  · -- A deadline in the past has no distance to the cursor.
    rename_i hd
    have hzero : d - w.currentTick = 0 := Nat.sub_eq_zero_of_le (Nat.le_of_not_le hd)
    rw [placeFor, hzero]
    rfl

/-- The deadline at the cursor is in the slot of the cursor at level 0. -/
theorem Fits.eq_slot_of_due (h : Fits higherLevels bound d d p) (hb : d < bound) :
    p = .slot (slotAt 0 d) := by
  cases p with
  | overflow => exact absurd h (Nat.not_le_of_lt hb)
  | slot s =>
    obtain ⟨hs, hring⟩ := h
    have hlevel : s.1 = 0 := by
      by_contra hne
      have hhigh : s.1 ∈ higherLevels := by
        revert hne
        generalize s.1 = level
        revert level
        decide
      rw [if_pos hhigh] at hring
      exact Nat.lt_irrefl _ hring.1
    rw [hs, hlevel]

/-- The slot of the cursor at level 0 has no other deadline ahead. -/
theorem Fits.eq_of_slot (h : Fits higherLevels bound cursor d (.slot (slotAt 0 cursor))) :
    d = cursor := by
  obtain ⟨hs, hring⟩ := h
  rw [show (slotAt 0 cursor).1 = 0 from rfl, if_neg (by decide)] at hring
  have hdiv := hring.div_eq (Nat.mod_one _) (slotAt_eq_iff.1 hs.symm)
  have hunit : ticksPerSlot 0 = 1 := rfl
  rwa [hunit, Nat.div_one, Nat.div_one] at hdiv

/-! ## Placing ids -/

/-- Operations that only lose ids and live timers. -/
theorem Aiming.anti (h : w.Aiming visited bound) (hcur : w'.currentTick = w.currentTick)
    (hids : ∀ p i, i ∈ w'.idsAt p → i ∈ w.idsAt p)
    (hlive : ∀ i f, w'.lookup i = some f → w.lookup i = some f)
    (hmin : w'.overflowMinDeadline = w.overflowMinDeadline) : w'.Aiming visited bound where
  aimed p i f hi hf := hcur ▸ h.aimed p i f (hids p i hi) (hlive i f hf)
  overflow_le i hi f hf := hmin ▸ h.overflow_le i (hids .overflow i hi) f (hlive i f hf)

/-- A live id is placed by its own deadline. -/
theorem Aiming.insertIntoWheel (h : w.Aiming visited bound) (h0 : 0 ∉ visited)
    (hb : bound ≤ w.currentTick + maxRangeTicks) (he : w.lookup id = some e) :
    (w.insertIntoWheel id e.deadlineTick).Aiming visited bound := by
  constructor
  · intro p i f hi hf
    rw [insertIntoWheel_lookup] at hf
    rw [insertIntoWheel_currentTick]
    rcases mem_idsAt_insertIntoWheel.1 hi with hi | ⟨rfl, rfl⟩
    · exact h.aimed p i f hi hf
    · cases he.symm.trans hf
      exact aimed_placeFor h0 hb
  · intro i hi f hf
    rw [insertIntoWheel_lookup] at hf
    simp only [WheelInner.insertIntoWheel] at hi ⊢
    split at hi
    · rename_i hfar
      rw [if_pos hfar]
      refine ⟨_, rfl, ?_⟩
      rcases List.mem_append.1 hi with hi | hi
      · obtain ⟨m, hm, hle⟩ := h.overflow_le i hi f hf
        rw [hm]
        exact Nat.le_trans (Nat.min_le_left _ _) hle
      · cases List.mem_singleton.1 hi
        cases he.symm.trans hf
        cases w.overflowMinDeadline with
        | none => exact Nat.le_refl _
        | some m => exact Nat.min_le_right _ _
    · rename_i hnear
      rw [if_neg hnear]
      exact h.overflow_le i hi f hf

theorem Aiming.reinsert (h : w.Aiming visited bound) (h0 : 0 ∉ visited)
    (hb : bound ≤ w.currentTick + maxRangeTicks) : (w.reinsert id).Aiming visited bound := by
  unfold WheelInner.reinsert
  split
  · rename_i he
    exact h.insertIntoWheel h0 hb he
  · exact h

theorem Aiming.foldl_reinsert (h : w.Aiming visited bound) (h0 : 0 ∉ visited)
    (hb : bound ≤ w.currentTick + maxRangeTicks) (ids : List TimerId) :
    (ids.foldl WheelInner.reinsert w).Aiming visited bound := by
  induction ids generalizing w with
  | nil => exact h
  | cons id ids ih =>
    apply ih (h.reinsert h0 hb)
    rwa [reinsert_currentTick]

/-! ## Visiting slots -/

/-- Emptying the slot of the cursor at the first tick of a block leaves nothing in the
    level that is not ahead of the cursor, or behind it for good. -/
theorem Aiming.clearSlot (h : w.Aiming visited bound) (level : Fin numLevels)
    (h0 : w.currentTick % ticksPerSlot level = 0) :
    (w.clearSlot (slotAt level w.currentTick)).Aiming (insert level visited) bound where
  aimed p i f hi hf := by
    obtain ⟨hi, hne⟩ := mem_idsAt_clearSlot.1 hi
    exact (h.aimed p i f hi hf).of_fits fun hfits => hfits.visit h0 hne
  overflow_le i hi f hf := h.overflow_le i hi f hf

theorem Aiming.of_mod_ne (h : w.Aiming visited bound) {visited' : Finset (Fin numLevels)}
    (hsub : visited ⊆ visited')
    (hmod : ∀ level ∈ visited', level ∉ visited → w.currentTick % ticksPerSlot level ≠ 0) :
    w.Aiming visited' bound where
  aimed p i f hi hf := (h.aimed p i f hi hf).of_fits fun hfits => hfits.of_mod_ne hsub hmod
  overflow_le := h.overflow_le

theorem Aiming.cascade {level : Fin numLevels} (h : w.Aiming visited bound) (h0 : 0 ∉ visited)
    (hne : level ≠ 0) (hb : bound ≤ w.currentTick + maxRangeTicks)
    (hmod : w.currentTick % ticksPerSlot level = 0) :
    (w.cascade level).Aiming (insert level visited) bound :=
  (h.clearSlot level hmod).foldl_reinsert (by simp [h0, hne.symm]) hb _

theorem Aiming.cascadeLevels {levels : List (Fin numLevels)} {shiftAcc : ℕ}
    (h : w.Aiming visited bound) (htower : Tower levels shiftAcc)
    (hnew : ∀ k ∈ levels, k ∉ visited) (h0 : 0 ∉ visited)
    (hb : bound ≤ w.currentTick + maxRangeTicks) :
    (WheelInner.cascadeLevels levels shiftAcc w).Aiming (visited ∪ levels.toFinset) bound :=
  htower.visits (I := fun visited w => w.Aiming visited bound)
    (fun _ _ _ _ h0 hne hb hmod h => h.cascade h0 hne hb hmod)
    (fun _ _ _ hsub hmod h => h.of_mod_ne hsub hmod) hnew h0 hb h

/-! ## One round -/

theorem Aimed.succ (h : Aimed Finset.univ bound cursor d p) (hlt : cursor < bound) :
    Aimed ∅ bound (cursor + 1) d p := by
  rcases Nat.lt_or_ge d cursor with hd | hd
  · rw [Aimed, if_neg (by omega)]
    exact h.behind hd
  · have hfits := h.fits hd
    rw [Aimed, if_pos (show cursor + 1 ≤ d from hfits.lt hlt)]
    exact hfits.succ

theorem Aiming.incrementTick (h : w.Aiming Finset.univ bound) (hlt : w.currentTick < bound) :
    w.incrementTick.Aiming ∅ bound where
  aimed p i f hi hf := (h.aimed p i f hi hf).succ hlt
  overflow_le := h.overflow_le

theorem Aiming.foldl_expire (h : w.Aiming visited bound) (ids : List TimerId)
    (acc : List TimerEntry) : (ids.foldl WheelInner.expire (acc, w)).2.Aiming visited bound := by
  obtain ⟨timers, timerCount, hframe⟩ := foldl_expire_frame ids acc w
  have hlive := foldl_expire_lookup ids acc w
  rw [hframe] at hlive ⊢
  refine h.anti rfl (fun p i hi => ?_) (fun i f hf => ?_) rfl
  · cases p <;> exact hi
  · rw [hlive] at hf
    split at hf
    · cases hf
    · exact hf

theorem Aiming.walkTick (h : w.Aiming higherLevels bound) (hlt : w.currentTick < bound)
    (hb : bound ≤ w.currentTick + maxRangeTicks) (acc : List TimerEntry) :
    (WheelInner.walkTick acc w).2.Aiming higherLevels bound := by
  have hclear := h.clearSlot 0 (Nat.mod_one _)
  have hall : insert 0 higherLevels = Finset.univ := by decide
  rw [hall] at hclear
  have hfire := hclear.foldl_expire (w.levels (slotAt 0 w.currentTick)) acc
  obtain ⟨timers, timerCount, hframe⟩ := foldl_expire_frame (w.levels (slotAt 0 w.currentTick))
    acc (w.clearSlot (slotAt 0 w.currentTick))
  have hcur := congrArg currentTick hframe
  have htick := hfire.incrementTick (by rw [hcur]; exact hlt)
  refine htick.cascadeLevels tower_higher (by simp) (by simp) ?_
  show bound ≤ _ + 1 + maxRangeTicks
  rw [hcur]
  exact Nat.le_trans hb (Nat.add_le_add_right (Nat.le_succ _) _)

theorem Lined.holds (h : w.Lined) (he : w.lookup id = some e) : w.Holds id := by
  apply mem_allIds.1
  apply List.count_pos_iff.1
  have hone : w.queued id = 1 := h id (he ▸ Option.some_ne_none e)
  exact Nat.lt_of_lt_of_eq Nat.one_pos hone.symm

/-- A round fires a live timer if its deadline is the tick of the cursor, or behind it
    and in the same slot of level 0. -/
theorem Aiming.mem_slot_iff (h : w.Aiming higherLevels bound) (hlined : w.Lined)
    (hlt : w.currentTick < bound) (he : w.lookup id = some e) :
    id ∈ w.levels (slotAt 0 w.currentTick) ↔
      e.deadlineTick ≤ w.currentTick ∧ slotAt 0 w.currentTick = slotAt 0 e.deadlineTick := by
  constructor
  · intro hi
    have haimed := h.aimed (.slot _) id e hi he
    rcases Nat.lt_or_ge e.deadlineTick w.currentTick with hd | hd
    · exact ⟨hd.le, Place.slot.inj (haimed.behind hd)⟩
    · have heq := (haimed.fits hd).eq_of_slot
      exact ⟨heq.le, by rw [heq]⟩
  · rintro ⟨hle, hslot⟩
    obtain ⟨p, hp⟩ := hlined.holds he
    have haimed := h.aimed p id e hp he
    rw [hslot]
    rcases Nat.lt_or_eq_of_le hle with hd | hd
    · rw [haimed.behind hd] at hp
      exact hp
    · have hfits := haimed.fits hd.ge
      rw [hd] at hfits
      rw [hfits.eq_slot_of_due hlt] at hp
      exact hd ▸ hp

/-! ## The walk -/

theorem meets_iff {target : ℕ} (hlt : cursor < target) : Meets cursor target d ↔
    (d ≤ cursor ∧ slotAt 0 cursor = slotAt 0 d) ∨ Meets (cursor + 1) target d := by
  constructor
  · rintro ⟨tick, hfrom, hto, hmeet⟩
    rcases Nat.eq_or_lt_of_le hfrom with rfl | hlater
    · exact .inl hmeet
    · exact .inr ⟨tick, hlater, hto, hmeet⟩
  · rintro (hmeet | ⟨tick, hfrom, hto, hmeet⟩)
    · exact ⟨cursor, Nat.le_refl _, hlt, hmeet⟩
    · exact ⟨tick, Nat.le_of_succ_le hfrom, hto, hmeet⟩

/-- The deadlines ahead of the cursor are met exactly up to the target. -/
theorem meets_iff_of_le {target : ℕ} (hd : cursor ≤ d) : Meets cursor target d ↔ d < target := by
  constructor
  · rintro ⟨tick, -, hto, hle, -⟩
    exact Nat.lt_of_le_of_lt hle hto
  · intro hlt
    exact ⟨d, hd, hlt, Nat.le_refl _, rfl⟩

theorem walk_currentTick {target rounds : ℕ} (hcur : w.currentTick + rounds = target)
    (acc : List TimerEntry) : (walk target rounds acc w).2.currentTick = target := by
  induction rounds generalizing acc w with
  | zero => exact hcur
  | succ rounds ih =>
    have hnext := walkTick_currentTick (w := w) acc
    rw [walk, if_pos (by omega)]
    exact ih (w := (walkTick acc w).2) (by omega) _

theorem Aiming.walk {target rounds : ℕ} (h : w.Aiming higherLevels target)
    (hcur : w.currentTick + rounds = target) (hb : target ≤ w.currentTick + maxRangeTicks)
    (acc : List TimerEntry) :
    (WheelInner.walk target rounds acc w).2.Aiming higherLevels target := by
  induction rounds generalizing acc w with
  | zero => exact h
  | succ rounds ih =>
    have hlt : w.currentTick < target := by omega
    have hnext := walkTick_currentTick (w := w) acc
    rw [WheelInner.walk, if_pos hlt]
    exact ih (h.walkTick hlt hb acc) (by omega) (by omega) _

/-- A walk fires what it meets. -/
theorem Aiming.walk_lookup {target rounds : ℕ} (h : w.Aiming higherLevels target)
    (hlined : w.Lined) (hcur : w.currentTick + rounds = target)
    (hb : target ≤ w.currentTick + maxRangeTicks) (acc : List TimerEntry)
    (he : w.lookup id = some e) : (WheelInner.walk target rounds acc w).2.lookup id = none ↔
      Meets w.currentTick target e.deadlineTick := by
  induction rounds generalizing acc w with
  | zero =>
    simp only [WheelInner.walk, he, reduceCtorEq, false_iff]
    rintro ⟨tick, hfrom, hto, -⟩
    omega
  | succ rounds ih =>
    have hlt : w.currentTick < target := by omega
    have hnext := walkTick_currentTick (w := w) acc
    have hround := walkTick_lookup (w := w) acc id
    have hslot := h.mem_slot_iff hlined hlt he
    rw [WheelInner.walk, if_pos hlt, meets_iff hlt, ← hslot]
    split at hround
    · rename_i hmem
      refine iff_of_true ?_ (.inl hmem)
      by_contra hlive
      exact (sheds_walk _ _ _ _).live id hlive hround
    · rename_i hmem
      have hlater := ih (h.walkTick hlt hb acc) (hlined.sheds (sheds_walkTick acc)) (by omega)
        (by omega) (WheelInner.walkTick acc w).1 (hround.trans he)
      rw [hnext] at hlater
      exact hlater.trans (or_iff_right hmem).symm

/-- After a walk the overflow list is rescanned in time, or what it has is out of
    range. -/
theorem Aiming.settle (h : w.Aiming higherLevels w.currentTick) (es : List TimerEntry) :
    (w.settle es).OnAim := by
  have hscan : Aiming higherLevels (w.currentTick + maxRangeTicks)
      (if w.overflowMinDeadline.any (fun d => d - w.currentTick < maxRangeTicks)
        then w.reinsertOverflow else w) := by
    split
    · have hclear : Aiming higherLevels (w.currentTick + maxRangeTicks)
          { w with overflow := [], overflowMinDeadline := none } := by
        refine ⟨fun p i f hi hf => ?_, fun i hi => by cases hi⟩
        cases p with
        | overflow => cases hi
        | slot s => exact (h.aimed (.slot s) i f hi hf).of_fits fun hfits => hfits
      exact hclear.foldl_reinsert (by decide) (Nat.le_refl _) w.overflow
    · rename_i hfar
      refine ⟨fun p i f hi hf => (h.aimed p i f hi hf).of_fits fun hfits => ?_, h.overflow_le⟩
      cases p with
      | slot s => exact hfits
      | overflow =>
        obtain ⟨m, hm, hle⟩ := h.overflow_le i hi f hf
        have hpos : 0 < maxRangeTicks := by decide
        simp only [hm, Option.any_some, decide_eq_true_eq] at hfar
        simp only [Fits]
        omega
  unfold OnAim
  rw [settle_currentTick]
  unfold WheelInner.settle
  simp only
  split
  · exact hscan
  · exact { hscan with }

/-! ## The large jump -/

theorem Aiming.drainOne {target : ℕ} (h : w.Aiming visited bound) (h0 : 0 ∉ visited)
    (hb : bound ≤ w.currentTick + maxRangeTicks) (acc : List TimerEntry) :
    (WheelInner.drainOne target (acc, w) id).2.Aiming visited bound := by
  unfold WheelInner.drainOne
  split
  · rename_i he
    split
    · exact h.foldl_expire [id] acc
    · exact h.insertIntoWheel h0 hb he
  · exact h

theorem Aiming.foldl_drainOne {target : ℕ} (h : w.Aiming visited bound) (h0 : 0 ∉ visited)
    (hb : bound ≤ w.currentTick + maxRangeTicks) (ids : List TimerId) (acc : List TimerEntry) :
    (ids.foldl (WheelInner.drainOne target) (acc, w)).2.Aiming visited bound := by
  induction ids generalizing acc w with
  | nil => exact h
  | cons id ids ih =>
    rw [List.foldl_cons, ← Prod.eta (WheelInner.drainOne target (acc, w) id)]
    apply ih (h.drainOne h0 hb acc)
    rwa [drainOne_currentTick]

/-- A jump places all ids anew. -/
theorem onAim_drainDueInto (target : ℕ) : (w.drainDueInto target).2.OnAim := by
  have hempty : (w.jumpTo target).Aiming higherLevels (target + maxRangeTicks) :=
    ⟨fun p i f hi _ => (not_holds_jumpTo ⟨p, hi⟩).elim, fun i hi => by cases hi⟩
  have hdrain : Aiming higherLevels (target + maxRangeTicks)
      (w.allIds.foldl (WheelInner.drainOne target) ([], w.jumpTo target)).2 :=
    hempty.foldl_drainOne (by decide) (Nat.le_refl _) w.allIds []
  unfold OnAim
  rw [drainDueInto_currentTick]
  exact { hdrain with }

/-- A jump fires what is due, the target included. -/
theorem Lined.drainDueInto_lookup {target : ℕ} (hlined : w.Lined) (he : w.lookup id = some e) :
    (w.drainDueInto target).2.lookup id = none ↔ e.deadlineTick ≤ target := by
  have hmem : id ∈ w.allIds := mem_allIds.2 (hlined.holds he)
  have hlookup : (w.drainDueInto target).2.lookup id = w.survivor target id :=
    (foldl_drainOne_lookup w.allIds [] (w.jumpTo target)).trans (if_pos hmem)
  rw [hlookup, survivor, he, Option.filter_some]
  simp

/-! ## An advance -/

/-- The advance takes the path of the large jump. -/
def Jumps (w : WheelInner) (now : Instant) : Prop :=
  saturatingAdd w.currentTick maxRangeTicks < w.instantToTick now

instance (now : Instant) : Decidable (w.Jumps now) := inferInstanceAs (Decidable (_ < _))

/-- What an advance makes of a deadline. -/
def Reaches (w : WheelInner) (now : Instant) (deadlineTick : ℕ) : Prop :=
  if w.Jumps now then deadlineTick ≤ w.instantToTick now
  else Meets w.currentTick (w.instantToTick now) deadlineTick

variable {now : Instant}

theorem jumps_iff : w.Jumps now ↔ w.currentTick + maxRangeTicks < w.instantToTick now := by
  have hlt : w.instantToTick now < 2 ^ 64 := Nat.mod_lt _ (by decide)
  unfold Jumps saturatingAdd
  omega

theorem Meets.lt {target : ℕ} (h : Meets cursor target d) : d < target ∧ cursor < target := by
  obtain ⟨tick, hfrom, hto, hle, -⟩ := h
  exact ⟨Nat.lt_of_le_of_lt hle hto, Nat.lt_of_le_of_lt hfrom hto⟩

theorem Reaches.lt_of_walk (h : w.Reaches now d) (hjump : ¬ w.Jumps now) :
    d < w.instantToTick now := by
  rw [Reaches, if_neg hjump] at h
  exact h.lt.1

theorem Reaches.le (h : w.Reaches now d) : d ≤ w.instantToTick now := by
  by_cases hjump : w.Jumps now
  · rwa [Reaches, if_pos hjump] at h
  · exact (h.lt_of_walk hjump).le

/-- An advance that fires a timer moves the cursor. -/
theorem Reaches.cursor_lt (h : w.Reaches now d) : w.currentTick < w.instantToTick now := by
  by_cases hjump : w.Jumps now
  · exact Nat.lt_of_le_of_lt (Nat.le_add_right _ _) (jumps_iff.1 hjump)
  · rw [Reaches, if_neg hjump] at h
    exact h.lt.2

theorem reaches_of_jumps (hjump : w.Jumps now) (hd : d ≤ w.instantToTick now) :
    w.Reaches now d := by
  rwa [Reaches, if_pos hjump]

/-- On either path a deadline between the cursor and the target is reached. -/
theorem reaches_of_lt (hcur : w.currentTick ≤ d) (hd : d < w.instantToTick now) :
    w.Reaches now d := by
  by_cases hjump : w.Jumps now
  · exact reaches_of_jumps hjump hd.le
  · rw [Reaches, if_neg hjump, meets_iff_of_le hcur]
    exact hd

theorem advanceTo_of_jumps (h : w.Jumps now) :
    w.advanceTo now = w.drainDueInto (w.instantToTick now) := if_pos h

theorem advanceTo_currentTick :
    (w.advanceTo now).2.currentTick = max w.currentTick (w.instantToTick now) := by
  by_cases hjump : w.Jumps now
  · rw [advanceTo_of_jumps hjump, drainDueInto_currentTick]
    have hfar := jumps_iff.1 hjump
    omega
  · simp only [advanceTo, if_neg (show ¬ _ < _ from hjump), settle_currentTick]
    rcases Nat.le_total w.currentTick (w.instantToTick now) with hle | hle
    · rw [walk_currentTick (Nat.add_sub_of_le hle), Nat.max_eq_right hle]
    · rw [Nat.sub_eq_zero_of_le hle, Nat.max_eq_left hle]
      rfl

theorem OnAim.aiming_target (h : w.OnAim) (hjump : ¬ w.Jumps now) :
    w.Aiming higherLevels (max w.currentTick (w.instantToTick now)) := by
  refine ⟨fun p i f hi hf => (h.aimed p i f hi hf).of_fits fun hfits => ?_, h.overflow_le⟩
  cases p with
  | slot s => exact hfits
  | overflow =>
    rw [jumps_iff] at hjump
    simp only [Fits] at hfits ⊢
    omega

/-- A live timer is fired by an advance exactly when the advance reaches its deadline. -/
theorem OnAim.advanceTo (h : w.OnAim) (hlined : w.Lined) :
    (w.advanceTo now).2.OnAim ∧
      ∀ id e, w.lookup id = some e →
        ((w.advanceTo now).2.lookup id = none ↔ w.Reaches now e.deadlineTick) := by
  by_cases hjump : w.Jumps now
  · rw [advanceTo_of_jumps hjump]
    refine ⟨onAim_drainDueInto _, fun id e he => ?_⟩
    rw [Reaches, if_pos hjump]
    exact hlined.drainDueInto_lookup he
  · have haim := h.aiming_target hjump
    have hnear := Nat.le_of_not_lt (jumps_iff.not.1 hjump)
    simp only [WheelInner.advanceTo, if_neg (show ¬ _ < _ from hjump)]
    generalize htarget : w.instantToTick now = target at haim hnear
    have hsettle : ∀ v : WheelInner, ∀ es i, (v.settle es).lookup i = v.lookup i :=
      fun v es i => (takes_settle (w := v)).rest i
    rcases Nat.le_total w.currentTick target with hle | hle
    · rw [Nat.max_eq_right hle] at haim
      have hcur := Nat.add_sub_of_le hle
      have hend : Aiming higherLevels (walk target (target - w.currentTick) [] w).2.currentTick
          (walk target (target - w.currentTick) [] w).2 :=
        (walk_currentTick hcur []).symm ▸ haim.walk hcur hnear []
      refine ⟨hend.settle _, fun id e he => ?_⟩
      rw [Reaches, if_neg hjump, htarget, hsettle]
      exact haim.walk_lookup hlined hcur hnear [] he
    · rw [Nat.max_eq_left hle] at haim
      rw [Nat.sub_eq_zero_of_le hle]
      refine ⟨haim.settle _, fun id e he => ?_⟩
      rw [Reaches, if_neg hjump, htarget, hsettle]
      simp only [WheelInner.walk, he, reduceCtorEq, false_iff]
      rintro ⟨tick, hfrom, hto, -⟩
      omega

/-! ## The other critical sections -/

theorem onAim_new (start : Instant) : (new start).OnAim :=
  ⟨fun p i f hi _ => (not_holds_new start ⟨p, hi⟩).elim, fun i hi => by cases hi⟩

theorem OnAim.insertEntry (h : w.OnAim) (hfree : w.queued e.id = 0) : (w.insertEntry e).OnAim := by
  have hout := not_holds_of_queued hfree
  have hkeep : ∀ p i f, i ∈ w.idsAt p → (w.add e).lookup i = some f → w.lookup i = some f := by
    intro p i f hi hf
    have hne : i ≠ e.id := by
      rintro rfl
      exact hout ⟨p, hi⟩
    rwa [add_lookup, if_neg hne] at hf
  have hadd : (w.add e).Aiming higherLevels (w.currentTick + maxRangeTicks) :=
    ⟨fun p i f hi hf => h.aimed p i f hi (hkeep p i f hi hf),
      fun i hi f hf => h.overflow_le i hi f (hkeep .overflow i f hi hf)⟩
  have hself : (w.add e).lookup e.id = some e := by simp
  have hplaced := hadd.insertIntoWheel (by decide) (Nat.le_refl _) hself
  unfold OnAim
  rw [insertEntry_currentTick]
  exact { hplaced with }

theorem OnAim.cancel (h : w.OnAim) (id : TimerId) : (w.cancel id).2.OnAim := by
  have hmin : (w.cancel id).2.overflowMinDeadline = w.overflowMinDeadline := by
    rcases cancel_cases w id with ⟨e, earliest, _, hc⟩ | ⟨_, _, hc⟩ | ⟨_, _, hc⟩
    all_goals rw [hc]
    rfl
  unfold OnAim
  rw [cancel_currentTick]
  refine Aiming.anti h cancel_currentTick (fun p i hi => ?_) (fun i f hf => ?_) hmin
  · rwa [cancel_idsAt] at hi
  · rw [cancel_lookup] at hf
    split at hf
    · cases hf
    · exact hf

theorem OnAim.timeUntilNext (h : w.OnAim) (now : Instant) : (w.timeUntilNext now).2.OnAim := by
  obtain ⟨earliest, hframe⟩ := timeUntilNext_frame w now
  rw [hframe]
  exact { h with }

theorem OnAim.markInFlight (h : w.OnAim) (es : List TimerEntry) : (w.markInFlight es).OnAim := by
  rw [markInFlight_eq]
  exact { h with }

theorem OnAim.rearm (h : w.OnAim) (hfree : w.queued e.id = 0) : (w.rearm now e).OnAim := by
  have hland : (w.land e.id).OnAim := { h with }
  rcases rearm_cases now w e with ⟨_, hc⟩ | ⟨_, _, hc⟩ | ⟨_, interval, _, hc⟩ <;> rw [hc]
  · exact { h with }
  · exact hland
  · exact hland.insertEntry hfree

theorem OnAim.rearmAll {es : List TimerEntry} (h : w.OnAim) (hes : (es.map TimerEntry.id).Nodup)
    (hfree : ∀ e ∈ es, w.queued e.id = 0) : (w.rearmAll now es).OnAim := by
  induction es generalizing w with
  | nil => exact h
  | cons e es ih =>
    obtain ⟨he, hes⟩ := List.nodup_cons.1 hes
    apply ih (h.rearm (hfree e List.mem_cons_self)) hes
    intro f hf
    rw [rearm_queued_of_ne fun heq => he (heq ▸ List.mem_map_of_mem hf)]
    exact hfree f (List.mem_cons_of_mem _ hf)

end Aim

end WheelInner

/-! ## Calls -/

open Interleaving

section Calls

variable {s s' : Shared} {t t' : Call} {l l' : List Call}

/-- Every critical section of a call keeps the aim. -/
theorem OnAim.act (h : s.inner.OnAim) (hline : InLine ⟨s, l ++ t :: l'⟩)
    (ho : Owned ⟨s, l ++ t :: l'⟩) (hacts : Acts s t s' t') : s'.inner.OnAim := by
  have hfree := (Machine.forall_threads_at.1 hline.held).1
  cases hacts with
  | schedule id request =>
    obtain ⟨e, rfl, _, heq⟩ := schedule_eq_insertEntry s.inner id request s.clock
    rw [heq]
    exact h.insertEntry (hfree e.id (mem_held_of_unmarked List.mem_cons_self))
  | advance now => exact (h.advanceTo hline.lined).1
  | mark expired => exact h.markInFlight expired
  | rearm toReschedule =>
    exact h.rearmAll ho.nodup_rearm fun e he => hfree e.id (mem_held_of_marked he)
  | noneDue => exact h
  | start => exact h
  | callbackReturns => exact h
  | callbackPanics => exact h

theorem OnAim.enter (h : s.inner.OnAim) (e : Invocation) : (enterSerial s e).1.inner.OnAim := by
  cases e with
  | cancel id => exact h.cancel id
  | timeUntilNext => exact h.timeUntilNext s.clock
  | schedule => exact h
  | tick => exact h
  | elapse => exact h

theorem onAim_of_run {ok : State → Step → Prop} {start : Instant} {as : List Step} {s : State}
    (h : Run serial.step ok (initial start) as s) : s.shared.inner.OnAim := by
  refine Machine.invariant_of_run (I := fun s => s.shared.inner.OnAim)
    (J := fun s => Owned s ∧ InLine s) h (fun _ _ hr => ⟨owned_of_run hr, inLine_of_run hr⟩)
    (WheelInner.onAim_new start) ?_ ?_
  · intro x ts e y ts' _ haim _ he
    obtain ⟨rfl, rfl⟩ := Prod.mk.inj (Option.some.inj he)
    exact OnAim.enter haim e
  · intro x l l' t c y t' hJ haim _ hr
    exact OnAim.act haim hJ.2 hJ.1 (acts_of_proceed hr)

/-! ## The clock -/

/-- No reading of the clock is before the start or ahead of the clock, and neither is
    the cursor. -/
structure Paced (start : Instant) (s : State) : Prop where
  startTime : s.shared.inner.startTime = start
  started : start ≤ s.shared.clock
  reached : s.shared.inner.currentTick ≤ asMillis (s.shared.clock - start)
  reading : ∀ t ∈ s.threads, ∀ now, t = .ticking now → start ≤ now ∧ now ≤ s.shared.clock

/-- Apart from an advance, no call moves the cursor, and none moves the start or the
    clock. -/
theorem act_cursor (hk : s.inner.Keyed) (h : Acts s t s' t') :
    s'.inner.startTime = s.inner.startTime ∧ s'.clock = s.clock ∧
      (s'.inner.currentTick = s.inner.currentTick ∨
        ∃ now, t = .ticking now ∧
          s'.inner.currentTick = max s.inner.currentTick (s.inner.instantToTick now)) ∧
      ∀ now, t' ≠ .ticking now := by
  cases h with
  | schedule id request =>
    obtain ⟨e, -, -, heq⟩ := schedule_eq_insertEntry s.inner id request s.clock
    refine ⟨?_, rfl, .inl ?_, nofun⟩
    · rw [heq]
      exact WheelInner.insertEntry_same.startTime
    · rw [heq]
      exact WheelInner.insertEntry_currentTick
  | advance now =>
    exact ⟨(WheelInner.takes_advanceTo hk now).startTime, rfl,
      .inr ⟨now, rfl, WheelInner.advanceTo_currentTick⟩, nofun⟩
  | mark expired =>
    rw [WheelInner.markInFlight_eq]
    exact ⟨rfl, rfl, .inl rfl, nofun⟩
  | rearm toReschedule =>
    exact ⟨WheelInner.rearmAll_startTime, rfl, .inl WheelInner.rearmAll_currentTick, nofun⟩
  | noneDue => exact ⟨rfl, rfl, .inl rfl, nofun⟩
  | start => exact ⟨rfl, rfl, .inl rfl, nofun⟩
  | callbackReturns => exact ⟨rfl, rfl, .inl rfl, nofun⟩
  | callbackPanics => exact ⟨rfl, rfl, .inl rfl, nofun⟩

theorem enter_cursor (s : Shared) (e : Invocation) :
    (enterSerial s e).1.inner.startTime = s.inner.startTime ∧
      (enterSerial s e).1.inner.currentTick = s.inner.currentTick ∧
      s.clock ≤ (enterSerial s e).1.clock ∧
      ∀ t ∈ (enterSerial s e).2, ∀ now, t = .ticking now → now = s.clock := by
  have hnone : ∀ t ∈ ([] : List Call), ∀ now, t = .ticking now → now = s.clock := by simp
  cases e with
  | cancel id =>
    exact ⟨WheelInner.cancel_startTime, WheelInner.cancel_currentTick, Nat.le_refl _, hnone⟩
  | timeUntilNext =>
    obtain ⟨earliest, hframe⟩ := s.inner.timeUntilNext_frame s.clock
    simp only [enterSerial, TimerWheel.enter, hframe]
    exact ⟨trivial, trivial, Nat.le_refl _, hnone⟩
  | schedule => exact ⟨rfl, rfl, Nat.le_refl _, by simp [enterSerial]⟩
  | tick => exact ⟨rfl, rfl, Nat.le_refl _, by simp [enterSerial, TimerWheel.enter]⟩
  | elapse d => exact ⟨rfl, rfl, Nat.le_add_right _ _, hnone⟩

/-- The tick of a reading is at most its milliseconds, which may have been cut. -/
theorem instantToTick_le {w : WheelInner} {start now clock : Instant} (hstart : w.startTime = start)
    (hle : now ≤ clock) : w.instantToTick now ≤ asMillis (clock - start) := by
  subst hstart
  exact Nat.le_trans (Nat.mod_le _ _) (WheelInner.asMillis_sub_mono _ hle)

theorem paced_of_run {ok : State → Step → Prop} {start : Instant} {as : List Step} {s : State}
    (h : Run serial.step ok (initial start) as s) : Paced start s := by
  refine Machine.invariant_of_run h (fun _ _ hr => owned_of_run hr) ?_ ?_ ?_
  · exact ⟨rfl, Nat.le_refl _, Nat.zero_le _, by simp [initial]⟩
  · intro x ts e y ts' _ hpace _ he
    obtain ⟨rfl, rfl⟩ := Prod.mk.inj (Option.some.inj he)
    obtain ⟨hstart, hcursor, hclock, hreading⟩ := enter_cursor x e
    have hle := WheelInner.asMillis_sub_mono start hclock
    refine ⟨hstart.trans hpace.startTime, Nat.le_trans hpace.started hclock, ?_,
      List.forall_mem_append.2 ⟨fun t ht now hnow => ?_, fun t ht now hnow => ?_⟩⟩
    · exact hcursor.trans_le (Nat.le_trans hpace.reached hle)
    · obtain ⟨hfrom, hto⟩ := hpace.reading t ht now hnow
      exact ⟨hfrom, Nat.le_trans hto hclock⟩
    · rw [hreading t ht now hnow]
      exact ⟨hpace.started, hclock⟩
  · intro x l l' t c y t' ho hpace _ hr
    obtain ⟨hstart, hclock, hcursor, hticking⟩ := act_cursor ho.keyed (acts_of_proceed hr)
    obtain ⟨hown, hrest⟩ := Machine.forall_threads_at.1 hpace.reading
    refine ⟨hstart.trans hpace.startTime, hclock ▸ hpace.started, ?_,
      Machine.forall_threads_at.2 ⟨fun now hnow => (hticking now hnow).elim, ?_⟩⟩
    · simp only [hclock]
      rcases hcursor with heq | ⟨now, rfl, heq⟩
      · exact heq.trans_le hpace.reached
      · rw [heq]
        exact Nat.max_le.2 ⟨hpace.reached,
          instantToTick_le hpace.startTime (hown now rfl).2⟩
    · simp only [hclock]
      exact hrest

end Calls

end TimerWheel
