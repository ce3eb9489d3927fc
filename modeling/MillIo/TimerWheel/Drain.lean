-- SUMMARY: A jump of `advance_to` beyond the range of the wheel fires what is due up to and including the target, in the order in which the wheel holds the ids.
import MillIo.TimerWheel.Advance

/-!
# The large jump

A jump takes all ids out of the wheel, fires those that are due at the target
and places the others anew. It reads the wheel slot by slot, so its batch is in
the order of the slots and not in the order of the deadlines, and it counts a
deadline equal to the target as due.
-/

namespace TimerWheel

theorem nodup_slots : slots.Nodup := by
  refine List.nodup_flatMap.2 ⟨fun level _ => ?_, ?_⟩
  · exact (List.nodup_finRange _).map fun _ _ h => eq_of_heq (Sigma.mk.inj h).2
  · refine (List.nodup_finRange _).imp fun hne s hs hs' => hne ?_
    obtain ⟨_, _, rfl⟩ := List.mem_map.1 hs
    obtain ⟨_, _, h⟩ := List.mem_map.1 hs'
    exact (congrArg Sigma.fst h).symm

theorem mem_slots (s : Slot) : s ∈ slots :=
  List.mem_flatMap.2 ⟨s.1, List.mem_finRange _, List.mem_map.2 ⟨s.2, List.mem_finRange _, rfl⟩⟩

namespace WheelInner

section Drain

variable {visited : Finset (Fin numLevels)} {bound target : ℕ} {hand : List TimerId}
  {w : WheelInner} {id : TimerId}

/-! ## Emptying the wheel -/

theorem mem_allIds : id ∈ w.allIds ↔ w.Holds id := by
  simp only [allIds, List.mem_append, List.mem_flatMap]
  constructor
  · rintro (⟨s, _, hs⟩ | h)
    · exact ⟨.slot s, hs⟩
    · exact ⟨.overflow, h⟩
  · rintro ⟨s | _, h⟩
    · exact .inl ⟨s, mem_slots s, h⟩
    · exact .inr h

theorem Placed.nodup_allIds (h : Placed visited bound hand w) : w.allIds.Nodup := by
  refine List.nodup_append.2 ⟨List.nodup_flatMap.2 ⟨fun s _ => h.nodup (.slot s), ?_⟩,
    h.nodup .overflow, ?_⟩
  · refine nodup_slots.imp fun {s t} hne i hs ht => hne ?_
    exact Place.slot.inj (h.unique (.slot s) (.slot t) i hs ht)
  · rintro i hi j hj rfl
    obtain ⟨s, _, hs⟩ := List.mem_flatMap.1 hi
    cases h.unique (.slot s) .overflow i hs hj

theorem not_holds_jumpTo : ¬ (w.jumpTo target).Holds id := by
  rintro ⟨s | _, h⟩ <;> cases h

/-- Emptying the wheel takes all of its ids into the hand, wherever the cursor is
    moved. -/
theorem Ok.jumpTo (h : w.Ok) (target : ℕ) :
    Placed higherLevels (target + maxRangeTicks) w.allIds (w.jumpTo target) where
  keyed := h.keyed
  placed i e he := .inl (mem_allIds.2 ((h.placed i e he).resolve_left (by simp)))
  ahead p i e hi _ := (not_holds_jumpTo ⟨p, hi⟩).elim
  fits p i e hi _ := (not_holds_jumpTo ⟨p, hi⟩).elim
  nodup p := by cases p <;> exact List.nodup_nil
  unique p q i hi _ := (not_holds_jumpTo ⟨p, hi⟩).elim
  hand_nodup := Placed.nodup_allIds h
  hand_free _ _ := not_holds_jumpTo
  overflow_none := by simp [WheelInner.jumpTo]
  overflow_le := by simp [WheelInner.jumpTo]
  counted := h.counted

/-! ## Firing or placing one id -/

section One

variable (acc : List TimerEntry)

theorem drainOne_currentTick : (drainOne target (acc, w) id).2.currentTick = w.currentTick := by
  unfold drainOne
  split
  · split
    · unfold expire
      split <;> rfl
    · exact insertIntoWheel_currentTick
  · rfl

theorem drainOne_fst : (drainOne target (acc, w) id).1 =
    acc ++ (w.lookup id).toList.filter (fun e => e.deadlineTick ≤ target) := by
  cases he : w.lookup id with
  | none => simp [drainOne, he]
  | some e =>
    by_cases hdue : e.deadlineTick ≤ target
    · simp [drainOne, expire, he, hdue]
    · simp [drainOne, he, hdue]

theorem drainOne_lookup_of_ne {i : TimerId} (hi : i ≠ id) :
    (drainOne target (acc, w) id).2.lookup i = w.lookup i := by
  unfold drainOne
  split
  · split
    · exact (expire_lookup i).trans (if_neg hi)
    · exact insertIntoWheel_lookup i
  · rfl

theorem holds_drainOne {i : TimerId} (h : (drainOne target (acc, w) id).2.Holds i) :
    w.Holds i ∨ (i = id ∧ ∃ e, w.lookup id = some e ∧ target < e.deadlineTick) := by
  cases he : w.lookup id with
  | none =>
    simp only [drainOne, he] at h
    exact .inl h
  | some e =>
    simp only [drainOne, he] at h
    split at h
    · simp only [expire, he] at h
      exact .inl h
    · rename_i hlate
      exact (holds_insertIntoWheel.1 h).imp_right fun hi => ⟨hi, e, rfl, Nat.lt_of_not_le hlate⟩

theorem Placed.drainOne (h : Placed higherLevels bound (id :: hand) w)
    (hb : bound ≤ w.currentTick + maxRangeTicks) (hcur : w.currentTick = target) :
    Placed higherLevels bound hand (WheelInner.drainOne target (acc, w) id).2 := by
  unfold WheelInner.drainOne
  split
  · rename_i e he
    split
    · exact h.expire acc
    · rename_i hlate
      exact h.insertIntoWheel (by decide) hb he (hcur ▸ (Nat.lt_of_not_le hlate).le)
  · rename_i he
    exact h.drop he

end One

/-! ## All ids -/

theorem foldl_drainOne_currentTick (ids : List TimerId) (acc : List TimerEntry)
    (w : WheelInner) :
    (ids.foldl (drainOne target) (acc, w)).2.currentTick = w.currentTick := by
  induction ids generalizing acc w with
  | nil => rfl
  | cons id ids ih =>
    rw [List.foldl_cons, ← Prod.eta (drainOne target (acc, w) id), ih, drainOne_currentTick]

/-- The batch reads the ids in the order of the loop. -/
theorem foldl_drainOne_fst {ids : List TimerId} (hids : ids.Nodup) (acc : List TimerEntry)
    (w : WheelInner) : (ids.foldl (drainOne target) (acc, w)).1 =
      acc ++ (ids.filterMap w.lookup).filter (fun e => e.deadlineTick ≤ target) := by
  induction ids generalizing acc w with
  | nil => simp
  | cons id ids ih =>
    obtain ⟨hid, hids⟩ := List.nodup_cons.1 hids
    have hrest : ids.filterMap (drainOne target (acc, w) id).2.lookup = ids.filterMap w.lookup :=
      List.filterMap_congr fun i hi => drainOne_lookup_of_ne acc fun h => hid (h ▸ hi)
    rw [List.foldl_cons, ← Prod.eta (drainOne target (acc, w) id), ih hids, hrest, drainOne_fst,
      List.append_assoc, ← List.filter_append]
    cases he : w.lookup id <;> simp [he]

theorem holds_foldl_drainOne {ids : List TimerId} (hids : ids.Nodup) {acc : List TimerEntry}
    {i : TimerId} (h : (ids.foldl (drainOne target) (acc, w)).2.Holds i) :
    w.Holds i ∨ (i ∈ ids ∧ ∃ e, w.lookup i = some e ∧ target < e.deadlineTick) := by
  induction ids generalizing acc w with
  | nil => exact .inl h
  | cons id ids ih =>
    obtain ⟨hid, hids⟩ := List.nodup_cons.1 hids
    rcases ih hids h with h | ⟨hi, e, he, hlate⟩
    · rcases holds_drainOne acc h with h | ⟨rfl, hlive⟩
      · exact .inl h
      · exact .inr ⟨by simp, hlive⟩
    · have hne : i ≠ id := fun h => hid (h ▸ hi)
      exact .inr ⟨by simp [hi], e, drainOne_lookup_of_ne acc hne ▸ he, hlate⟩

theorem Placed.foldl_drainOne {ids : List TimerId} (h : Placed higherLevels bound ids w)
    (hb : bound ≤ w.currentTick + maxRangeTicks) (hcur : w.currentTick = target)
    (acc : List TimerEntry) :
    Placed higherLevels bound [] (ids.foldl (WheelInner.drainOne target) (acc, w)).2 := by
  induction ids generalizing acc w with
  | nil => exact h
  | cons id ids ih =>
    rw [List.foldl_cons, ← Prod.eta (WheelInner.drainOne target (acc, w) id)]
    have hone : (WheelInner.drainOne target (acc, w) id).2.currentTick = w.currentTick :=
      drainOne_currentTick acc
    exact ih (h.drainOne acc hb hcur) (hone ▸ hb) (hone.trans hcur) _

/-! ## The whole jump -/

/-- The live timers that are due at the target, in the order in which the wheel
    holds their ids. -/
def dueInSlotOrder (w : WheelInner) (target : ℕ) : List TimerEntry :=
  (w.allIds.filterMap w.lookup).filter fun e => e.deadlineTick ≤ target

theorem mem_dueInSlotOrder (h : w.Ok) {e : TimerEntry} :
    e ∈ w.dueInSlotOrder target ↔ w.lookup e.id = some e ∧ e.deadlineTick ≤ target := by
  simp only [dueInSlotOrder, List.mem_filter, List.mem_filterMap, decide_eq_true_eq]
  constructor
  · rintro ⟨⟨i, _, he⟩, hdue⟩
    exact ⟨h.keyed i e he ▸ he, hdue⟩
  · rintro ⟨he, hdue⟩
    exact ⟨⟨e.id, mem_allIds.2 ((h.placed e.id e he).resolve_left (by simp)), he⟩, hdue⟩

theorem Ok.drainDueInto_fst (h : w.Ok) (target : ℕ) :
    (w.drainDueInto target).1 = w.dueInSlotOrder target := by
  simp only [WheelInner.drainDueInto, foldl_drainOne_fst (Placed.nodup_allIds h), List.nil_append]
  rfl

theorem drainDueInto_currentTick : (w.drainDueInto target).2.currentTick = target := by
  simp only [drainDueInto]
  exact foldl_drainOne_currentTick _ _ _

theorem Ok.drainDueInto (h : w.Ok) (target : ℕ) : (w.drainDueInto target).2.Ok := by
  unfold Ok
  rw [drainDueInto_currentTick]
  exact ((h.jumpTo target).foldl_drainOne (Nat.le_refl _) rfl []).invalidateEarliest

theorem Ok.fires_drainDueInto (h : w.Ok) (target : ℕ) :
    w.Fires (· ≤ target) (w.drainDueInto target).1 (w.drainDueInto target).2 := by
  have htakes := takes_drainDueInto h.keyed target
  have hholds : ∀ i, (w.drainDueInto target).2.Holds i →
      i ∈ w.allIds ∧ ∃ e, w.lookup i = some e ∧ target < e.deadlineTick := fun i hi =>
    (holds_foldl_drainOne (Placed.nodup_allIds h) hi).resolve_left not_holds_jumpTo
  refine ⟨htakes, ⟨htakes.nodup, fun i => ⟨fun hi => ?_, ?_⟩⟩, ?_, fun i hi =>
    mem_allIds.1 (hholds i hi).1⟩
  · obtain ⟨e, he, rfl⟩ := List.mem_map.1 hi
    rw [h.drainDueInto_fst, mem_dueInSlotOrder h] at he
    exact ⟨e.deadlineTick, agenda_eq_some_iff.2 ⟨e, he.1, rfl⟩, he.2⟩
  · rintro ⟨d, hd, hdue⟩
    obtain ⟨e, he, rfl⟩ := agenda_eq_some_iff.1 hd
    obtain rfl := h.keyed i e he
    rw [h.drainDueInto_fst]
    exact List.mem_map_of_mem ((mem_dueInSlotOrder h).2 ⟨he, hdue⟩)
  · intro e he hi
    obtain ⟨_, e', he', hlate⟩ := hholds e.id hi
    rw [h.drainDueInto_fst, mem_dueInSlotOrder h] at he
    cases he.1.symm.trans he'
    exact absurd he.2 (Nat.not_le_of_lt hlate)

/-- An advance beyond the range of the wheel jumps. -/
theorem advanceTo_jump {now : Instant} (hfar : w.currentTick + maxRangeTicks < w.instantToTick now) :
    w.advanceTo now = w.drainDueInto (w.instantToTick now) := by
  apply if_pos
  rw [saturatingAdd, Nat.add_comm]
  exact Nat.lt_of_le_of_lt (Nat.min_le_left _ _) hfar

end Drain

/-- Every advance keeps the invariant, moves the cursor to the target unless it is
    there already, and fires timers that are not late. -/
theorem Ok.advanceTo {w : WheelInner} (h : w.Ok) (now : Instant) :
    (w.advanceTo now).2.Ok ∧
      (w.advanceTo now).2.currentTick = max w.currentTick (w.instantToTick now) ∧
      ∃ due, w.Fires due (w.advanceTo now).1 (w.advanceTo now).2 := by
  by_cases hnear : w.instantToTick now ≤ w.currentTick + maxRangeTicks
  · obtain ⟨hok, hcur, hfires⟩ := h.advanceTo_walk hnear
    exact ⟨hok, hcur, _, hfires.toFires⟩
  · have hfar := Nat.lt_of_not_le hnear
    rw [advanceTo_jump hfar, drainDueInto_currentTick]
    exact ⟨h.drainDueInto _, by omega, _, h.fires_drainDueInto _⟩

end WheelInner

end TimerWheel
