-- SUMMARY: How often the wheel holds the id of a timer: once while the timer is live, whatever its deadline.
import MillIo.TimerWheel.Operations

/-!
# The ids in the wheel

A live timer waits in one slot, or in the overflow list, and it is there once.
Ids that a cancel has left behind may stay, but an id that is inserted is in
no slot before. Unlike the placement of deadlines this depends neither on the
clock nor on the range of delays.
-/

namespace TimerWheel

/-- One of the lists is replaced, and the others stay. -/
theorem count_flatMap_update {α β : Type*} [DecidableEq α] [DecidableEq β] {l : List α} {a : α}
    (hl : l.Nodup) (ha : a ∈ l) (f : α → List β) (bs : List β) (b : β) :
    (l.flatMap (Function.update f a bs)).count b + (f a).count b =
      (l.flatMap f).count b + bs.count b := by
  obtain ⟨l₁, l₂, rfl⟩ := List.append_of_mem ha
  obtain ⟨hout₁, hout₂⟩ : a ∉ l₁ ∧ a ∉ l₂ := by
    have hmiddle := (List.nodup_middle.1 hl).notMem
    simpa [not_or] using hmiddle
  have hkeep : ∀ l' : List α, a ∉ l' → l'.flatMap (Function.update f a bs) = l'.flatMap f := by
    intro l' hout
    refine List.flatMap_congr fun c hc => Function.update_of_ne ?_ _ _
    rintro rfl
    exact hout hc
  simp only [List.flatMap_append, List.flatMap_cons, hkeep _ hout₁, hkeep _ hout₂,
    Function.update_self, List.count_append]
  omega

theorem count_cons_eq (id i : TimerId) (ids : List TimerId) :
    (id :: ids).count i = [id].count i + ids.count i := by
  rw [← List.count_append, List.singleton_append]

namespace WheelInner

/-- How often the slots and the overflow list hold an id. -/
def queued (w : WheelInner) (id : TimerId) : ℕ := w.allIds.count id

/-- Every live timer is in line exactly once. -/
def Lined (w : WheelInner) : Prop := ∀ id, w.lookup id ≠ none → w.queued id = 1

/-- Some of the live timers go, and each takes its id along. -/
structure Sheds (w w' : WheelInner) : Prop where
  live : ∀ id, w'.lookup id ≠ none → w.lookup id ≠ none
  le : ∀ id, w'.queued id ≤ w.queued id
  kept : ∀ id, w'.lookup id ≠ none → w'.queued id = w.queued id
  gone : ∀ id, w.lookup id ≠ none → w'.lookup id = none → w.queued id ≤ 1 → w'.queued id = 0

section Queue

variable {w w' w'' : WheelInner} {id i : TimerId}

theorem not_holds_of_queued (h : w.queued id = 0) : ¬ w.Holds id :=
  fun hholds => List.count_eq_zero.1 h (mem_allIds.2 hholds)

theorem queued_eq (hlevels : w'.levels = w.levels) (hoverflow : w'.overflow = w.overflow) :
    w'.queued i = w.queued i := by
  simp only [queued, allIds, hlevels, hoverflow]

/-! ## Inserting -/

theorem queued_insertIntoWheel (d : ℕ) :
    (w.insertIntoWheel id d).queued i = w.queued i + [id].count i := by
  simp only [insertIntoWheel]
  split
  · simp only [queued, allIds, List.count_append]
    omega
  · have hupdate := count_flatMap_update nodup_slots
      (mem_slots (slotAt (levelForDelta (d - w.currentTick)) d)) w.levels
      (w.levels (slotAt (levelForDelta (d - w.currentTick)) d) ++ [id]) i
    simp only [queued, allIds, List.count_append] at hupdate ⊢
    omega

theorem queued_insertEntry (e : TimerEntry) :
    (w.insertEntry e).queued i = w.queued i + [e.id].count i :=
  queued_insertIntoWheel (w := w.add e) e.deadlineTick

theorem queued_cancel : (w.cancel id).2.queued i = w.queued i :=
  queued_eq (funext fun s => cancel_idsAt (.slot s)) (cancel_idsAt .overflow)

/-! ## Emptying a slot -/

theorem queued_clearSlot (s : Slot) :
    (w.clearSlot s).queued i + (w.levels s).count i = w.queued i := by
  have hupdate := count_flatMap_update nodup_slots (mem_slots s) w.levels [] i
  simp only [clearSlot, queued, allIds, List.count_append, List.count_nil] at hupdate ⊢
  omega

theorem queued_reinsert : (w.reinsert id).queued i =
    w.queued i + if w.lookup i = none then 0 else [id].count i := by
  unfold reinsert
  by_cases hi : id = i
  · subst hi
    split
    · rename_i e he
      rw [queued_insertIntoWheel, he]
      rfl
    · rename_i he
      rw [he]
      rfl
  · have hzero : [id].count i = 0 := List.count_eq_zero_of_not_mem (by simp [Ne.symm hi])
    rw [hzero, ite_self]
    split
    · rw [queued_insertIntoWheel, hzero]
    · rfl

theorem queued_foldl_reinsert (ids : List TimerId) (w : WheelInner) :
    (ids.foldl WheelInner.reinsert w).queued i =
      w.queued i + if w.lookup i = none then 0 else ids.count i := by
  induction ids generalizing w with
  | nil => simp
  | cons id ids ih =>
    rw [List.foldl_cons, ih, queued_reinsert, reinsert_lookup, count_cons_eq id i ids]
    split <;> omega

/-! ## What an advance sheds -/

theorem Sheds.refl (w : WheelInner) : Sheds w w :=
  ⟨fun _ h => h, fun _ => Nat.le_refl _, fun _ _ => rfl, fun _ h h' => absurd h' h⟩

theorem Sheds.trans (h : Sheds w w') (h' : Sheds w' w'') : Sheds w w'' where
  live i hi := h.live i (h'.live i hi)
  le i := Nat.le_trans (h'.le i) (h.le i)
  kept i hi := (h'.kept i hi).trans (h.kept i (h'.live i hi))
  gone i hi hi'' hone := by
    by_cases hi' : w'.lookup i = none
    · exact Nat.eq_zero_of_le_zero (h.gone i hi hi' hone ▸ h'.le i)
    · exact h'.gone i hi' hi'' ((h.kept i hi').trans_le hone)

/-- The ids of stale timers may be dropped. -/
theorem Sheds.of_takes (h : w.Takes [] w') (hle : ∀ i, w'.queued i ≤ w.queued i)
    (hlive : ∀ i, w.lookup i ≠ none → w'.queued i = w.queued i) : Sheds w w' := by
  have hsame : ∀ i, w'.lookup i = w.lookup i := fun i => h.rest i
  refine ⟨fun i hi => hsame i ▸ hi, hle, fun i hi => hlive i (hsame i ▸ hi), fun i hi hi' => ?_⟩
  exact absurd ((hsame i).symm.trans hi') hi

theorem sheds_cascade {level : Fin numLevels} : Sheds w (w.cascade level) := by
  have hqueued : ∀ i, (w.cascade level).queued i =
      (w.clearSlot (slotAt level w.currentTick)).queued i +
        if w.lookup i = none then 0 else (w.levels (slotAt level w.currentTick)).count i :=
    fun i => queued_foldl_reinsert _ _
  refine .of_takes takes_cascade (fun i => ?_) fun i hi => ?_
  · have hclear := queued_clearSlot (w := w) (i := i) (slotAt level w.currentTick)
    rw [hqueued]
    split <;> omega
  · rw [hqueued, if_neg hi, queued_clearSlot]

theorem sheds_cascadeLevels (levels : List (Fin numLevels)) (shiftAcc : ℕ) (w : WheelInner) :
    Sheds w (cascadeLevels levels shiftAcc w) :=
  cascadeLevels_induction (P := Sheds w) (fun _ _ h => h.trans sheds_cascade) levels shiftAcc (.refl w)

/-- Firing a slot takes the live timers of the slot out with their ids. -/
theorem sheds_fire (acc : List TimerEntry) (s : Slot) :
    Sheds w ((w.levels s).foldl expire (acc, w.clearSlot s)).2 := by
  have hlookup : ∀ i, ((w.levels s).foldl expire (acc, w.clearSlot s)).2.lookup i =
      if i ∈ w.levels s then none else w.lookup i := fun i => foldl_expire_lookup _ _ _ i
  have hqueued : ∀ i, ((w.levels s).foldl expire (acc, w.clearSlot s)).2.queued i +
      (w.levels s).count i = w.queued i := by
    intro i
    obtain ⟨timers, timerCount, hframe⟩ := foldl_expire_frame (w.levels s) acc (w.clearSlot s)
    rw [hframe]
    exact queued_clearSlot s
  refine ⟨fun i hi => ?_, fun i => ?_, fun i hi => ?_, fun i hi hgone hone => ?_⟩
  · rw [hlookup] at hi
    split at hi
    · exact absurd rfl hi
    · exact hi
  · exact Nat.le_of_add_right_le (hqueued i).le
  · have hout : i ∉ w.levels s := fun hmem => hi (by rw [hlookup, if_pos hmem])
    have hsum := hqueued i
    rwa [List.count_eq_zero_of_not_mem hout, Nat.add_zero] at hsum
  · have hmem : i ∈ w.levels s := by
      by_contra hout
      rw [hlookup, if_neg hout] at hgone
      exact hi hgone
    have hsum := hqueued i
    have hpos := List.count_pos_iff.2 hmem
    omega

theorem sheds_walkTick (acc : List TimerEntry) : Sheds w (walkTick acc w).2 := by
  have hfire := sheds_fire (w := w) acc (slotAt 0 w.currentTick)
  have hcursor : ∀ v : WheelInner, Sheds v v.incrementTick := fun v =>
    .of_takes takes_incrementTick (fun _ => Nat.le_refl _) fun _ _ => rfl
  exact (hfire.trans (hcursor _)).trans (sheds_cascadeLevels _ _ _)

theorem sheds_walk (target rounds : ℕ) (acc : List TimerEntry) (w : WheelInner) :
    Sheds w (walk target rounds acc w).2 := by
  induction rounds generalizing acc w with
  | zero => exact .refl w
  | succ rounds ih =>
    unfold walk
    split
    · exact (sheds_walkTick acc).trans (ih _ _)
    · exact .refl w

theorem sheds_reinsertOverflow : Sheds w w.reinsertOverflow := by
  have hqueued : ∀ i, w.reinsertOverflow.queued i =
      (slots.flatMap w.levels).count i + if w.lookup i = none then 0 else w.overflow.count i := by
    intro i
    refine (queued_foldl_reinsert w.overflow _).trans ?_
    rw [queued, allIds, List.append_nil]
    rfl
  refine .of_takes takes_reinsertOverflow (fun i => ?_) fun i hi => ?_
  · rw [hqueued, queued, allIds, List.count_append]
    split <;> omega
  · rw [hqueued, if_neg hi, queued, allIds, List.count_append]

theorem sheds_settle (es : List TimerEntry) : Sheds w (w.settle es) := by
  have hscan : Sheds w (if w.overflowMinDeadline.any (fun d => d - w.currentTick < maxRangeTicks)
      then w.reinsertOverflow else w) := by
    split
    · exact sheds_reinsertOverflow
    · exact .refl w
  have hcache : ∀ v : WheelInner, Sheds v v.invalidateEarliest := fun v =>
    .of_takes takes_invalidateEarliest (fun _ => Nat.le_refl _) fun _ _ => rfl
  unfold settle
  simp only
  split
  · exact hscan
  · exact hscan.trans (hcache _)

/-! ## The large jump -/

section Jump

variable {target : ℕ}

/-- The timer, unless it is due at the target of a jump. -/
def survivor (w : WheelInner) (target : ℕ) (i : TimerId) : Option TimerEntry :=
  (w.lookup i).filter fun e => target < e.deadlineTick

theorem survivor_eq_self_of_none (h : w.lookup i = none) : w.survivor target i = w.lookup i := by
  rw [survivor, h]
  rfl

theorem drainOne_lookup (acc : List TimerEntry) : (drainOne target (acc, w) id).2.lookup i =
    if i = id then w.survivor target i else w.lookup i := by
  by_cases hi : i = id
  · subst hi
    rw [if_pos rfl]
    cases he : w.lookup i with
    | none => simp [drainOne, survivor, he]
    | some e =>
      by_cases hdue : e.deadlineTick ≤ target
      · simp [drainOne, survivor, expire, he, hdue, Option.filter_some]
      · simp [drainOne, survivor, he, hdue, Option.filter_some]
  · rw [if_neg hi, drainOne_lookup_of_ne acc hi]

theorem drainOne_queued (acc : List TimerEntry) : (drainOne target (acc, w) id).2.queued i =
    w.queued i + if w.survivor target i = none then 0 else [id].count i := by
  by_cases hi : id = i
  · subst hi
    cases he : w.lookup id with
    | none => simp [drainOne, survivor, he]
    | some e =>
      by_cases hdue : e.deadlineTick ≤ target
      · have hnone : w.survivor target id = none := by
          simp [survivor, he, hdue, Option.filter_some]
        simp only [drainOne, expire, he, if_pos hdue, if_pos hnone]
        exact queued_eq rfl rfl
      · have hsome : w.survivor target id ≠ none := by
          simp [survivor, he, hdue, Option.filter_some]
        simp only [drainOne, he, if_neg hdue, if_neg hsome]
        exact queued_insertIntoWheel _
  · have hzero : [id].count i = 0 := List.count_eq_zero_of_not_mem (by simp [Ne.symm hi])
    rw [hzero, ite_self]
    unfold drainOne
    split
    · rename_i e he
      split
      · simp only [expire, he]
        exact queued_eq rfl rfl
      · rw [queued_insertIntoWheel, hzero]
    · rfl

theorem drainOne_survivor (acc : List TimerEntry) :
    (drainOne target (acc, w) id).2.survivor target i = w.survivor target i := by
  rw [survivor, drainOne_lookup]
  split
  · rw [survivor, Option.filter_filter]
    simp
  · rfl

theorem foldl_drainOne_lookup (ids : List TimerId) (acc : List TimerEntry) (w : WheelInner) :
    (ids.foldl (drainOne target) (acc, w)).2.lookup i =
      if i ∈ ids then w.survivor target i else w.lookup i := by
  induction ids generalizing acc w with
  | nil => simp
  | cons id ids ih =>
    rw [List.foldl_cons, ← Prod.eta (drainOne target (acc, w) id), ih, drainOne_survivor,
      drainOne_lookup]
    by_cases hi : i ∈ ids <;> by_cases hid : i = id <;> simp [hi, hid]

theorem foldl_drainOne_queued (ids : List TimerId) (acc : List TimerEntry) (w : WheelInner) :
    (ids.foldl (drainOne target) (acc, w)).2.queued i =
      w.queued i + if w.survivor target i = none then 0 else ids.count i := by
  induction ids generalizing acc w with
  | nil => simp
  | cons id ids ih =>
    rw [List.foldl_cons, ← Prod.eta (drainOne target (acc, w) id), ih, drainOne_survivor,
      drainOne_queued, count_cons_eq id i ids]
    split <;> omega

theorem sheds_drainDueInto : Sheds w (w.drainDueInto target).2 := by
  have hlookup : ∀ i, (w.drainDueInto target).2.lookup i =
      if i ∈ w.allIds then w.survivor target i else w.lookup i :=
    fun i => foldl_drainOne_lookup _ _ _
  have hqueued : ∀ i, (w.drainDueInto target).2.queued i =
      if w.survivor target i = none then 0 else w.queued i := by
    intro i
    refine (foldl_drainOne_queued w.allIds [] (w.jumpTo target)).trans ?_
    have hempty : (w.jumpTo target).queued i = 0 := by
      rw [queued, List.count_eq_zero]
      exact fun hmem => not_holds_jumpTo (mem_allIds.1 hmem)
    rw [hempty, Nat.zero_add]
    rfl
  have hle : ∀ i, (w.drainDueInto target).2.queued i ≤ w.queued i := by
    intro i
    rw [hqueued]
    split <;> omega
  refine ⟨fun i hi => ?_, hle, fun i hi => ?_, fun i hi hgone _ => ?_⟩
  · intro hnone
    rw [hlookup, survivor_eq_self_of_none hnone, ite_self] at hi
    exact hi hnone
  · by_cases hmem : i ∈ w.allIds
    · rw [hlookup, if_pos hmem] at hi
      rw [hqueued, if_neg hi]
    · have hzero : w.queued i = 0 := List.count_eq_zero_of_not_mem hmem
      exact hzero ▸ Nat.eq_zero_of_le_zero (hzero ▸ hle i)
  · rw [hlookup] at hgone
    split at hgone
    · rw [hqueued, if_pos hgone]
    · exact absurd hgone hi

end Jump

/-- An advance on either path sheds the timers that it fires. -/
theorem sheds_advanceTo (now : Instant) : Sheds w (w.advanceTo now).2 := by
  simp only [advanceTo]
  split
  · exact sheds_drainDueInto
  · exact (sheds_walk _ _ _ _).trans (sheds_settle _)

/-! ## Staying in line -/

theorem Lined.sheds (h : w.Lined) (hsheds : Sheds w w') : w'.Lined :=
  fun i hi => (hsheds.kept i hi).trans (h i (hsheds.live i hi))

theorem Lined.cancel (h : w.Lined) (id : TimerId) : (w.cancel id).2.Lined := by
  intro i hi
  rw [cancel_lookup] at hi
  split at hi
  · exact absurd rfl hi
  · rw [queued_cancel]
    exact h i hi

theorem Lined.insertEntry {e : TimerEntry} (h : w.Lined) (hfree : w.queued e.id = 0) :
    (w.insertEntry e).Lined := by
  intro i hi
  rw [queued_insertEntry, List.count_singleton]
  by_cases hie : i = e.id
  · simp [hie, hfree]
  · rw [insertEntry_lookup, if_neg hie] at hi
    simp [h i hi, Ne.symm hie]

variable {now : Instant} {e : TimerEntry} {es : List TimerEntry}

theorem rearm_queued_of_ne (hi : i ≠ e.id) : (w.rearm now e).queued i = w.queued i := by
  rcases rearm_cases now w e with ⟨_, h⟩ | ⟨_, _, h⟩ | ⟨_, interval, _, h⟩ <;> rw [h]
  · rfl
  · rfl
  · rw [queued_insertEntry, List.count_eq_zero_of_not_mem (by simpa using hi)]
    rfl

theorem Lined.rearm (h : w.Lined) (hfree : w.queued e.id = 0) : (w.rearm now e).Lined := by
  rcases rearm_cases now w e with ⟨_, hc⟩ | ⟨_, _, hc⟩ | ⟨_, interval, _, hc⟩ <;> rw [hc]
  · exact h
  · exact h
  · have hland : (w.land e.id).Lined := h
    exact hland.insertEntry hfree

theorem rearmAll_queued_of_notMem (hi : i ∉ es.map TimerEntry.id) :
    (w.rearmAll now es).queued i = w.queued i := by
  induction es generalizing w with
  | nil => rfl
  | cons e es ih =>
    rw [List.map_cons, List.mem_cons, not_or] at hi
    exact (ih hi.2).trans (rearm_queued_of_ne hi.1)

theorem Lined.rearmAll (h : w.Lined) (hes : (es.map TimerEntry.id).Nodup)
    (hfree : ∀ e ∈ es, w.queued e.id = 0) : (w.rearmAll now es).Lined := by
  induction es generalizing w with
  | nil => exact h
  | cons e es ih =>
    obtain ⟨he, hes⟩ := List.nodup_cons.1 hes
    refine ih (h.rearm (hfree e List.mem_cons_self)) hes fun f hf => ?_
    rw [rearm_queued_of_ne fun heq => he (heq ▸ List.mem_map_of_mem hf)]
    exact hfree f (List.mem_cons_of_mem _ hf)

end Queue

end WheelInner

end TimerWheel
