-- SUMMARY: The tick-by-tick path of `advance_to` keeps the placement of timers and fires exactly what is due, in the order of deadlines.
import MillIo.TimerWheel.Placement

/-!
# The tick-by-tick path

One round fires the timers whose deadline is the current tick: they are all in
the slot of the cursor at level 0. The walk to a target tick is a sequence of
rounds, so it lists what is due before the target in the order of deadlines.
-/

namespace TimerWheel

namespace WheelInner

/-- The deadlines of the live timers. -/
def agenda (w : WheelInner) : Agenda TimerId := fun id => (w.lookup id).map TimerEntry.deadlineTick

/-- The invariant of the wheel between two operations. -/
def Ok (w : WheelInner) : Prop := w.Placed higherLevels (w.currentTick + maxRangeTicks) []

/-- Going from `w` to `w'` takes the entries of `fired` out of the wheel, and they
    are all that is due. -/
structure Fires (w : WheelInner) (due : ℕ → Prop) (fired : List TimerEntry) (w' : WheelInner) :
    Prop extends Takes w fired w' where
  listed : w.agenda.Lists due (fired.map TimerEntry.id)
  fired_free : ∀ e ∈ fired, ¬ w'.Holds e.id
  holds_of_holds : ∀ id, w'.Holds id → w.Holds id

/-- The entries are taken by increasing deadline. -/
structure FiresInOrder (w : WheelInner) (due : ℕ → Prop) (fired : List TimerEntry)
    (w' : WheelInner) : Prop extends Fires w due fired w' where
  ordered : w.agenda.ListsInOrder due (fired.map TimerEntry.id)

section Fire

variable {visited : Finset (Fin numLevels)} {bound : ℕ} {hand : List TimerId} {w w' : WheelInner}
  {fired : List TimerEntry} {id : TimerId} {due : ℕ → Prop}

theorem agenda_eq_some_iff {d : ℕ} :
    w.agenda id = some d ↔ ∃ e, w.lookup id = some e ∧ e.deadlineTick = d := by
  simp [agenda]

theorem Takes.agenda_eq (h : w.Takes fired w') :
    w'.agenda = w.agenda.without (fired.map TimerEntry.id) := by
  funext id
  simp only [agenda, h.rest, Agenda.without]
  split <;> rfl

/-- The ids of a batch run through the deadlines of its entries. -/
theorem Takes.deadlines_eq (h : w.Takes fired w') :
    (fired.map TimerEntry.id).filterMap w.agenda = fired.map TimerEntry.deadlineTick := by
  rw [List.filterMap_map, ← List.filterMap_eq_map]
  refine List.filterMap_congr fun e he => ?_
  simp [agenda, h.live e he]

/-! ## Firing a slot -/

/-- Firing changes nothing but the map of live timers and their count. -/
theorem foldl_expire_frame (ids : List TimerId) (acc : List TimerEntry) (w : WheelInner) :
    ∃ timers timerCount, (ids.foldl expire (acc, w)).2 = { w with timers, timerCount } := by
  induction ids generalizing acc w with
  | nil => exact ⟨w.timers, w.timerCount, rfl⟩
  | cons id ids ih =>
    rw [List.foldl_cons]
    unfold expire
    split
    · obtain ⟨timers, timerCount, h⟩ := ih _ _
      exact ⟨timers, timerCount, h⟩
    · exact ih acc w

theorem foldl_expire_lookup (ids : List TimerId) (acc : List TimerEntry) (w : WheelInner)
    (i : TimerId) :
    (ids.foldl expire (acc, w)).2.lookup i = if i ∈ ids then none else w.lookup i := by
  induction ids generalizing acc w with
  | nil => simp
  | cons id ids ih =>
    rw [List.foldl_cons, ← Prod.eta (expire (acc, w) id), ih, expire_lookup]
    by_cases hi : i ∈ ids <;> by_cases hid : i = id <;> simp [hi, hid]

theorem Placed.expire (h : Placed visited bound (id :: hand) w) (acc : List TimerEntry) :
    Placed visited bound hand (WheelInner.expire (acc, w) id).2 := by
  unfold WheelInner.expire
  split
  · rename_i e he
    exact (h.remove he).drop (by simp)
  · rename_i he
    exact h.drop he

theorem Placed.foldl_expire {ids : List TimerId} (h : Placed visited bound (ids ++ hand) w)
    (acc : List TimerEntry) :
    Placed visited bound hand (ids.foldl WheelInner.expire (acc, w)).2 := by
  induction ids generalizing acc w with
  | nil => exact h
  | cons id ids ih =>
    rw [List.foldl_cons, ← Prod.eta (WheelInner.expire (acc, w) id)]
    exact ih (h.expire acc) _

/-! ## Moving the cursor -/

theorem Fits.lt {cursor d : ℕ} {p : Place} (h : Fits Finset.univ bound cursor d p)
    (hlt : cursor < bound) : cursor < d := by
  cases p with
  | overflow => exact Nat.lt_of_lt_of_le hlt h
  | slot s =>
    have hring := h.2
    rw [if_pos (Finset.mem_univ _)] at hring
    exact hring.lt

theorem Fits.succ {cursor d : ℕ} {p : Place} (h : Fits Finset.univ bound cursor d p) :
    Fits ∅ bound (cursor + 1) d p := by
  cases p with
  | overflow => exact h
  | slot s =>
    have hring := h.2
    rw [if_pos (Finset.mem_univ _)] at hring
    refine ⟨h.1, ?_⟩
    rw [if_neg (Finset.notMem_empty _)]
    exact hring.succ

/-- When all levels have been visited, the cursor may move on. -/
theorem Placed.incrementTick (h : Placed Finset.univ bound [] w) (hlt : w.currentTick < bound) :
    Placed ∅ bound [] w.incrementTick where
  __ := h
  ahead p i e hi he := (h.fits p i e hi he).lt hlt
  fits p i e hi he := (h.fits p i e hi he).succ

/-! ## Cascading -/

/-- The levels of a cascade: each one starts where the levels below it wrap. -/
def Tower : List (Fin numLevels) → ℕ → Prop
  | [], _ => True
  | level :: rest, shiftAcc =>
    shifts level = shiftAcc ∧ level ≠ 0 ∧ (∀ k ∈ rest, level < k) ∧
      Tower rest (shiftAcc + levelBits level)

theorem tower_higher : Tower [1, 2, 3] (levelBits 0) := by
  refine ⟨rfl, by decide, by decide, rfl, by decide, by decide, rfl, by decide, by decide, trivial⟩

/-- Where a level of a tower does not wrap, none above it does. -/
theorem Tower.mod_ne {level : Fin numLevels} {rest : List (Fin numLevels)} {shiftAcc t : ℕ}
    (h : Tower (level :: rest) shiftAcc) (hmod : t % ticksPerSlot level ≠ 0) :
    ∀ k ∈ level :: rest, t % ticksPerSlot k ≠ 0 := by
  intro k hk hkmod
  have hle : level ≤ k := by
    rcases List.mem_cons.1 hk with rfl | hk
    · exact le_refl _
    · exact (h.2.2.1 k hk).le
  exact hmod (Nat.mod_eq_zero_of_dvd
    (Nat.dvd_trans (ticksPerSlot_dvd hle) (Nat.dvd_of_mod_eq_zero hkmod)))

theorem mod_ticksPerSlot (level : Fin numLevels) (t : ℕ) :
    t &&& ((1 <<< shifts level) - 1) = t % ticksPerSlot level := by
  rw [Nat.one_shiftLeft, Nat.and_two_pow_sub_one_eq_mod, ticksPerSlot]

/-- A cascade visits every level whose slot the cursor has just entered, so afterwards all
    levels of the tower count as visited. -/
theorem Tower.visits {I : Finset (Fin numLevels) → WheelInner → Prop}
    {levels : List (Fin numLevels)} {shiftAcc : ℕ} (htower : Tower levels shiftAcc)
    (hcascade : ∀ visited level w, level ∉ visited → 0 ∉ visited → level ≠ 0 →
      bound ≤ w.currentTick + maxRangeTicks → w.currentTick % ticksPerSlot level = 0 →
      I visited w → I (insert level visited) (w.cascade level))
    (hstay : ∀ visited visited' w, visited ⊆ visited' →
      (∀ level ∈ visited', level ∉ visited → w.currentTick % ticksPerSlot level ≠ 0) →
      I visited w → I visited' w)
    (hnew : ∀ k ∈ levels, k ∉ visited) (h0 : 0 ∉ visited)
    (hb : bound ≤ w.currentTick + maxRangeTicks) (h : I visited w) :
    I (visited ∪ levels.toFinset) (WheelInner.cascadeLevels levels shiftAcc w) := by
  induction levels generalizing visited shiftAcc w with
  | nil => simpa [WheelInner.cascadeLevels] using h
  | cons level rest ih =>
    have hwrap := htower.mod_ne (t := w.currentTick)
    obtain ⟨rfl, hne, habove, hrest⟩ := htower
    unfold WheelInner.cascadeLevels
    rw [mod_ticksPerSlot]
    split
    · rename_i hmod
      have hcasc := hcascade visited level w (hnew level (by simp)) h0 hne hb hmod h
      have hvis : visited ∪ (level :: rest).toFinset = insert level visited ∪ rest.toFinset := by
        rw [List.toFinset_cons, Finset.union_insert, Finset.insert_union]
      rw [hvis]
      refine ih hrest ?_ (by simp [h0, hne.symm]) (by rwa [cascade_currentTick]) hcasc
      intro k hk
      simp [hnew k (by simp [hk]), (habove k hk).ne']
    · rename_i hmod
      refine hstay visited _ w Finset.subset_union_left (fun k hk hkv => hwrap hmod k ?_) h
      exact List.mem_toFinset.1 ((Finset.mem_union.1 hk).resolve_left hkv)

theorem Placed.cascadeLevels {levels : List (Fin numLevels)} {shiftAcc : ℕ}
    (h : Placed visited bound [] w) (htower : Tower levels shiftAcc)
    (hnew : ∀ k ∈ levels, k ∉ visited) (h0 : 0 ∉ visited)
    (hb : bound ≤ w.currentTick + maxRangeTicks) :
    Placed (visited ∪ levels.toFinset) bound [] (WheelInner.cascadeLevels levels shiftAcc w) :=
  htower.visits (I := fun visited w => Placed visited bound [] w)
    (fun _ _ _ hlevel h0 hne hb hmod h => h.cascade hlevel h0 hne hb hmod)
    (fun _ _ _ hsub hmod h => h.of_mod_ne hsub hmod) hnew h0 hb h

theorem holds_cascadeLevels {levels : List (Fin numLevels)} {shiftAcc : ℕ} {i : TimerId}
    (h : (cascadeLevels levels shiftAcc w).Holds i) : w.Holds i :=
  cascadeLevels_induction (P := fun u => u.Holds i → w.Holds i) (fun _ _ hu h => hu (holds_cascade h))
    levels shiftAcc (fun h => h) h

/-! ## One round -/

section Round

variable (acc : List TimerEntry)

theorem walkTick_currentTick : (walkTick acc w).2.currentTick = w.currentTick + 1 := by
  obtain ⟨timers, timerCount, hframe⟩ := foldl_expire_frame (w.levels (slotAt 0 w.currentTick))
    acc (w.clearSlot (slotAt 0 w.currentTick))
  simp only [walkTick, cascadeLevels_currentTick, hframe]
  rfl

theorem walkTick_lookup (i : TimerId) : (walkTick acc w).2.lookup i =
    if i ∈ w.levels (slotAt 0 w.currentTick) then none else w.lookup i := by
  have hcasc := (takes_cascadeLevels [1, 2, 3] (levelBits 0)
    ((w.levels (slotAt 0 w.currentTick)).foldl expire
      (acc, w.clearSlot (slotAt 0 w.currentTick))).2.incrementTick).rest i
  refine hcasc.trans ?_
  rw [if_neg (by simp)]
  exact foldl_expire_lookup _ acc (w.clearSlot _) i

theorem holds_walkTick {i : TimerId} (h : (walkTick acc w).2.Holds i) :
    (w.clearSlot (slotAt 0 w.currentTick)).Holds i := by
  obtain ⟨timers, timerCount, hframe⟩ := foldl_expire_frame (w.levels (slotAt 0 w.currentTick))
    acc (w.clearSlot (slotAt 0 w.currentTick))
  have hfold := holds_cascadeLevels h
  rw [hframe] at hfold
  exact hfold

theorem Placed.walkTick (h : Placed higherLevels bound [] w) (hlt : w.currentTick < bound)
    (hb : bound ≤ w.currentTick + maxRangeTicks) :
    Placed higherLevels bound [] (WheelInner.walkTick acc w).2 := by
  -- Level 0 is the one level whose slot at the cursor is still to be visited.
  have hclear := h.clearSlot 0 (Nat.mod_one _)
  have hall : insert 0 higherLevels = Finset.univ := by decide
  rw [hall, ← List.append_nil (w.levels _)] at hclear
  have hfire := hclear.foldl_expire acc
  obtain ⟨timers, timerCount, hframe⟩ := foldl_expire_frame (w.levels (slotAt 0 w.currentTick))
    acc (w.clearSlot (slotAt 0 w.currentTick))
  have hcur := congrArg currentTick hframe
  have htick := hfire.incrementTick (by rw [hcur]; exact hlt)
  refine htick.cascadeLevels tower_higher (by simp) (by simp) ?_
  show bound ≤ _ + 1 + maxRangeTicks
  rw [hcur]
  exact Nat.le_trans hb (Nat.add_le_add_right (Nat.le_succ _) _)

/-- A live timer that is due at the current tick is in the slot of the cursor. -/
theorem Placed.mem_slot_of_due (h : Placed higherLevels bound [] w) (hlt : w.currentTick < bound)
    (hb : bound ≤ w.currentTick + maxRangeTicks) {e : TimerEntry} (he : w.lookup id = some e)
    (hdue : e.deadlineTick < w.currentTick + 1) : id ∈ w.levels (slotAt 0 w.currentTick) := by
  by_contra hmem
  have hround := h.walkTick [] hlt hb
  have he' : (WheelInner.walkTick [] w).2.lookup id = some e := by
    rw [walkTick_lookup, if_neg hmem, he]
  obtain ⟨p, hp⟩ := (hround.placed id e he').resolve_left (by simp)
  have hahead := hround.ahead p id e hp he'
  rw [walkTick_currentTick] at hahead
  omega

/-- A round fires exactly what is due at the current tick. -/
theorem Placed.fires_walkTick (h : Placed higherLevels bound [] w) (hlt : w.currentTick < bound)
    (hb : bound ≤ w.currentTick + maxRangeTicks) :
    ∃ fired, (WheelInner.walkTick acc w).1 = acc ++ fired ∧
      w.FiresInOrder (· < w.currentTick + 1) fired (WheelInner.walkTick acc w).2 := by
  obtain ⟨fired, hacc, htakes⟩ := extends_walkTick acc h.keyed
  have hslot : ∀ e ∈ fired, e.id ∈ w.levels (slotAt 0 w.currentTick) := by
    intro e he
    by_contra hmem
    have hgone := htakes.rest e.id
    rw [walkTick_lookup, if_neg hmem, if_pos (List.mem_map_of_mem he), htakes.live e he] at hgone
    cases hgone
  have hdue : ∀ e ∈ fired, e.deadlineTick = w.currentTick := by
    intro e he
    have hlt := h.deadline_lt 0 (by decide) (Nat.mod_one _) (hslot e he)
      (htakes.live e he)
    exact Nat.le_antisymm (Nat.le_of_lt_succ hlt.2) hlt.1
  have hlisted : w.agenda.Lists (· < w.currentTick + 1) (fired.map TimerEntry.id) := by
    refine ⟨htakes.nodup, fun i => ⟨fun hi => ?_, ?_⟩⟩
    · obtain ⟨e, he, rfl⟩ := List.mem_map.1 hi
      exact ⟨e.deadlineTick, agenda_eq_some_iff.2 ⟨e, htakes.live e he, rfl⟩,
        Nat.lt_succ_of_le (hdue e he).le⟩
    · rintro ⟨d, hd, hlt'⟩
      obtain ⟨e, he, rfl⟩ := agenda_eq_some_iff.1 hd
      by_contra hi
      have hkept := htakes.rest i
      rw [if_neg hi, walkTick_lookup, if_pos (h.mem_slot_of_due hlt hb he hlt'), he] at hkept
      cases hkept
  refine ⟨fired, hacc, ⟨htakes, hlisted, ?_, fun i hi => holds_clearSlot (holds_walkTick acc hi)⟩,
    hlisted, ?_⟩
  · intro e he hholds
    exact (h.clearSlot 0 (Nat.mod_one _)).hand_free _ (hslot e he) (holds_walkTick acc hholds)
  · rw [htakes.deadlines_eq]
    apply List.pairwise_of_forall_mem_list
    intro d hd d' hd'
    obtain ⟨e, he, rfl⟩ := List.mem_map.1 hd
    obtain ⟨e', he', rfl⟩ := List.mem_map.1 hd'
    exact ((hdue e he).trans (hdue e' he').symm).le

end Round

/-! ## The walk -/

theorem Placed.of_bound (h : Placed visited bound hand w) (bound' : ℕ)
    (hb : ∀ id ∈ w.overflow, ∀ e, w.lookup id = some e → bound' ≤ e.deadlineTick) :
    Placed visited bound' hand w where
  __ := h
  fits p i e hi he := by
    cases p with
    | overflow => exact hb i hi e he
    | slot s => exact h.fits (.slot s) i e hi he

theorem FiresInOrder.refl (h : ∀ id e, w.lookup id = some e → ¬ due e.deadlineTick) :
    w.FiresInOrder due [] w := by
  have hlisted : w.agenda.ListsInOrder due [] := by
    apply Agenda.listsInOrder_nil
    intro i d hd
    obtain ⟨e, he, rfl⟩ := agenda_eq_some_iff.1 hd
    exact h i e he
  exact ⟨⟨.refl w, hlisted.toLists, by simp, fun _ hi => hi⟩, hlisted⟩

theorem FiresInOrder.trans {w'' : WheelInner} {fired' : List TimerEntry} {s t : ℕ} (hst : s ≤ t)
    (h : w.FiresInOrder (· < s) fired w') (h' : w'.FiresInOrder (· < t) fired' w'') :
    w.FiresInOrder (· < t) (fired ++ fired') w'' := by
  have hlisted : w.agenda.ListsInOrder (· < t) ((fired ++ fired').map TimerEntry.id) := by
    rw [List.map_append]
    exact h.ordered.append hst (h.agenda_eq ▸ h'.ordered)
  refine ⟨⟨h.toTakes.trans h'.toTakes, hlisted.toLists, ?_, ?_⟩, hlisted⟩
  · intro e he
    rcases List.mem_append.1 he with he | he
    · exact fun hi => h.fired_free e he (h'.holds_of_holds _ hi)
    · exact h'.fired_free e he
  · exact fun i hi => h.holds_of_holds i (h'.holds_of_holds i hi)

/-- The walk fires what is due before the target tick, and its rounds are enough
    to get there. -/
theorem Placed.walk {target rounds : ℕ} (h : Placed higherLevels target [] w)
    (hcur : w.currentTick + rounds = target) (hb : target ≤ w.currentTick + maxRangeTicks)
    (acc : List TimerEntry) :
    Placed higherLevels target [] (WheelInner.walk target rounds acc w).2 ∧
      (WheelInner.walk target rounds acc w).2.currentTick = target ∧
      ∃ fired, (WheelInner.walk target rounds acc w).1 = acc ++ fired ∧
        w.FiresInOrder (· < target) fired (WheelInner.walk target rounds acc w).2 := by
  induction rounds generalizing w acc with
  | zero =>
    refine ⟨h, hcur, [], by simp [WheelInner.walk], .refl fun id e he => ?_⟩
    obtain ⟨p, hp⟩ := (h.placed id e he).resolve_left (by simp)
    have := h.ahead p id e hp he
    omega
  | succ rounds ih =>
    have hlt : w.currentTick < target := by omega
    obtain ⟨fired, hacc, hfires⟩ := h.fires_walkTick acc hlt hb
    have hround := h.walkTick acc hlt hb
    have hnext := walkTick_currentTick (w := w) acc
    obtain ⟨hplaced, hend, fired', hacc', hfires'⟩ :=
      ih hround (by omega) (by omega) (WheelInner.walkTick acc w).1
    rw [WheelInner.walk, if_pos hlt]
    refine ⟨hplaced, hend, fired ++ fired', ?_, hfires.trans (by omega) hfires'⟩
    rw [hacc', hacc, List.append_assoc]

/-! ## The end of the walk -/

theorem reinsertOverflow_currentTick : w.reinsertOverflow.currentTick = w.currentTick :=
  foldl_reinsert_currentTick _ _

theorem settle_currentTick : (w.settle fired).currentTick = w.currentTick := by
  have hscan : (if w.overflowMinDeadline.any (fun d => d - w.currentTick < maxRangeTicks)
      then w.reinsertOverflow else w).currentTick = w.currentTick := by
    split
    · exact reinsertOverflow_currentTick
    · rfl
  unfold settle
  simp only
  split
  · exact hscan
  · exact hscan

theorem holds_reinsertOverflow {i : TimerId} (h : w.reinsertOverflow.Holds i) : w.Holds i := by
  rcases holds_foldl_reinsert h with ⟨p, hp⟩ | ⟨hi, _⟩
  · cases p with
    | overflow => cases hp
    | slot s => exact ⟨.slot s, hp⟩
  · exact ⟨.overflow, hi⟩

theorem holds_settle {i : TimerId} (h : (w.settle fired).Holds i) : w.Holds i := by
  have hscan : (if w.overflowMinDeadline.any (fun d => d - w.currentTick < maxRangeTicks)
      then w.reinsertOverflow else w).Holds i → w.Holds i := by
    split
    · exact holds_reinsertOverflow
    · exact fun h => h
  unfold settle at h
  simp only at h
  split at h
  · exact hscan h
  · exact hscan h

/-- Taking all ids out of the overflow list. -/
theorem Placed.clearOverflow (h : Placed visited bound [] w) :
    Placed visited bound w.overflow { w with overflow := [], overflowMinDeadline := none } := by
  have hmem : ∀ {p i}, i ∈ idsAt { w with overflow := [], overflowMinDeadline := none } p →
      i ∈ w.idsAt p ∧ p ≠ .overflow := by
    intro p i hi
    cases p with
    | overflow => cases hi
    | slot s => exact ⟨hi, by simp⟩
  refine ⟨h.keyed, ?_, fun p i e hi he => h.ahead p i e (hmem hi).1 he, ?_, ?_, ?_,
    h.nodup .overflow, ?_, by simp, by simp, h.counted⟩
  · intro i e he
    obtain ⟨p, hp⟩ := (h.placed i e he).resolve_left (by simp)
    cases p with
    | overflow => exact .inl hp
    | slot s => exact .inr ⟨.slot s, hp⟩
  · intro p i e hi he
    cases p with
    | overflow => cases hi
    | slot s => exact h.fits (.slot s) i e hi he
  · intro p
    cases p with
    | overflow => exact List.nodup_nil
    | slot s => exact h.nodup (.slot s)
  · intro p q i hp hq
    exact h.unique p q i (hmem hp).1 (hmem hq).1
  · rintro i hi ⟨p, hp⟩
    exact (hmem hp).2 (h.unique p .overflow i (hmem hp).1 hi)

theorem Placed.invalidateEarliest (h : Placed visited bound hand w) :
    Placed visited bound hand w.invalidateEarliest := { h with }

/-- After a walk the overflow list is rescanned in time: what stays there is out
    of range again. -/
theorem Placed.settle (h : Placed higherLevels w.currentTick [] w) : (w.settle fired).Ok := by
  have hscan : Placed higherLevels (w.currentTick + maxRangeTicks) []
      (if w.overflowMinDeadline.any (fun d => d - w.currentTick < maxRangeTicks)
        then w.reinsertOverflow else w) := by
    split
    · have hclear := h.clearOverflow.of_bound (w.currentTick + maxRangeTicks) (by simp)
      rw [← List.append_nil w.overflow] at hclear
      refine hclear.foldl_reinsert (by decide) (Nat.le_refl _) fun id hid e he => ?_
      exact h.ahead .overflow id e hid he
    · rename_i hfar
      refine h.of_bound _ fun id hid e he => ?_
      cases hmin : w.overflowMinDeadline with
      | none =>
        rw [h.overflow_none.1 hmin] at hid
        cases hid
      | some m =>
        have hle := h.overflow_le m hmin id hid e he
        have hpos : 0 < maxRangeTicks := by decide
        simp only [hmin, Option.any_some, decide_eq_true_eq] at hfar
        omega
  unfold Ok
  rw [settle_currentTick]
  unfold WheelInner.settle
  simp only
  split
  · exact hscan
  · exact hscan.invalidateEarliest

theorem FiresInOrder.settle (h : w.FiresInOrder due fired w') (es : List TimerEntry) :
    w.FiresInOrder due fired (w'.settle es) where
  toTakes := by simpa using h.toTakes.trans takes_settle
  listed := h.listed
  fired_free e he hi := h.fired_free e he (holds_settle hi)
  holds_of_holds i hi := h.holds_of_holds i (holds_settle hi)
  ordered := h.ordered

theorem Ok.ahead (h : w.Ok) {e : TimerEntry} (he : w.lookup id = some e) :
    w.currentTick ≤ e.deadlineTick := by
  obtain ⟨p, hp⟩ := (h.placed id e he).resolve_left (by simp)
  exact Placed.ahead h p id e hp he

/-- An advance by at most the range of the wheel fires what is due before the
    target tick. -/
theorem Ok.advanceTo_walk (h : w.Ok) {now : Instant}
    (hnear : w.instantToTick now ≤ w.currentTick + maxRangeTicks) :
    (w.advanceTo now).2.Ok ∧
      (w.advanceTo now).2.currentTick = max w.currentTick (w.instantToTick now) ∧
      w.FiresInOrder (· < w.instantToTick now) (w.advanceTo now).1 (w.advanceTo now).2 := by
  have hwalk : ¬ saturatingAdd w.currentTick maxRangeTicks < w.instantToTick now := by
    have hlt : w.instantToTick now < 2 ^ 64 := Nat.mod_lt _ (by decide)
    unfold saturatingAdd
    omega
  simp only [advanceTo, if_neg hwalk]
  generalize w.instantToTick now = target at hnear
  by_cases hcur : w.currentTick ≤ target
  · have hplaced : Placed higherLevels target [] w := h.of_bound _ fun i hi e he =>
      Nat.le_trans hnear (h.fits .overflow i e hi he)
    obtain ⟨hend, hat, fired, hacc, hfires⟩ := hplaced.walk (Nat.add_sub_of_le hcur) hnear []
    have hend' : Placed higherLevels (WheelInner.walk target (target - w.currentTick) [] w).2.currentTick
        [] (WheelInner.walk target (target - w.currentTick) [] w).2 := hat.symm ▸ hend
    rw [settle_currentTick, hat, Nat.max_eq_right hcur]
    exact ⟨hend'.settle, rfl, by simpa [hacc] using hfires.settle _⟩
  · have hzero : target - w.currentTick = 0 := by omega
    have hplaced : Placed higherLevels w.currentTick [] w := h.of_bound _ fun i hi e he =>
      Nat.le_trans (Nat.le_add_right _ _) (h.fits .overflow i e hi he)
    rw [hzero]
    simp only [WheelInner.walk]
    refine ⟨hplaced.settle, by rw [settle_currentTick]; omega, FiresInOrder.settle (.refl ?_) []⟩
    intro i e he hlt
    have := h.ahead he
    omega

end Fire

end WheelInner

end TimerWheel
