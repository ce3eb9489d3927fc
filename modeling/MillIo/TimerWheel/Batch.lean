-- SUMMARY: What an advance of the wheel takes out of the map of live timers, whatever the placement of their ids.
import MillIo.TimerWheel.Inner

/-!
# The batch of an advance

Every operation of the wheel either leaves the map of live timers alone or takes
entries out of it and hands them over, each of them once. These facts depend on
the map only: they hold in every state whose map is keyed by the ids of its
entries, also where ids are misplaced.
-/

namespace TimerWheel

namespace WheelInner

/-- The map of live timers is keyed by the ids of its entries. -/
def Keyed (w : WheelInner) : Prop := ∀ id e, w.lookup id = some e → e.id = id

/-- What an advance does not touch. -/
structure SameFlights (w w' : WheelInner) : Prop where
  startTime : w'.startTime = w.startTime
  inFlight : w'.inFlight = w.inFlight
  canceledInFlight : w'.canceledInFlight = w.canceledInFlight

/-- The entries of `es` are live in `w`, each is taken once, and `w'` has all live
    timers of `w` but these. -/
structure Takes (w : WheelInner) (es : List TimerEntry) (w' : WheelInner) : Prop
    extends SameFlights w w' where
  nodup : (es.map TimerEntry.id).Nodup
  live : ∀ e ∈ es, w.lookup e.id = some e
  rest : ∀ id, w'.lookup id = if id ∈ es.map TimerEntry.id then none else w.lookup id

variable {w w' w'' : WheelInner} {es es' : List TimerEntry}

theorem Takes.of_timers_eq (h : w'.timers = w.timers) (hs : SameFlights w w') : w.Takes [] w' :=
  { hs with nodup := List.nodup_nil, live := by simp, rest := by simp [lookup, h] }

theorem Takes.refl (w : WheelInner) : w.Takes [] w := .of_timers_eq rfl ⟨rfl, rfl, rfl⟩

theorem Takes.lookup_of_some (h : w.Takes es w') {id : TimerId} {e : TimerEntry}
    (he : w'.lookup id = some e) : id ∉ es.map TimerEntry.id ∧ w.lookup id = some e := by
  rw [h.rest] at he
  split at he
  · cases he
  · rename_i hmem
    exact ⟨hmem, he⟩

theorem Takes.keyed (h : w.Takes es w') (hk : w.Keyed) : w'.Keyed :=
  fun id e he => hk id e (h.lookup_of_some he).2

theorem Takes.trans (h : w.Takes es w') (h' : w'.Takes es' w'') : w.Takes (es ++ es') w'' where
  startTime := h'.startTime.trans h.startTime
  inFlight := h'.inFlight.trans h.inFlight
  canceledInFlight := h'.canceledInFlight.trans h.canceledInFlight
  nodup := by
    rw [List.map_append, List.nodup_append]
    refine ⟨h.nodup, h'.nodup, ?_⟩
    rintro i hi j hj rfl
    obtain ⟨e, he, rfl⟩ := List.mem_map.1 hj
    exact (h.lookup_of_some (h'.live e he)).1 hi
  live e he := by
    rcases List.mem_append.1 he with he | he
    · exact h.live e he
    · exact (h.lookup_of_some (h'.live e he)).2
  rest i := by
    rw [h'.rest, h.rest, List.map_append]
    by_cases hi : i ∈ es.map TimerEntry.id <;> by_cases hi' : i ∈ es'.map TimerEntry.id <;>
      simp only [hi, hi', List.mem_append, or_true, true_or, or_self, if_true, if_false]

/-! ## Operations that keep the map -/

section Frame

variable {id : TimerId} {d : ℕ} {s : Slot} {level : Fin numLevels}

@[simp] theorem insertIntoWheel_currentTick :
    (w.insertIntoWheel id d).currentTick = w.currentTick := by
  simp only [insertIntoWheel]; split <;> rfl

@[simp] theorem insertIntoWheel_timers : (w.insertIntoWheel id d).timers = w.timers := by
  simp only [insertIntoWheel]; split <;> rfl

@[simp] theorem insertIntoWheel_timerCount :
    (w.insertIntoWheel id d).timerCount = w.timerCount := by
  simp only [insertIntoWheel]; split <;> rfl

@[simp] theorem insertIntoWheel_earliestDeadline :
    (w.insertIntoWheel id d).earliestDeadline = w.earliestDeadline := by
  simp only [insertIntoWheel]; split <;> rfl

@[simp] theorem insertIntoWheel_lookup (i : TimerId) :
    (w.insertIntoWheel id d).lookup i = w.lookup i := by
  simp [lookup]

theorem insertIntoWheel_same : SameFlights w (w.insertIntoWheel id d) := by
  constructor <;> simp only [insertIntoWheel] <;> split <;> rfl

theorem takes_insertIntoWheel : w.Takes [] (w.insertIntoWheel id d) :=
  .of_timers_eq insertIntoWheel_timers insertIntoWheel_same

@[simp] theorem reinsert_currentTick : (w.reinsert id).currentTick = w.currentTick := by
  unfold reinsert; split <;> simp

@[simp] theorem reinsert_lookup (i : TimerId) : (w.reinsert id).lookup i = w.lookup i := by
  unfold reinsert; split <;> simp

theorem takes_reinsert : w.Takes [] (w.reinsert id) := by
  unfold reinsert
  split
  · exact takes_insertIntoWheel
  · exact .refl w

theorem foldl_reinsert_currentTick (ids : List TimerId) (w : WheelInner) :
    (ids.foldl WheelInner.reinsert w).currentTick = w.currentTick := by
  induction ids generalizing w with
  | nil => rfl
  | cons id ids ih => rw [List.foldl_cons, ih, reinsert_currentTick]

theorem takes_foldl_reinsert (ids : List TimerId) (w : WheelInner) :
    w.Takes [] (ids.foldl WheelInner.reinsert w) := by
  induction ids generalizing w with
  | nil => exact .refl w
  | cons id ids ih => exact takes_reinsert.trans (ih _)

theorem takes_clearSlot : w.Takes [] (w.clearSlot s) := .of_timers_eq rfl ⟨rfl, rfl, rfl⟩

theorem cascade_currentTick : (w.cascade level).currentTick = w.currentTick :=
  foldl_reinsert_currentTick _ _

theorem takes_cascade : w.Takes [] (w.cascade level) :=
  takes_clearSlot.trans (takes_foldl_reinsert _ _)

/-- What each cascade keeps is kept by the loop over the levels, wherever it stops. -/
theorem cascadeLevels_induction {P : WheelInner → Prop}
    (hcascade : ∀ level w, P w → P (w.cascade level)) (levels : List (Fin numLevels)) (shiftAcc : ℕ)
    (h : P w) : P (cascadeLevels levels shiftAcc w) := by
  induction levels generalizing shiftAcc w with
  | nil => exact h
  | cons level rest ih =>
    unfold cascadeLevels
    split
    · exact ih _ (hcascade level w h)
    · exact h

theorem takes_cascadeLevels (levels : List (Fin numLevels)) (shiftAcc : ℕ) (w : WheelInner) :
    w.Takes [] (cascadeLevels levels shiftAcc w) :=
  cascadeLevels_induction (P := fun u => w.Takes [] u) (fun _ _ h => h.trans takes_cascade) levels
    shiftAcc (.refl w)

theorem cascadeLevels_currentTick (levels : List (Fin numLevels)) (shiftAcc : ℕ) (w : WheelInner) :
    (cascadeLevels levels shiftAcc w).currentTick = w.currentTick :=
  cascadeLevels_induction (P := fun u => u.currentTick = w.currentTick)
    (fun _ _ h => cascade_currentTick.trans h) levels shiftAcc rfl

theorem takes_incrementTick : w.Takes [] w.incrementTick := .of_timers_eq rfl ⟨rfl, rfl, rfl⟩

theorem takes_invalidateEarliest : w.Takes [] w.invalidateEarliest :=
  .of_timers_eq rfl ⟨rfl, rfl, rfl⟩

theorem takes_reinsertOverflow : w.Takes [] w.reinsertOverflow := by
  have hclear : w.Takes [] { w with overflow := [], overflowMinDeadline := none } :=
    .of_timers_eq rfl ⟨rfl, rfl, rfl⟩
  exact hclear.trans (takes_foldl_reinsert _ _)

theorem takes_settle : w.Takes [] (w.settle es) := by
  unfold settle
  have hscan : w.Takes [] (if w.overflowMinDeadline.any (fun d => d - w.currentTick < maxRangeTicks)
      then w.reinsertOverflow else w) := by
    split
    · exact takes_reinsertOverflow
    · exact .refl w
  simp only
  split
  · exact hscan
  · exact hscan.trans takes_invalidateEarliest

end Frame

/-! ## Operations that take entries -/

@[simp] theorem remove_lookup (id i : TimerId) :
    (w.remove id).lookup i = if i = id then none else w.lookup i := by
  split
  · rename_i hi
    rw [hi]
    exact AList.lookup_erase _ _
  · rename_i hi
    exact AList.lookup_erase_ne hi

/-- The accumulator of a loop grows by the entries that the loop takes. -/
def Extends (acc : List TimerEntry) (w : WheelInner) (p : List TimerEntry × WheelInner) : Prop :=
  ∃ es, p.1 = acc ++ es ∧ w.Takes es p.2

section Take

variable {p p' : List TimerEntry × WheelInner} (acc : List TimerEntry)

theorem Extends.refl (w : WheelInner) : Extends acc w (acc, w) :=
  ⟨[], by simp, .refl w⟩

theorem Extends.of_takes (h : w.Takes [] w') : Extends acc w (acc, w') :=
  ⟨[], by simp, h⟩

variable {acc} in
theorem Extends.trans (h : Extends acc w p) (h' : Extends p.1 p.2 p') : Extends acc w p' := by
  obtain ⟨es, hp, ht⟩ := h
  obtain ⟨es', hp', ht'⟩ := h'
  exact ⟨es ++ es', by rw [hp', hp, List.append_assoc], ht.trans ht'⟩

variable {acc} in
theorem Extends.keyed (h : Extends acc w p) (hk : w.Keyed) : p.2.Keyed := by
  obtain ⟨_, _, ht⟩ := h
  exact ht.keyed hk

variable {acc} in
theorem expire_lookup {id : TimerId} (i : TimerId) :
    (expire (acc, w) id).2.lookup i = if i = id then none else w.lookup i := by
  unfold expire
  split
  · exact remove_lookup id i
  · rename_i hnone
    split
    · rename_i hi
      exact hi ▸ hnone
    · rfl

theorem extends_expire (hk : w.Keyed) (id : TimerId) : Extends acc w (expire (acc, w) id) := by
  unfold expire
  split
  · rename_i e he
    obtain rfl : e.id = id := hk id e he
    exact ⟨[e], rfl, ⟨rfl, rfl, rfl⟩, by simp, by simpa using he, by simp⟩
  · exact .refl acc w

theorem extends_foldl_expire (hk : w.Keyed) (ids : List TimerId) :
    Extends acc w (ids.foldl expire (acc, w)) := by
  induction ids generalizing acc w with
  | nil => exact .refl acc w
  | cons id ids ih =>
    have h := extends_expire acc hk id
    exact h.trans (ih _ (h.keyed hk))

theorem extends_walkTick (hk : w.Keyed) : Extends acc w (walkTick acc w) := by
  have hclear : Extends acc w (acc, w.clearSlot (slotAt 0 w.currentTick)) :=
    .of_takes acc takes_clearSlot
  have hfire := hclear.trans
    (extends_foldl_expire _ (hclear.keyed hk) (w.levels (slotAt 0 w.currentTick)))
  exact hfire.trans (.of_takes _ (takes_incrementTick.trans (takes_cascadeLevels _ _ _)))

theorem extends_walk (hk : w.Keyed) (targetTick rounds : ℕ) :
    Extends acc w (walk targetTick rounds acc w) := by
  induction rounds generalizing acc w with
  | zero => exact .refl acc w
  | succ rounds ih =>
    unfold walk
    split
    · have h := extends_walkTick acc hk
      exact h.trans (ih _ (h.keyed hk))
    · exact .refl acc w

theorem extends_drainOne (hk : w.Keyed) (targetTick : ℕ) (id : TimerId) :
    Extends acc w (drainOne targetTick (acc, w) id) := by
  unfold drainOne
  split
  · split
    · exact extends_expire acc hk id
    · exact .of_takes acc takes_insertIntoWheel
  · exact .refl acc w

theorem extends_foldl_drainOne (hk : w.Keyed) (targetTick : ℕ) (ids : List TimerId) :
    Extends acc w (ids.foldl (drainOne targetTick) (acc, w)) := by
  induction ids generalizing acc w with
  | nil => exact .refl acc w
  | cons id ids ih =>
    have h := extends_drainOne acc hk targetTick id
    exact h.trans (ih _ (h.keyed hk))

theorem takes_drainDueInto (hk : w.Keyed) (targetTick : ℕ) :
    w.Takes (w.drainDueInto targetTick).1 (w.drainDueInto targetTick).2 := by
  obtain ⟨es, hes, ht⟩ := extends_foldl_drainOne [] (w := w.jumpTo targetTick) hk
    targetTick w.allIds
  have hjump : w.Takes [] (w.jumpTo targetTick) := .of_timers_eq rfl ⟨rfl, rfl, rfl⟩
  simp only [drainDueInto, hes]
  simpa using (hjump.trans ht).trans takes_invalidateEarliest

/-- An advance on either path hands over live timers, each once, and keeps the
    others. -/
theorem takes_advanceTo (hk : w.Keyed) (now : Instant) :
    w.Takes (w.advanceTo now).1 (w.advanceTo now).2 := by
  simp only [advanceTo]
  split
  · exact takes_drainDueInto hk _
  · obtain ⟨es, hes, ht⟩ := extends_walk [] hk (w.instantToTick now)
      (w.instantToTick now - w.currentTick)
    simp only [hes]
    simpa using ht.trans takes_settle

end Take

end WheelInner

end TimerWheel
