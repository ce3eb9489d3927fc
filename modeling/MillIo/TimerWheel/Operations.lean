-- SUMMARY: What scheduling, cancelling, marking and re-arming do to the live timers and the in-flight sets, and that they keep the placement of timers.
import MillIo.TimerWheel.Drain

/-!
# The critical sections

Each section is described by what it does to the map of live timers and to the
two in-flight sets, in every state, and by the placement it keeps in a state
that has it.
-/
namespace TimerWheel

namespace WheelInner

section Operations

variable {w : WheelInner} {id : TimerId} {e : TimerEntry} {now : Instant}

/-! ## A new wheel -/

theorem not_holds_new (start : Instant) : ¬ (new start).Holds id := by
  rintro ⟨s | _, h⟩ <;> cases h

theorem ok_new (start : Instant) : (new start).Ok where
  keyed i e he := by cases he
  placed i e he := by cases he
  ahead p i e hi _ := (not_holds_new start ⟨p, hi⟩).elim
  fits p i e hi _ := (not_holds_new start ⟨p, hi⟩).elim
  nodup p := by cases p <;> exact List.nodup_nil
  unique p q i hi _ := (not_holds_new start ⟨p, hi⟩).elim
  hand_nodup := List.nodup_nil
  hand_free _ _ := not_holds_new start
  overflow_none := by simp [new]
  overflow_le := by simp [new]
  counted := rfl

/-! ## Inserting an entry -/

@[simp] theorem add_lookup (i : TimerId) :
    (w.add e).lookup i = if i = e.id then some e else w.lookup i := by
  split
  · rename_i hi
    rw [hi]
    exact AList.lookup_insert _
  · rename_i hi
    exact AList.lookup_insert_ne hi

@[simp] theorem insertEntry_lookup (i : TimerId) :
    (w.insertEntry e).lookup i = if i = e.id then some e else w.lookup i :=
  (insertIntoWheel_lookup i).trans (add_lookup i)

@[simp] theorem insertEntry_currentTick : (w.insertEntry e).currentTick = w.currentTick :=
  insertIntoWheel_currentTick

theorem insertEntry_same : SameFlights w (w.insertEntry e) := by
  have h : SameFlights (w.add e) ((w.add e).insertIntoWheel e.id e.deadlineTick) :=
    insertIntoWheel_same
  exact ⟨h.startTime, h.inFlight, h.canceledInFlight⟩

theorem insertEntry_keyed (hk : w.Keyed) : (w.insertEntry e).Keyed := by
  intro i e' he'
  rw [insertEntry_lookup] at he'
  split at he'
  · rename_i hi
    cases he'
    exact hi.symm
  · exact hk i e' he'

theorem holds_insertEntry {i : TimerId} : (w.insertEntry e).Holds i ↔ w.Holds i ∨ i = e.id :=
  holds_insertIntoWheel

/-- A new timer is entered in the map and in the hand. -/
theorem Ok.add (h : w.Ok) (hdead : w.lookup e.id = none) (hfree : ¬ w.Holds e.id) :
    Placed higherLevels (w.currentTick + maxRangeTicks) [e.id] (w.add e) := by
  have hlive : ∀ {i e'}, w.Holds i → (w.add e).lookup i = some e' → w.lookup i = some e' := by
    intro i e' hi he'
    have hne : i ≠ e.id := by
      rintro rfl
      exact hfree hi
    rwa [add_lookup, if_neg hne] at he'
  refine { h with
    keyed := fun i e' he' => ?_
    placed := fun i e' he' => ?_
    ahead := fun p i e' hi he' => Placed.ahead h p i e' hi (hlive ⟨p, hi⟩ he')
    fits := fun p i e' hi he' => h.fits p i e' hi (hlive ⟨p, hi⟩ he')
    hand_nodup := List.nodup_singleton _
    hand_free := fun i hi => List.mem_singleton.1 hi ▸ hfree
    overflow_le := fun m hm i hi e' he' =>
      h.overflow_le m hm i hi e' (hlive ⟨.overflow, hi⟩ he')
    counted := ?_ }
  · rw [add_lookup] at he'
    split at he'
    · rename_i hi
      cases he'
      exact hi.symm
    · exact h.keyed i e' he'
  · rw [add_lookup] at he'
    split at he'
    · rename_i hi
      exact .inl (List.mem_singleton.2 hi)
    · exact .inr ((h.placed i e' he').resolve_left (by simp))
  · have hmem : e.id ∉ w.timers.keys := by
      rw [← AList.mem_keys, ← AList.lookup_eq_none]
      exact hdead
    show w.timerCount + 1 = (w.timers.insert e.id e).keys.length
    rw [AList.keys_insert, List.erase_of_not_mem hmem, List.length_cons, h.counted]

theorem Ok.insertEntry (h : w.Ok) (hdead : w.lookup e.id = none) (hfree : ¬ w.Holds e.id)
    (hd : w.currentTick ≤ e.deadlineTick) : (w.insertEntry e).Ok := by
  have hadd := (h.add hdead hfree).insertIntoWheel (by decide) (Nat.le_refl _) (by simp) hd
  unfold Ok
  rw [insertEntry_currentTick]
  exact { hadd with }

/-- A delay can be added to the clock without overflow. -/
def DelayFits (w : WheelInner) (now : Instant) (delay : Duration) : Prop :=
  w.instantToTick now + asU64 (asMillis delay) < 2 ^ 64

instance (delay : Duration) : Decidable (w.DelayFits now delay) := inferInstanceAs (Decidable (_ < _))

/-- Without overflow a deadline is not before the clock reading it is made from. -/
theorem le_deadlineFor {delay : Duration} (h : w.DelayFits now delay) :
    w.instantToTick now ≤ w.deadlineFor now delay := by
  rw [deadlineFor, asU64, Nat.mod_eq_of_lt h]
  exact Nat.le_add_right _ _

/-- The elapsed milliseconds grow with the clock. -/
theorem asMillis_sub_mono (start : Instant) {i j : Instant} (hij : i ≤ j) :
    asMillis (i - start) ≤ asMillis (j - start) :=
  Nat.div_le_div_right (Nat.sub_le_sub_right hij start)

/-- The tick of a reading is its milliseconds, as long as these fit into `u64`. -/
theorem instantToTick_of_lt {start i : Instant} (hstart : w.startTime = start)
    (hi : asMillis (i - start) < 2 ^ 64) : w.instantToTick i = asMillis (i - start) := by
  rw [instantToTick, hstart]
  exact Nat.mod_eq_of_lt hi

theorem instantToTick_eq {w' : WheelInner} (h : w'.startTime = w.startTime) (i : Instant) :
    w'.instantToTick i = w.instantToTick i := by
  unfold instantToTick
  rw [h]

theorem deadlineFor_of_startTime {w' : WheelInner} {delay : Duration}
    (h : w'.startTime = w.startTime) : w'.deadlineFor now delay = w.deadlineFor now delay := by
  simp only [deadlineFor, instantToTick_eq h]

/-! ## Cancelling -/

theorem noteRemoved_frame (w : WheelInner) (d : ℕ) :
    ∃ earliestDeadline, w.noteRemoved d = { w with earliestDeadline } := by
  unfold noteRemoved
  split
  · exact ⟨none, rfl⟩
  · exact ⟨w.earliestDeadline, rfl⟩

/-- All that a cancel can do: remove a live timer, note the cancel of one that is
    in flight, or nothing. -/
theorem cancel_cases (w : WheelInner) (id : TimerId) :
    (∃ e earliestDeadline, w.lookup id = some e ∧
      w.cancel id = (true, { w.remove id with earliestDeadline })) ∨
    (w.lookup id = none ∧ id ∈ w.inFlight ∧
      w.cancel id = (true, { w with canceledInFlight := insert id w.canceledInFlight })) ∨
    (w.lookup id = none ∧ id ∉ w.inFlight ∧ w.cancel id = (false, w)) := by
  cases he : w.lookup id with
  | some e =>
    obtain ⟨earliest, hframe⟩ := noteRemoved_frame (w.remove id) e.deadlineTick
    exact .inl ⟨e, earliest, rfl, by simp [cancel, he, hframe]⟩
  | none =>
    by_cases hid : id ∈ w.inFlight
    · exact .inr (.inl ⟨rfl, hid, by simp [cancel, he, hid]⟩)
    · exact .inr (.inr ⟨rfl, hid, by simp [cancel, he, hid]⟩)

theorem cancel_lookup (i : TimerId) :
    (w.cancel id).2.lookup i = if i = id then none else w.lookup i := by
  rcases cancel_cases w id with ⟨e, earliest, _, h⟩ | ⟨hnone, _, h⟩ | ⟨hnone, _, h⟩ <;> rw [h]
  · exact remove_lookup id i
  all_goals
    split
    · rename_i hi
      exact hi ▸ hnone
    · rfl

theorem cancel_inFlight : (w.cancel id).2.inFlight = w.inFlight := by
  rcases cancel_cases w id with ⟨e, earliest, _, h⟩ | ⟨_, _, h⟩ | ⟨_, _, h⟩
  all_goals rw [h]
  rfl

theorem cancel_startTime : (w.cancel id).2.startTime = w.startTime := by
  rcases cancel_cases w id with ⟨e, earliest, _, h⟩ | ⟨_, _, h⟩ | ⟨_, _, h⟩
  all_goals rw [h]
  rfl

theorem cancel_currentTick : (w.cancel id).2.currentTick = w.currentTick := by
  rcases cancel_cases w id with ⟨e, earliest, _, h⟩ | ⟨_, _, h⟩ | ⟨_, _, h⟩
  all_goals rw [h]
  rfl

theorem cancel_canceledInFlight : (w.cancel id).2.canceledInFlight =
    if w.lookup id = none ∧ id ∈ w.inFlight then insert id w.canceledInFlight
    else w.canceledInFlight := by
  rcases cancel_cases w id with ⟨e, earliest, he, h⟩ | ⟨hnone, hid, h⟩ | ⟨hnone, hid, h⟩ <;> rw [h]
  · simp [he, remove]
  · rw [if_pos ⟨hnone, hid⟩]
  · rw [if_neg fun hand => hid hand.2]

theorem cancel_fst : (w.cancel id).1 = true ↔ w.lookup id ≠ none ∨ id ∈ w.inFlight := by
  rcases cancel_cases w id with ⟨e, earliest, he, h⟩ | ⟨hnone, hid, h⟩ | ⟨hnone, hid, h⟩ <;>
    simp [*]

theorem cancel_idsAt (p : Place) : (w.cancel id).2.idsAt p = w.idsAt p := by
  rcases cancel_cases w id with ⟨e, earliest, _, h⟩ | ⟨_, _, h⟩ | ⟨_, _, h⟩ <;> rw [h]
  all_goals cases p <;> rfl

theorem Ok.cancel (h : w.Ok) (id : TimerId) : (w.cancel id).2.Ok := by
  unfold Ok
  rw [cancel_currentTick]
  rcases cancel_cases w id with ⟨e, earliest, he, hc⟩ | ⟨_, _, hc⟩ | ⟨_, _, hc⟩ <;> rw [hc]
  · exact { Placed.remove h he with }
  · exact { h with }
  · exact h

/-! ## The cached earliest deadline -/

theorem timeUntilNext_frame (w : WheelInner) (now : Instant) :
    ∃ earliestDeadline, (w.timeUntilNext now).2 = { w with earliestDeadline } := by
  unfold timeUntilNext
  split
  · exact ⟨w.earliestDeadline, rfl⟩
  · cases he : w.earliestDeadline with
    | some e => exact ⟨w.earliestDeadline, rfl⟩
    | none => exact ⟨_, rfl⟩

theorem Ok.timeUntilNext (h : w.Ok) (now : Instant) : (w.timeUntilNext now).2.Ok := by
  obtain ⟨earliest, hframe⟩ := timeUntilNext_frame w now
  rw [hframe]
  exact { h with }

/-! ## Marking the batch -/

/-- The ids of the repeating timers of a batch. -/
def repeatingIds (es : List TimerEntry) : List TimerId :=
  (es.filter fun e => e.kind.isRepeating).map TimerEntry.id

theorem markInFlight_eq (w : WheelInner) (es : List TimerEntry) :
    w.markInFlight es = { w with inFlight := w.inFlight ∪ (repeatingIds es).toFinset } := by
  unfold markInFlight
  induction es generalizing w with
  | nil => simp [repeatingIds]
  | cons e es ih =>
    rw [List.foldl_cons, ih]
    cases hr : e.kind.isRepeating <;>
      simp [repeatingIds, hr, Finset.union_insert, Finset.insert_union]

theorem Ok.markInFlight (h : w.Ok) (es : List TimerEntry) : (w.markInFlight es).Ok := by
  rw [markInFlight_eq]
  exact { h with }

/-! ## Re-arming -/

/-- The state in which `tick` decides whether to re-arm a timer. -/
def land (w : WheelInner) (id : TimerId) : WheelInner :=
  { w with inFlight := w.inFlight.erase id }

/-- All that the re-arming of one entry can do: drop a cancelled timer, or a
    one-shot one, or insert the timer again. -/
theorem rearm_cases (now : Instant) (w : WheelInner) (e : TimerEntry) :
    (e.id ∈ w.canceledInFlight ∧ w.rearm now e =
      { w.land e.id with canceledInFlight := w.canceledInFlight.erase e.id }) ∨
    (e.id ∉ w.canceledInFlight ∧ e.kind = .once ∧ w.rearm now e = w.land e.id) ∨
    (e.id ∉ w.canceledInFlight ∧ ∃ interval, e.kind = .repeating interval ∧ w.rearm now e =
      (w.land e.id).insertEntry ⟨e.id, w.deadlineFor now interval, e.kind⟩) := by
  by_cases hid : e.id ∈ w.canceledInFlight
  · exact .inl ⟨hid, by simp [rearm, land, hid]⟩
  · cases hkind : e.kind with
    | once => exact .inr (.inl ⟨hid, rfl, by simp [rearm, land, hid, hkind]⟩)
    | repeating interval =>
      refine .inr (.inr ⟨hid, interval, rfl, ?_⟩)
      simp only [rearm, land, hid, hkind, if_false]
      rfl

section Rearm

variable {es : List TimerEntry}

theorem rearm_inFlight : (w.rearm now e).inFlight = w.inFlight.erase e.id := by
  rcases rearm_cases now w e with ⟨_, h⟩ | ⟨_, _, h⟩ | ⟨_, i, _, h⟩ <;> rw [h]
  · rfl
  · rfl
  · exact insertEntry_same.inFlight

theorem rearm_canceledInFlight :
    (w.rearm now e).canceledInFlight = w.canceledInFlight.erase e.id := by
  rcases rearm_cases now w e with ⟨_, h⟩ | ⟨hid, _, h⟩ | ⟨hid, i, _, h⟩ <;> rw [h]
  · exact (Finset.erase_eq_of_notMem hid).symm
  · exact insertEntry_same.canceledInFlight.trans (Finset.erase_eq_of_notMem hid).symm

theorem rearm_startTime : (w.rearm now e).startTime = w.startTime := by
  rcases rearm_cases now w e with ⟨_, h⟩ | ⟨_, _, h⟩ | ⟨_, i, _, h⟩ <;> rw [h]
  · rfl
  · rfl
  · exact insertEntry_same.startTime

theorem rearm_currentTick : (w.rearm now e).currentTick = w.currentTick := by
  rcases rearm_cases now w e with ⟨_, h⟩ | ⟨_, _, h⟩ | ⟨_, i, _, h⟩ <;> rw [h]
  · rfl
  · rfl
  · exact insertEntry_currentTick

theorem rearm_keyed (hk : w.Keyed) : (w.rearm now e).Keyed := by
  rcases rearm_cases now w e with ⟨_, h⟩ | ⟨_, _, h⟩ | ⟨_, i, _, h⟩ <;> rw [h]
  · exact hk
  · exact hk
  · exact insertEntry_keyed hk

theorem rearm_lookup_of_ne {i : TimerId} (hi : i ≠ e.id) :
    (w.rearm now e).lookup i = w.lookup i := by
  rcases rearm_cases now w e with ⟨_, h⟩ | ⟨_, _, h⟩ | ⟨_, k, _, h⟩ <;> rw [h]
  · rfl
  · rfl
  · exact (insertEntry_lookup i).trans (if_neg hi)

/-- A timer that was cancelled in flight is not re-armed. -/
theorem rearm_lookup_of_canceled (now : Instant) (e : TimerEntry) {i : TimerId} (hi : i ∈ w.canceledInFlight) :
    (w.rearm now e).lookup i = w.lookup i := by
  rcases rearm_cases now w e with ⟨_, h⟩ | ⟨_, _, h⟩ | ⟨hid, k, _, h⟩ <;> rw [h]
  · rfl
  · rfl
  · refine (insertEntry_lookup i).trans (if_neg ?_)
    rintro rfl
    exact hid hi

/-- A repeating timer that was not cancelled in flight is live again. -/
theorem rearm_lookup_self (now : Instant) (hid : e.id ∉ w.canceledInFlight) (hr : e.kind.isRepeating) :
    ∃ e', (w.rearm now e).lookup e.id = some e' ∧ e'.kind.isRepeating := by
  rcases rearm_cases now w e with ⟨hid', _⟩ | ⟨_, hkind, _⟩ | ⟨_, i, _, h⟩
  · exact absurd hid' hid
  · rw [hkind] at hr
    cases hr
  · rw [h, insertEntry_lookup, if_pos rfl]
    exact ⟨_, rfl, hr⟩

theorem holds_rearm {i : TimerId} (h : (w.rearm now e).Holds i) : w.Holds i ∨ i = e.id := by
  rcases rearm_cases now w e with ⟨_, hc⟩ | ⟨_, _, hc⟩ | ⟨_, k, _, hc⟩ <;> rw [hc] at h
  · exact .inl h
  · exact .inl h
  · have hi := holds_insertEntry.1 h
    exact hi

/-- The re-arming of a timer that was not cancelled in flight needs a deadline that is not
    behind the cursor. -/
theorem Ok.rearm (h : w.Ok) (hdead : w.lookup e.id = none) (hfree : ¬ w.Holds e.id)
    (hd : e.id ∉ w.canceledInFlight → w.currentTick ≤ w.deadlineFor now e.kind.delay) :
    (w.rearm now e).Ok := by
  have hland : (w.land e.id).Ok := { h with }
  rcases rearm_cases now w e with ⟨_, hc⟩ | ⟨_, _, hc⟩ | ⟨hid, interval, hkind, hc⟩ <;> rw [hc]
  · exact { h with }
  · exact hland
  · rw [hkind] at hd
    exact hland.insertEntry hdead hfree (hd hid)

/-! ## Re-arming the batch -/

variable {i : TimerId}

theorem rearmAll_cons : w.rearmAll now (e :: es) = (w.rearm now e).rearmAll now es := rfl

theorem mem_rearmAll_inFlight : i ∈ (w.rearmAll now es).inFlight ↔
    i ∈ w.inFlight ∧ i ∉ es.map TimerEntry.id := by
  induction es generalizing w with
  | nil => simp [rearmAll]
  | cons e es ih =>
    rw [rearmAll_cons, ih, rearm_inFlight, Finset.mem_erase, List.map_cons, List.mem_cons]
    tauto

theorem mem_rearmAll_canceledInFlight : i ∈ (w.rearmAll now es).canceledInFlight ↔
    i ∈ w.canceledInFlight ∧ i ∉ es.map TimerEntry.id := by
  induction es generalizing w with
  | nil => simp [rearmAll]
  | cons e es ih =>
    rw [rearmAll_cons, ih, rearm_canceledInFlight, Finset.mem_erase, List.map_cons, List.mem_cons]
    tauto

theorem rearmAll_startTime : (w.rearmAll now es).startTime = w.startTime := by
  induction es generalizing w with
  | nil => rfl
  | cons e es ih => exact ih.trans rearm_startTime

theorem rearmAll_currentTick : (w.rearmAll now es).currentTick = w.currentTick := by
  induction es generalizing w with
  | nil => rfl
  | cons e es ih => exact ih.trans rearm_currentTick

theorem rearmAll_keyed (hk : w.Keyed) : (w.rearmAll now es).Keyed := by
  induction es generalizing w with
  | nil => exact hk
  | cons e es ih => exact ih (rearm_keyed hk)

theorem rearmAll_lookup_of_notMem (hi : i ∉ es.map TimerEntry.id) :
    (w.rearmAll now es).lookup i = w.lookup i := by
  induction es generalizing w with
  | nil => rfl
  | cons e es ih =>
    rw [List.map_cons, List.mem_cons, not_or] at hi
    exact (ih hi.2).trans (rearm_lookup_of_ne hi.1)

/-- A timer that was cancelled in flight is not re-armed by the batch. -/
theorem rearmAll_lookup_of_canceled (hes : (es.map TimerEntry.id).Nodup)
    (hi : i ∈ w.canceledInFlight) : (w.rearmAll now es).lookup i = w.lookup i := by
  induction es generalizing w with
  | nil => rfl
  | cons e es ih =>
    obtain ⟨he, hes⟩ := List.nodup_cons.1 hes
    have hone := rearm_lookup_of_canceled now e hi
    rw [rearmAll_cons]
    by_cases hie : i = e.id
    · -- The note is used up by the entry of the timer, which occurs once.
      exact (rearmAll_lookup_of_notMem (hie ▸ he)).trans hone
    · refine (ih hes ?_).trans hone
      rw [rearm_canceledInFlight]
      exact Finset.mem_erase.2 ⟨hie, hi⟩

/-- A repeating timer of the batch that was not cancelled in flight is live again. -/
theorem rearmAll_lookup_of_mem (hes : (es.map TimerEntry.id).Nodup) (he : e ∈ es)
    (hid : e.id ∉ w.canceledInFlight) (hr : e.kind.isRepeating) :
    ∃ e', (w.rearmAll now es).lookup e.id = some e' ∧ e'.kind.isRepeating := by
  induction es generalizing w with
  | nil => cases he
  | cons f es ih =>
    obtain ⟨hf, hes⟩ := List.nodup_cons.1 hes
    rcases List.mem_cons.1 he with rfl | he
    · obtain ⟨e', he', hr'⟩ := rearm_lookup_self now hid hr
      exact ⟨e', (rearmAll_lookup_of_notMem hf).trans he', hr'⟩
    · refine ih hes he ?_
      rw [rearm_canceledInFlight]
      exact fun hmem => hid (Finset.mem_of_mem_erase hmem)

theorem Ok.rearmAll (h : w.Ok) (hes : (es.map TimerEntry.id).Nodup)
    (hdead : ∀ e ∈ es, w.lookup e.id = none) (hfree : ∀ e ∈ es, ¬ w.Holds e.id)
    (hd : ∀ e ∈ es, e.id ∉ w.canceledInFlight →
      w.currentTick ≤ w.deadlineFor now e.kind.delay) : (w.rearmAll now es).Ok := by
  induction es generalizing w with
  | nil => exact h
  | cons e es ih =>
    obtain ⟨he, hes⟩ := List.nodup_cons.1 hes
    have hne : ∀ f ∈ es, f.id ≠ e.id := by
      intro f hf heq
      exact he (heq ▸ List.mem_map_of_mem hf)
    refine ih (h.rearm (hdead e (by simp)) (hfree e (by simp)) (hd e (by simp))) hes ?_ ?_ ?_
    · intro f hf
      rw [rearm_lookup_of_ne (hne f hf)]
      exact hdead f (by simp [hf])
    · intro f hf hholds
      exact (holds_rearm hholds).elim (hfree f (by simp [hf])) (hne f hf)
    · intro f hf hid
      rw [rearm_canceledInFlight, Finset.mem_erase] at hid
      rw [rearm_currentTick, deadlineFor_of_startTime rearm_startTime]
      exact hd f (by simp [hf]) fun hmem => hid ⟨hne f hf, hmem⟩

end Rearm

end Operations

end WheelInner

end TimerWheel
