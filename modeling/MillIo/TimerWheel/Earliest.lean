-- SUMMARY: The cached earliest deadline: whenever it is set it is the least deadline of the live timers, so `time_until_next` is right.
import MillIo.TimerWheel.Ownership
import MillIo.TimerWheel.Wraparound

/-!
# The cached earliest deadline

The cache is updated by insertions, dropped when the timer it may come from is
removed, and filled again when it is read. The count of live timers decides when
there is nothing to wait for, and whether an inserted timer is the only one.
-/

namespace TimerWheel

namespace WheelInner

/-- By how much the count is above the number of live timers. -/
def Exceeds (w : WheelInner) (surplus : ℕ) : Prop := w.timerCount = w.timers.keys.length + surplus

def Counted (w : WheelInner) : Prop := w.Exceeds 0

/-- The least deadline of the live timers. -/
structure IsEarliest (w : WheelInner) (d : ℕ) : Prop where
  live : ∃ id e, w.lookup id = some e ∧ e.deadlineTick = d
  le : ∀ id e, w.lookup id = some e → d ≤ e.deadlineTick

structure Cached (w : WheelInner) : Prop where
  counted : w.Counted
  earliest : ∀ d, w.earliestDeadline = some d → w.IsEarliest d

/-- From `w` to `w'` the count goes with the live timers, and the cache is left alone. -/
structure Tallies (w w' : WheelInner) : Prop where
  earliest : w'.earliestDeadline = w.earliestDeadline
  exceeds : ∀ surplus, w.Exceeds surplus → w'.Exceeds surplus

section Earliest

variable {w w' w'' : WheelInner} {id : TimerId} {e : TimerEntry} {now : Instant} {surplus : ℕ}

/-! ## Counting -/

theorem Exceeds.remove (h : w.Exceeds surplus) (he : w.lookup id = some e) :
    (w.remove id).Exceeds surplus := by
  have hmem : id ∈ w.timers.keys := by
    rw [← AList.mem_keys, ← AList.lookup_isSome]
    exact Option.isSome_of_eq_some he
  have hkeys : (w.timers.erase id).keys.length = w.timers.keys.length - 1 := by
    rw [AList.keys_erase, List.length_erase_of_mem hmem]
  have hpos := List.length_pos_of_mem hmem
  show w.timerCount - 1 = (w.timers.erase id).keys.length + surplus
  rw [hkeys, h]
  omega

theorem Counted.add (h : w.Counted) (hdead : w.lookup e.id = none) : (w.add e).Counted := by
  have hmem : e.id ∉ w.timers.keys := by
    rw [← AList.mem_keys, ← AList.lookup_eq_none]
    exact hdead
  have hkeys : (w.timers.insert e.id e).keys.length = w.timers.keys.length + 1 := by
    rw [AList.keys_insert, List.erase_of_not_mem hmem, List.length_cons]
  exact (congrArg (· + 1) h).trans hkeys.symm

/-- No live timer is left uncounted, so nothing is live when the count is zero. -/
theorem Exceeds.lookup_eq_none (h : w.Exceeds surplus) (hzero : w.timerCount = 0) (id : TimerId) :
    w.lookup id = none := by
  have hkeys : w.timers.keys = [] := List.eq_nil_of_length_eq_zero (by rw [h] at hzero; omega)
  rw [lookup, AList.lookup_eq_none, AList.mem_keys, hkeys]
  exact List.not_mem_nil

/-- Nothing is counted exactly when nothing is live. -/
theorem Counted.eq_zero_iff (h : w.Counted) : w.timerCount = 0 ↔ ∀ id, w.lookup id = none := by
  rw [h, Nat.add_zero, List.length_eq_zero_iff]
  simp only [lookup, AList.lookup_eq_none, AList.mem_keys, List.eq_nil_iff_forall_not_mem]

theorem Tallies.refl (w : WheelInner) : Tallies w w := ⟨rfl, fun _ h => h⟩

theorem Tallies.trans (h : Tallies w w') (h' : Tallies w' w'') : Tallies w w'' :=
  ⟨h'.earliest.trans h.earliest, fun surplus hc => h'.exceeds surplus (h.exceeds surplus hc)⟩

theorem tallies_insertIntoWheel (d : ℕ) : Tallies w (w.insertIntoWheel id d) := by
  refine ⟨insertIntoWheel_earliestDeadline, fun _ h => ?_⟩
  unfold Exceeds
  rw [insertIntoWheel_timerCount, insertIntoWheel_timers]
  exact h

theorem tallies_reinsert : Tallies w (w.reinsert id) := by
  unfold reinsert
  split
  · exact tallies_insertIntoWheel _
  · exact .refl w

theorem tallies_foldl_reinsert (ids : List TimerId) (w : WheelInner) :
    Tallies w (ids.foldl WheelInner.reinsert w) := by
  induction ids generalizing w with
  | nil => exact .refl w
  | cons id ids ih => exact tallies_reinsert.trans (ih _)

theorem tallies_cascade {level : Fin numLevels} : Tallies w (w.cascade level) := by
  have hclear : Tallies w (w.clearSlot (slotAt level w.currentTick)) := ⟨rfl, fun _ h => h⟩
  exact hclear.trans (tallies_foldl_reinsert _ _)

theorem tallies_cascadeLevels (levels : List (Fin numLevels)) (shiftAcc : ℕ) (w : WheelInner) :
    Tallies w (cascadeLevels levels shiftAcc w) :=
  cascadeLevels_induction (P := Tallies w) (fun _ _ h => h.trans tallies_cascade) levels shiftAcc
    (.refl w)

theorem tallies_reinsertOverflow : Tallies w w.reinsertOverflow := by
  have hclear : Tallies w { w with overflow := [], overflowMinDeadline := none } := ⟨rfl, fun _ h => h⟩
  exact hclear.trans (tallies_foldl_reinsert _ _)

theorem tallies_expire (acc : List TimerEntry) : Tallies w (expire (acc, w) id).2 := by
  unfold expire
  split
  · rename_i he
    exact ⟨rfl, fun _ h => h.remove he⟩
  · exact .refl w

/-! ## Advancing -/

theorem tallies_foldl_expire (ids : List TimerId) (acc : List TimerEntry) (w : WheelInner) :
    Tallies w (ids.foldl expire (acc, w)).2 := by
  induction ids generalizing acc w with
  | nil => exact .refl w
  | cons id ids ih =>
    rw [List.foldl_cons, ← Prod.eta (expire (acc, w) id)]
    exact (tallies_expire acc).trans (ih _ _)

theorem tallies_walk (target rounds : ℕ) (acc : List TimerEntry) (w : WheelInner) :
    Tallies w (walk target rounds acc w).2 := by
  induction rounds generalizing acc w with
  | zero => exact .refl w
  | succ rounds ih =>
    unfold walk
    split
    · have hclear : Tallies w (w.clearSlot (slotAt 0 w.currentTick)) := ⟨rfl, fun _ h => h⟩
      have hfire := hclear.trans (tallies_foldl_expire (w.levels (slotAt 0 w.currentTick)) acc _)
      have hcursor : ∀ v : WheelInner, Tallies v v.incrementTick := fun v => ⟨rfl, fun _ h => h⟩
      have hround := (hfire.trans (hcursor _)).trans (tallies_cascadeLevels [1, 2, 3] (levelBits 0) _)
      exact hround.trans (ih _ _)
    · exact .refl w

theorem tallies_foldl_drainOne (target : ℕ) (ids : List TimerId) (acc : List TimerEntry)
    (w : WheelInner) : Tallies w (ids.foldl (drainOne target) (acc, w)).2 := by
  induction ids generalizing acc w with
  | nil => exact .refl w
  | cons id ids ih =>
    rw [List.foldl_cons, ← Prod.eta (drainOne target (acc, w) id)]
    refine Tallies.trans ?_ (ih _ _)
    unfold drainOne
    split
    · split
      · exact tallies_expire acc
      · exact tallies_insertIntoWheel _
    · exact .refl w

theorem exceeds_advanceTo (h : w.Exceeds surplus) (now : Instant) :
    (w.advanceTo now).2.Exceeds surplus := by
  simp only [advanceTo]
  split
  · have hjump : Tallies w (w.jumpTo (w.instantToTick now)) := ⟨rfl, fun _ h => h⟩
    exact (hjump.trans (tallies_foldl_drainOne _ _ _ _)).exceeds _ h
  · have hwalk :=
      (tallies_walk (w.instantToTick now) (w.instantToTick now - w.currentTick) [] w).exceeds _ h
    simp only [settle]
    split <;> split
    · exact tallies_reinsertOverflow.exceeds _ hwalk
    · exact hwalk
    · exact tallies_reinsertOverflow.exceeds _ hwalk
    · exact hwalk

/-- An advance drops the cache unless it fires nothing. -/
theorem advanceTo_earliestDeadline (now : Instant) : (w.advanceTo now).2.earliestDeadline = none ∨
    ((w.advanceTo now).1 = [] ∧
      (w.advanceTo now).2.earliestDeadline = w.earliestDeadline) := by
  simp only [advanceTo]
  split
  · exact .inl rfl
  · have hwalk := tallies_walk (w.instantToTick now) (w.instantToTick now - w.currentTick) [] w
    simp only [settle]
    split
    · rename_i hempty
      refine .inr ⟨List.isEmpty_iff.1 hempty, ?_⟩
      split
      · exact tallies_reinsertOverflow.earliest.trans hwalk.earliest
      · exact hwalk.earliest
    · exact .inl rfl

theorem IsEarliest.of_lookup {d : ℕ} (h : w.IsEarliest d) (hlookup : ∀ i, w'.lookup i = w.lookup i) :
    w'.IsEarliest d := by
  constructor
  · simpa only [hlookup] using h.live
  · simpa only [hlookup] using h.le

/-- The cache is about the map and the count only. -/
theorem Cached.of_timers_eq (h : w.Cached) (htimers : w'.timers = w.timers)
    (hcount : w'.timerCount = w.timerCount) (hcache : w'.earliestDeadline = w.earliestDeadline) :
    w'.Cached := by
  refine ⟨?_, fun d hd => (h.earliest d (hcache ▸ hd)).of_lookup fun i => ?_⟩
  · unfold Counted Exceeds
    rw [hcount, htimers]
    exact h.counted
  · rw [lookup, lookup, htimers]

theorem Cached.advanceTo (h : w.Cached) (hk : w.Keyed) (now : Instant) : (w.advanceTo now).2.Cached := by
  refine ⟨exceeds_advanceTo h.counted now, fun d hd => ?_⟩
  rcases advanceTo_earliestDeadline now with hnone | ⟨hempty, hsame⟩
  · cases hnone.symm.trans hd
  · refine (h.earliest d (hsame ▸ hd)).of_lookup fun i => ?_
    rw [(takes_advanceTo hk now).rest i, hempty]
    rfl

/-! ## Inserting and cancelling -/

theorem Cached.insertEntry (h : w.Cached) (hdead : w.lookup e.id = none) : (w.insertEntry e).Cached := by
  have hcount : ((w.add e).insertIntoWheel e.id e.deadlineTick).timerCount = w.timerCount + 1 :=
    insertIntoWheel_timerCount
  have hcache : ((w.add e).insertIntoWheel e.id e.deadlineTick).earliestDeadline = w.earliestDeadline :=
    insertIntoWheel_earliestDeadline
  have hself : (w.insertEntry e).lookup e.id = some e := (insertEntry_lookup e.id).trans (if_pos rfl)
  have hcases : ∀ i f, (w.insertEntry e).lookup i = some f → f = e ∨ w.lookup i = some f := by
    intro i f hf
    rw [insertEntry_lookup] at hf
    split at hf
    · exact .inl (Option.some.inj hf).symm
    · exact .inr hf
  refine ⟨(tallies_insertIntoWheel e.deadlineTick).exceeds 0 (h.counted.add hdead), fun d hd => ?_⟩
  simp only [WheelInner.insertEntry, noteInserted, hcount, hcache] at hd
  split at hd
  · rename_i m hm
    obtain rfl := Option.some.inj hd
    have hearliest := h.earliest m hm
    refine ⟨?_, fun i f hf => ?_⟩
    · rcases Nat.le_total m e.deadlineTick with hle | hle
      · obtain ⟨i, f, hf, rfl⟩ := hearliest.live
        have hne : i ≠ e.id := by
          rintro rfl
          cases hdead.symm.trans hf
        exact ⟨i, f, by rw [insertEntry_lookup, if_neg hne, hf], (Nat.min_eq_left hle).symm⟩
      · exact ⟨e.id, e, hself, (Nat.min_eq_right hle).symm⟩
    · rcases hcases i f hf with rfl | hf
      · exact Nat.min_le_right _ _
      · exact Nat.le_trans (Nat.min_le_left _ _) (hearliest.le i f hf)
  · split at hd
    · -- The timer is the only one.
      rename_i hone
      obtain rfl := Option.some.inj hd
      have hnone := h.counted.eq_zero_iff.1 (Nat.succ.inj hone)
      refine ⟨⟨e.id, e, hself, rfl⟩, fun i f hf => ?_⟩
      rcases hcases i f hf with rfl | hf
      · exact Nat.le_refl _
      · cases (hnone i).symm.trans hf
    · cases hd

theorem Cached.cancel (h : w.Cached) (id : TimerId) : (w.cancel id).2.Cached := by
  unfold WheelInner.cancel
  split
  · rename_i e he
    have hcounted := Exceeds.remove h.counted he
    simp only [noteRemoved]
    split
    · exact ⟨hcounted, nofun⟩
    · rename_i hother
      refine ⟨hcounted, fun d hd => ?_⟩
      have hearliest := h.earliest d hd
      refine ⟨?_, fun i f hf => ?_⟩
      · obtain ⟨i, f, hf, rfl⟩ := hearliest.live
        have hne : i ≠ id := by
          rintro rfl
          cases he.symm.trans hf
          exact hother hd
        exact ⟨i, f, by rw [remove_lookup, if_neg hne, hf], rfl⟩
      · rw [remove_lookup] at hf
        split at hf
        · cases hf
        · exact hearliest.le i f hf
  · split
    · exact h.of_timers_eq rfl rfl rfl
    · exact h

theorem Cached.markInFlight (h : w.Cached) (es : List TimerEntry) : (w.markInFlight es).Cached := by
  rw [markInFlight_eq]
  exact h.of_timers_eq rfl rfl rfl

theorem Cached.rearm (h : w.Cached) (hdead : w.lookup e.id = none) : (w.rearm now e).Cached := by
  have hland : (w.land e.id).Cached := h.of_timers_eq rfl rfl rfl
  rcases rearm_cases now w e with ⟨_, hc⟩ | ⟨_, _, hc⟩ | ⟨_, interval, _, hc⟩ <;> rw [hc]
  · exact h.of_timers_eq rfl rfl rfl
  · exact hland
  · exact hland.insertEntry hdead

theorem Cached.rearmAll {es : List TimerEntry} (h : w.Cached) (hes : (es.map TimerEntry.id).Nodup)
    (hdead : ∀ e ∈ es, w.lookup e.id = none) : (w.rearmAll now es).Cached := by
  induction es generalizing w with
  | nil => exact h
  | cons e es ih =>
    obtain ⟨he, hes⟩ := List.nodup_cons.1 hes
    refine ih (h.rearm (hdead e List.mem_cons_self)) hes fun f hf => ?_
    rw [rearm_lookup_of_ne fun heq => he (heq ▸ List.mem_map_of_mem hf)]
    exact hdead f (List.mem_cons_of_mem _ hf)

/-! ## Reading -/

theorem mem_deadlines {d : ℕ} : d ∈ w.timers.entries.map (fun e => e.2.deadlineTick) ↔
    ∃ id e, w.lookup id = some e ∧ e.deadlineTick = d := by
  simp only [List.mem_map, Sigma.exists, lookup]
  exact exists_congr fun id => exists_congr fun e => and_congr_left fun _ =>
    AList.mem_lookup_iff.symm

theorem isEarliest_of_recompute {d : ℕ} (h : w.recomputeEarliest.1 = some d) : w.IsEarliest d := by
  obtain ⟨hmem, hle⟩ := List.min?_eq_some_iff.1 h
  exact ⟨mem_deadlines.1 hmem, fun id e he => hle _ (mem_deadlines.2 ⟨id, e, he, rfl⟩)⟩

theorem Cached.timeUntilNext (h : w.Cached) (now : Instant) : (w.timeUntilNext now).2.Cached := by
  unfold WheelInner.timeUntilNext
  split
  · exact h
  · cases hcache : w.earliestDeadline with
    | some d => exact h
    | none => exact ⟨h.counted, fun d hd => (isEarliest_of_recompute hd).of_lookup fun _ => rfl⟩

theorem IsEarliest.unique {d d' : ℕ} (h : w.IsEarliest d) (h' : w.IsEarliest d') : d = d' := by
  obtain ⟨i, f, hf, rfl⟩ := h.live
  obtain ⟨j, g, hg, rfl⟩ := h'.live
  exact Nat.le_antisymm (h.le j g hg) (h'.le i f hf)

/-- `recompute_earliest` finds the least deadline as soon as there is a live timer. -/
theorem recompute_of_lookup (he : w.lookup id = some e) :
    ∃ d, w.recomputeEarliest.1 = some d ∧ w.IsEarliest d := by
  cases hmin : w.recomputeEarliest.1 with
  | none =>
    have hmem := mem_deadlines.2 ⟨id, e, he, rfl⟩
    rw [List.min?_eq_none_iff.1 hmin] at hmem
    cases hmem
  | some d => exact ⟨d, rfl, isEarliest_of_recompute hmin⟩

/-- `time_until_next` is the time until the earliest deadline, as a full scan finds it. -/
theorem Cached.timeUntilNext_eq {d : ℕ} (h : w.Cached) (hd : w.IsEarliest d) (now : Instant) :
    (w.timeUntilNext now).1 = some (fromMillis (d - w.instantToTick now)) := by
  have hspec : ∀ m, w.IsEarliest m →
      (if m ≤ w.instantToTick now then 0 else fromMillis (m - w.instantToTick now)) =
        fromMillis (d - w.instantToTick now) := by
    intro m hm
    obtain rfl := hm.unique hd
    split
    · rename_i hdue
      rw [Nat.sub_eq_zero_of_le hdue, fromMillis, Nat.zero_mul]
    · rfl
  obtain ⟨id, e, he, -⟩ := hd.live
  have hpos : w.timerCount ≠ 0 := by
    intro hzero
    cases (h.counted.eq_zero_iff.1 hzero id).symm.trans he
  unfold WheelInner.timeUntilNext
  rw [if_neg hpos]
  cases hcache : w.earliestDeadline with
  | some m => exact congrArg some (hspec m (h.earliest m hcache))
  | none =>
    obtain ⟨m, hm, hearliest⟩ := recompute_of_lookup he
    simp only [hm, Option.map_some, Option.some_inj]
    exact hspec m hearliest

theorem Cached.timeUntilNext_eq_none_iff (h : w.Cached) (now : Instant) :
    (w.timeUntilNext now).1 = none ↔ ∀ id, w.lookup id = none := by
  constructor
  · intro hnone id
    cases he : w.lookup id with
    | none => rfl
    | some e =>
      obtain ⟨d, -, hd⟩ := recompute_of_lookup he
      cases hnone.symm.trans (h.timeUntilNext_eq hd now)
  · intro hall
    unfold WheelInner.timeUntilNext
    rw [if_pos (h.counted.eq_zero_iff.2 hall)]

/-- `time_until_next` is not longer than the time until any live timer is due. -/
theorem Cached.timeUntilNext_le (h : w.Cached) (he : w.lookup id = some e) (now : Instant) :
    ∃ d, (w.timeUntilNext now).1 = some d ∧
      d ≤ fromMillis (e.deadlineTick - w.instantToTick now) := by
  obtain ⟨m, -, hm⟩ := recompute_of_lookup he
  refine ⟨_, h.timeUntilNext_eq hm now, ?_⟩
  exact Nat.mul_le_mul_right _ (Nat.sub_le_sub_right (hm.le id e he) _)

end Earliest

end WheelInner

/-! ## Calls -/

open WheelInner Interleaving

section Calls

variable {s s' : Shared} {t t' : Call} {l l' : List Call}

/-- Every critical section of a call keeps the cache. -/
theorem Cached.act (h : s.inner.Cached) (ho : Owned ⟨s, l ++ t :: l'⟩) (hacts : Acts s t s' t') :
    s'.inner.Cached := by
  cases hacts with
  | schedule id request =>
    have hdead := (ho.held (mem_held_of_unmarked (List.mem_singleton_self id))).2.2
    obtain ⟨kind, heq, _⟩ := schedule_eq s.inner id request s.clock
    rw [heq]
    exact h.insertEntry hdead
  | advance now => exact h.advanceTo ho.keyed now
  | mark expired => exact h.markInFlight expired
  | rearm toReschedule =>
    exact h.rearmAll ho.nodup_rearm fun e he => (ho.held (mem_held_of_marked he)).2.2
  | noneDue => exact h
  | start => exact h
  | callbackReturns => exact h
  | callbackPanics => exact h

theorem Cached.enter (h : s.inner.Cached) (e : Invocation) : (enterSerial s e).1.inner.Cached := by
  cases e with
  | cancel id => exact h.cancel id
  | timeUntilNext => exact h.timeUntilNext s.clock
  | schedule => exact h
  | tick => exact h
  | elapse => exact h

theorem cached_new (start : Instant) : (WheelInner.new start).Cached where
  counted := rfl
  earliest := nofun

theorem cached_of_run {ok : State → Step → Prop} {start : Instant} {as : List Step} {s : State}
    (h : Run serial.step ok (initial start) as s) : s.shared.inner.Cached := by
  refine h.invariant_of (I := fun s => s.shared.inner.Cached) (J := Owned)
    (fun _ _ ht => owned_of_run ht) (cached_new start) ?_
  intro x a y hx hcached _ hs
  obtain ⟨x, ts⟩ := x
  rcases serial_step_cases hs with ⟨e, rfl, rfl⟩ | ⟨o, s', t, t', l, l', rfl, hts, hacts, rfl⟩
  · exact Cached.enter hcached e
  · obtain rfl : ts = l ++ t :: l' := hts
    exact Cached.act hcached hx hacts

/-- In every reachable state the cache, when it is set, is the least deadline of the live
    timers, of which there is one; and `time_until_next` is what a full scan would return. -/
theorem earliest_coherent {start : Instant} {as : List Step} {s : State}
    (h : Run system.step Unrestricted (initial start) as s) (hids : s.shared.nextId ≤ 2 ^ 64) :
    (∀ d, s.shared.inner.earliestDeadline = some d → s.shared.inner.IsEarliest d) ∧
    ∀ now, ((s.shared.inner.timeUntilNext now).1 = none ↔ ∀ id, s.shared.inner.lookup id = none) ∧
      ∀ d, s.shared.inner.IsEarliest d → (s.shared.inner.timeUntilNext now).1 =
        some (fromMillis (d - s.shared.inner.instantToTick now)) := by
  have hcached := cached_of_run (serial_of_run h hids)
  exact ⟨hcached.earliest, fun now => ⟨hcached.timeUntilNext_eq_none_iff now,
    fun d hd => hcached.timeUntilNext_eq hd now⟩⟩

/-- A timer of nine milliseconds, and then one of five. -/
theorem earliest_coherent_two_timers : ∃ s, Run system.step Unrestricted (initial 0)
      [.env (.schedule (.once 9000000)), .act 0 .returns, .env (.schedule (.once 5000000)),
        .act 1 .returns] s ∧
    s.shared.inner.IsEarliest 5 ∧ (s.shared.inner.timeUntilNext 2000000).1 = some 3000000 := by
  obtain ⟨s, hrun, hids, hcache, hstart⟩ : ∃ s, Run system.step Unrestricted (initial 0)
        [.env (.schedule (.once 9000000)), .act 0 .returns, .env (.schedule (.once 5000000)),
          .act 1 .returns] s ∧ s.shared.nextId ≤ 2 ^ 64 ∧
      s.shared.inner.earliestDeadline = some 5 ∧ s.shared.inner.startTime = 0 :=
    Run.exists_of_exec (by decide +kernel)
  obtain ⟨hearliest, hscan⟩ := earliest_coherent hrun hids
  refine ⟨s, hrun, hearliest 5 hcache, ((hscan 2000000).2 5 (hearliest 5 hcache)).trans ?_⟩
  rw [instantToTick, hstart]
  rfl

/-- A timer due at 50 ms is live when its id is drawn again, by one due at 100 ms, which takes its
    place in the map. When that one is cancelled the cache still has the deadline of the first. -/
theorem stale_cache_of_wraparound : ∃ as s, Run system.step Unrestricted (initial 0) as s ∧
    s.shared.inner.earliestDeadline = some 50 ∧ s.shared.inner.timers.keys = [] ∧
    (s.shared.inner.timeUntilNext 0).1 = some (fromMillis 50) := by
  obtain ⟨s, hrun, v, hv, hcache, hdead, hnext⟩ : ∃ s, Run system.step Unrestricted (initial 0)
        [.env (.schedule (.once (fromMillis 50))), .act 0 .returns] s ∧
      ∃ v ∈ exec system.step Unrestricted
          ⟨{ s.shared with nextId := s.shared.nextId + (2 ^ 64 - 1) }, []⟩
          [.env (.schedule (.once (fromMillis 100))), .act 0 .returns, .env (.cancel 1)],
        v.shared.inner.earliestDeadline = some 50 ∧ v.shared.inner.timers.keys = [] ∧
        (v.shared.inner.timeUntilNext 0).1 = some (fromMillis 50) :=
    Run.exists_of_exec (by decide +kernel)
  obtain ⟨pre, -, hafter⟩ := exists_run_after_draws unhindered_unrestricted hrun (2 ^ 64 - 1)
  obtain ⟨as, has⟩ := hafter _ v (Run.of_exec hv)
  exact ⟨as, _, has, hcache, hdead, hnext⟩

end Calls

end TimerWheel
