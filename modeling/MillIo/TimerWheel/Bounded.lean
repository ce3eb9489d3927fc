-- SUMMARY: What the cached deadline is worth when ids come round: it is never above a live deadline, so a wait for it is never too long.
import MillIo.TimerWheel.Earliest

/-!
# The cached deadline as a lower bound

When the id of a live timer is drawn again its entry is replaced: the count is then above
the number of live timers, and the cache may come from a timer that is gone. Both errors
are on one side, so `time_until_next` may be too short and is never too long.
-/
namespace TimerWheel

namespace WheelInner

/-- No live timer is left uncounted, and none is due before the cached deadline. -/
structure Bounded (w : WheelInner) : Prop where
  keyed : w.Keyed
  counted : ∃ surplus, w.Exceeds surplus
  le : ∀ d, w.earliestDeadline = some d → ∀ id e, w.lookup id = some e → d ≤ e.deadlineTick

section Bounded

variable {w w' : WheelInner} {id : TimerId} {e : TimerEntry} {now : Instant}

theorem bounded_new (start : Instant) : (new start).Bounded where
  keyed i e he := by cases he
  counted := ⟨0, rfl⟩
  le := nofun

theorem Bounded.of_timers_eq (h : w.Bounded) (htimers : w'.timers = w.timers)
    (hcount : w'.timerCount = w.timerCount) (hcache : w'.earliestDeadline = w.earliestDeadline) :
    w'.Bounded := by
  have hlookup : ∀ i, w'.lookup i = w.lookup i := fun i => by rw [lookup, lookup, htimers]
  obtain ⟨surplus, hsurplus⟩ := h.counted
  refine ⟨fun i e he => h.keyed i e (hlookup i ▸ he), ⟨surplus, ?_⟩, fun d hd i e he => ?_⟩
  · unfold Exceeds
    rw [hcount, htimers]
    exact hsurplus
  · exact h.le d (hcache ▸ hd) i e (hlookup i ▸ he)

/-- A new entry is counted, whether it replaces one or not. -/
theorem Exceeds.add {surplus : ℕ} (h : w.Exceeds surplus) :
    ∃ surplus', (w.add e).Exceeds surplus' := by
  by_cases hmem : e.id ∈ w.timers.keys
  · refine ⟨surplus + 1, ?_⟩
    have hpos := List.length_pos_of_mem hmem
    show w.timerCount + 1 = (w.timers.insert e.id e).keys.length + (surplus + 1)
    rw [AList.keys_insert, List.length_cons, List.length_erase_of_mem hmem, h]
    omega
  · refine ⟨surplus, ?_⟩
    show w.timerCount + 1 = (w.timers.insert e.id e).keys.length + surplus
    rw [AList.keys_insert, List.length_cons, List.erase_of_not_mem hmem, h]
    omega

theorem Bounded.insertEntry (h : w.Bounded) : (w.insertEntry e).Bounded := by
  obtain ⟨surplus, hsurplus⟩ := h.counted
  obtain ⟨surplus', hadded⟩ := hsurplus.add (e := e)
  have hcount : ((w.add e).insertIntoWheel e.id e.deadlineTick).timerCount = w.timerCount + 1 :=
    insertIntoWheel_timerCount
  have hcache : ((w.add e).insertIntoWheel e.id e.deadlineTick).earliestDeadline = w.earliestDeadline :=
    insertIntoWheel_earliestDeadline
  refine ⟨insertEntry_keyed h.keyed,
    ⟨surplus', (tallies_insertIntoWheel e.deadlineTick).exceeds _ hadded⟩, fun d hd i f hf => ?_⟩
  rw [insertEntry_lookup] at hf
  simp only [WheelInner.insertEntry, noteInserted, hcount, hcache] at hd
  split at hd
  · rename_i m hm
    obtain rfl := Option.some.inj hd
    split at hf
    · cases hf
      exact Nat.min_le_right _ _
    · exact Nat.le_trans (Nat.min_le_left _ _) (h.le m hm i f hf)
  · split at hd
    · -- Nothing was counted before, so the timer is the only one.
      rename_i hone
      obtain rfl := Option.some.inj hd
      split at hf
      · cases hf
        exact Nat.le_refl _
      · cases (hsurplus.lookup_eq_none (Nat.succ.inj hone) i).symm.trans hf
    · cases hd

theorem Bounded.cancel (h : w.Bounded) (id : TimerId) : (w.cancel id).2.Bounded := by
  have hremoved : ∀ {i f}, (w.remove id).lookup i = some f → w.lookup i = some f := by
    intro i f hf
    rw [remove_lookup] at hf
    split at hf
    · cases hf
    · exact hf
  unfold WheelInner.cancel
  split
  · rename_i e he
    obtain ⟨surplus, hsurplus⟩ := h.counted
    have hcounted := hsurplus.remove he
    simp only [noteRemoved]
    split
    · exact ⟨fun i f hf => h.keyed i f (hremoved hf), ⟨surplus, hcounted⟩,
        fun d hd => by cases hd⟩
    · exact ⟨fun i f hf => h.keyed i f (hremoved hf), ⟨surplus, hcounted⟩,
        fun d hd i f hf => h.le d hd i f (hremoved hf)⟩
  · split
    · exact h.of_timers_eq rfl rfl rfl
    · exact h

theorem Bounded.advanceTo (h : w.Bounded) (now : Instant) : (w.advanceTo now).2.Bounded := by
  obtain ⟨surplus, hsurplus⟩ := h.counted
  have htakes := takes_advanceTo h.keyed now
  refine ⟨htakes.keyed h.keyed, ⟨surplus, exceeds_advanceTo hsurplus now⟩, fun d hd i f hf => ?_⟩
  rcases advanceTo_earliestDeadline now with hnone | ⟨-, hsame⟩
  · cases hnone.symm.trans hd
  · rw [htakes.rest i] at hf
    split at hf
    · cases hf
    · exact h.le d (hsame ▸ hd) i f hf

theorem Bounded.markInFlight (h : w.Bounded) (es : List TimerEntry) :
    (w.markInFlight es).Bounded := by
  rw [markInFlight_eq]
  exact h.of_timers_eq rfl rfl rfl

theorem Bounded.rearm (h : w.Bounded) : (w.rearm now e).Bounded := by
  have hland : (w.land e.id).Bounded := h.of_timers_eq rfl rfl rfl
  rcases rearm_cases now w e with ⟨_, hc⟩ | ⟨_, _, hc⟩ | ⟨_, interval, _, hc⟩ <;> rw [hc]
  · exact h.of_timers_eq rfl rfl rfl
  · exact hland
  · exact hland.insertEntry

theorem Bounded.rearmAll {es : List TimerEntry} (h : w.Bounded) : (w.rearmAll now es).Bounded := by
  induction es generalizing w with
  | nil => exact h
  | cons e es ih => exact ih h.rearm

theorem Bounded.timeUntilNext (h : w.Bounded) (now : Instant) :
    (w.timeUntilNext now).2.Bounded := by
  unfold WheelInner.timeUntilNext
  split
  · exact h
  · cases hcache : w.earliestDeadline with
    | some d => exact h
    | none => exact ⟨h.keyed, h.counted, fun d hd => (isEarliest_of_recompute hd).le⟩

/-- `time_until_next` is not longer than the time until any live timer is due. -/
theorem Bounded.timeUntilNext_le (h : w.Bounded) (he : w.lookup id = some e) (now : Instant) :
    ∃ d, (w.timeUntilNext now).1 = some d ∧
      d ≤ fromMillis (e.deadlineTick - w.instantToTick now) := by
  have hwait : ∀ m ≤ e.deadlineTick,
      (if m ≤ w.instantToTick now then 0 else fromMillis (m - w.instantToTick now)) ≤
        fromMillis (e.deadlineTick - w.instantToTick now) := by
    intro m hm
    split
    · exact Nat.zero_le _
    · exact Nat.mul_le_mul_right _ (Nat.sub_le_sub_right hm _)
  have hpos : w.timerCount ≠ 0 := by
    obtain ⟨surplus, hsurplus⟩ := h.counted
    intro hzero
    cases (hsurplus.lookup_eq_none hzero id).symm.trans he
  unfold WheelInner.timeUntilNext
  rw [if_neg hpos]
  cases hcache : w.earliestDeadline with
  | some m => exact ⟨_, rfl, hwait m (h.le m hcache id e he)⟩
  | none =>
    obtain ⟨m, hm, hearliest⟩ := recompute_of_lookup he
    simp only [hm, Option.map_some]
    exact ⟨_, rfl, hwait m (hearliest.le id e he)⟩

end Bounded

end WheelInner

/-! ## Calls -/

open WheelInner

variable {s s' : Shared} {t t' : Call}

theorem Bounded.act (h : s.inner.Bounded) (hacts : Acts s t s' t') : s'.inner.Bounded := by
  cases hacts with
  | schedule id request =>
    obtain ⟨kind, heq, -⟩ := schedule_eq s.inner id request s.clock
    rw [heq]
    exact h.insertEntry
  | advance now => exact h.advanceTo now
  | mark expired => exact h.markInFlight expired
  | rearm toReschedule => exact h.rearmAll
  | noneDue | start | callbackReturns | callbackPanics => exact h

theorem Bounded.enter (h : s.inner.Bounded) (i : Invocation) : (enter s i).1.inner.Bounded := by
  cases i with
  | cancel id => exact h.cancel id
  | timeUntilNext => exact h.timeUntilNext s.clock
  | schedule | tick | elapse => exact h

end TimerWheel
