-- SUMMARY: What `time_until_next` counts as due after an advance to the same tick, and when that is nothing.
import MillIo.TimerWheel.Aim
import MillIo.TimerWheel.Earliest

/-!
# Due timers

`time_until_next` and the large jump count a deadline that equals the tick as due;
the walk stops before it. The reactor polls with a timeout of zero for as long as a
timer is due and not fired.
-/
namespace TimerWheel

open Interleaving

namespace WheelInner

/-- The advance is a jump; or no live timer has the target as its deadline, and the walk
    passes the slots of all that are behind the cursor. -/
def Clears (w : WheelInner) (now : Instant) : Prop :=
  w.Jumps now ∨ ∀ id e, w.lookup id = some e → e.deadlineTick ≤ w.instantToTick now →
    if w.currentTick ≤ e.deadlineTick then e.deadlineTick ≠ w.instantToTick now
    else Meets w.currentTick (w.instantToTick now) e.deadlineTick

/-- All live timers that are due are in the batch. -/
def FiresAllDue (w : WheelInner) (now : Instant) : Prop :=
  ∀ id e, w.lookup id = some e → e.deadlineTick ≤ w.instantToTick now → e ∈ (w.advanceTo now).1

section Due

variable {w w' : WheelInner} {es : List TimerEntry} {now : Instant} {id : TimerId} {e : TimerEntry}

/-- There is no time left exactly when a live timer is due. -/
theorem Cached.timeUntilNext_ne_zero_iff (h : w.Cached) (now : Instant) :
    (w.timeUntilNext now).1 ≠ some 0 ↔
      ∀ id e, w.lookup id = some e → w.instantToTick now < e.deadlineTick := by
  constructor
  · intro hzero id e he
    obtain ⟨d, -, hd⟩ := recompute_of_lookup he
    apply Nat.lt_of_lt_of_le _ (hd.le id e he)
    by_contra hdue
    apply hzero
    rw [h.timeUntilNext_eq hd, Nat.sub_eq_zero_of_le (Nat.le_of_not_lt hdue), fromMillis,
      Nat.zero_mul]
  · intro hlate hzero
    have hlive : ¬ ∀ id, w.lookup id = none := by
      intro hnone
      cases ((h.timeUntilNext_eq_none_iff now).2 hnone).symm.trans hzero
    obtain ⟨id, hid⟩ := not_forall.1 hlive
    obtain ⟨e, he⟩ := Option.ne_none_iff_exists'.1 hid
    obtain ⟨d, -, hd⟩ := recompute_of_lookup he
    rw [h.timeUntilNext_eq hd] at hzero
    obtain ⟨i, f, hf, rfl⟩ := hd.live
    have hlt := hlate i f hf
    have hcut : (f.deadlineTick - w.instantToTick now) * 1000000 = 0 := Option.some.inj hzero
    omega

/-- The entries that a batch takes are those whose timers are no longer live. -/
theorem Takes.mem_iff (h : w.Takes es w') (hk : w.Keyed) (he : w.lookup id = some e) :
    e ∈ es ↔ w'.lookup id = none := by
  obtain rfl : e.id = id := hk id e he
  rw [h.rest]
  constructor
  · intro hmem
    exact if_pos (List.mem_map_of_mem hmem)
  · intro hgone
    split at hgone
    · rename_i hmem
      obtain ⟨f, hf, heq⟩ := List.mem_map.1 hmem
      have hlive := h.live f hf
      rw [heq, he] at hlive
      exact Option.some.inj hlive ▸ hf
    · cases he.symm.trans hgone

theorem firesAllDue_iff (haim : w.OnAim) (hlined : w.Lined) (hk : w.Keyed) :
    w.FiresAllDue now ↔ ∀ id e, w.lookup id = some e → e.deadlineTick ≤ w.instantToTick now →
      w.Reaches now e.deadlineTick := by
  refine forall_congr' fun id => forall_congr' fun e => forall_congr' fun he => imp_congr_right ?_
  intro _
  rw [(takes_advanceTo hk now).mem_iff hk he]
  exact (haim.advanceTo hlined).2 id e he

theorem clears_iff : w.Clears now ↔ ∀ id e, w.lookup id = some e →
    e.deadlineTick ≤ w.instantToTick now → w.Reaches now e.deadlineTick := by
  unfold Clears Reaches
  by_cases hjump : w.Jumps now
  · simp only [hjump, if_true, true_or, true_iff]
    exact fun _ _ _ hdue => hdue
  · simp only [hjump, if_false, false_or]
    refine forall_congr' fun id => forall_congr' fun e => forall_congr' fun he =>
      imp_congr_right fun hdue => ?_
    split
    · -- The walk comes to all deadlines ahead of the cursor but the target itself.
      rename_i hahead
      rw [meets_iff_of_le hahead]
      exact ⟨Nat.lt_of_le_of_ne hdue, Nat.ne_of_lt⟩
    · exact Iff.rfl

/-- What is not fired stays live with its deadline. -/
theorem timeUntilNext_advanceTo_iff (hcached : w.Cached) (hk : w.Keyed) {now' : Instant}
    (hnow : w.instantToTick now' = w.instantToTick now) :
    ((w.advanceTo now).2.timeUntilNext now').1 ≠ some 0 ↔ w.FiresAllDue now := by
  have htakes := takes_advanceTo hk now
  rw [(hcached.advanceTo hk now).timeUntilNext_ne_zero_iff, instantToTick_eq htakes.startTime, hnow]
  constructor
  · intro hlate id e he hdue
    apply (htakes.mem_iff hk he).2
    cases he' : (w.advanceTo now).2.lookup id with
    | none => rfl
    | some f =>
      have hsame := he.symm.trans (htakes.lookup_of_some he').2
      cases Option.some.inj hsame
      exact absurd (hlate id e he') (Nat.not_lt_of_le hdue)
  · intro hall id e he'
    have he := (htakes.lookup_of_some he').2
    apply Nat.lt_of_not_le
    intro hdue
    cases ((htakes.mem_iff hk he).1 (hall id e he hdue)).symm.trans he'

end Due

end WheelInner

open WheelInner

/-- In every reachable state, after an advance there is time left at the same tick, and
    all timers due were fired, exactly when the advance clears what is due. -/
theorem due_fired_iff {start : Instant} {as : List Step} {s : State}
    (h : Run system.step Unrestricted (initial start) as s) (hids : s.shared.nextId ≤ 2 ^ 64)
    {now now' : Instant}
    (hnow : s.shared.inner.instantToTick now' = s.shared.inner.instantToTick now) :
    (((s.shared.inner.advanceTo now).2.timeUntilNext now').1 ≠ some 0 ∧
      s.shared.inner.FiresAllDue now) ↔ s.shared.inner.Clears now := by
  have h := serial_of_run h hids
  have hk := (owned_of_run h).keyed
  rw [timeUntilNext_advanceTo_iff (cached_of_run h) hk hnow, and_self, clears_iff]
  exact firesAllDue_iff (onAim_of_run h) (inLine_of_run h).lined hk

/-- A timer of five milliseconds, and an advance by one tick more than the range. -/
theorem due_fired_jump : ∃ s, Run system.step Unrestricted (initial 0)
      [.env (.schedule (.once 5000000)), .act 0 .returns] s ∧
    ((s.shared.inner.advanceTo 67108865000000).2.timeUntilNext 67108865000000).1 ≠ some 0 := by
  obtain ⟨s, hrun, hids, hjump⟩ : ∃ s, Run system.step Unrestricted (initial 0)
        [.env (.schedule (.once 5000000)), .act 0 .returns] s ∧ s.shared.nextId ≤ 2 ^ 64 ∧
      s.shared.inner.Jumps 67108865000000 := Run.exists_of_exec (by decide +kernel)
  exact ⟨s, hrun, ((due_fired_iff hrun hids rfl).2 (.inl hjump)).1⟩

/-- A timer of five milliseconds is not fired by an advance to tick 5, and due there. -/
theorem due_timer_waits : ∃ s, Run system.step Unrestricted (initial 0)
      [.env (.schedule (.once 5000000)), .act 0 .returns, .env (.elapse 5000000)] s ∧
    (s.shared.inner.advanceTo 5000000).1 = [] ∧
    ((s.shared.inner.advanceTo 5000000).2.timeUntilNext 5000000).1 = some 0 :=
  Run.exists_of_exec (by decide +kernel)

end TimerWheel
