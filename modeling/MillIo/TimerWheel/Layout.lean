-- SUMMARY: The layout of the wheel between two operations: how often each id occurs in it, and how far ahead of the cursor the deadlines in each place are.
import MillIo.TimerWheel.Ledger
import MillIo.TimerWheel.Wraparound

/-!
# The layout of the wheel

Every operation keeps the placement of timers, whatever ids of cancelled timers are still
in the wheel. A schedule and a re-arming keep it as long as the deadlines they compute come
from a clock reading that is not behind the cursor, and fit into `u64`.
-/
namespace TimerWheel

open Interleaving SlotRing

namespace WheelInner

/-- The layout in the numbers of the code. -/
structure WellPlaced (w : WheelInner) : Prop where
  counted : w.timerCount = w.timers.entries.length
  once : ∀ id e, w.lookup id = some e → w.allIds.count id = 1
  distinct : w.allIds.Nodup
  finest : ∀ i id e, id ∈ w.levels ⟨0, i⟩ → w.lookup id = some e →
    w.currentTick ≤ e.deadlineTick ∧ e.deadlineTick - w.currentTick < 256 ∧
      i.val = e.deadlineTick % 256
  coarser : ∀ level i id e, level ≠ 0 → id ∈ w.levels ⟨level, i⟩ → w.lookup id = some e →
    i.val = (e.deadlineTick >>> shifts level) % 64 ∧
      w.currentTick >>> shifts level + 1 ≤ e.deadlineTick >>> shifts level ∧
      e.deadlineTick >>> shifts level ≤ w.currentTick >>> shifts level + 64
  distant : ∀ id e, id ∈ w.overflow → w.lookup id = some e →
    w.currentTick + 2 ^ 26 ≤ e.deadlineTick
  overflow_none : w.overflowMinDeadline = none ↔ w.overflow = []
  overflow_le : ∀ m, w.overflowMinDeadline = some m → ∀ id e, id ∈ w.overflow →
    w.lookup id = some e → m ≤ e.deadlineTick

/-- The clock reading is not behind the cursor, and the delay can be added to it. -/
def Dates (w : WheelInner) (now : Instant) (delay : Duration) : Prop :=
  w.currentTick ≤ w.instantToTick now ∧ w.DelayFits now delay

instance (w : WheelInner) (now : Instant) (delay : Duration) : Decidable (w.Dates now delay) :=
  inferInstanceAs (Decidable (_ ∧ _))

section Layout

variable {w : WheelInner} {now : Instant} {delay : Duration} {id : TimerId} {e : TimerEntry}

theorem Dates.le_deadlineFor (h : w.Dates now delay) : w.currentTick ≤ w.deadlineFor now delay :=
  Nat.le_trans h.1 (WheelInner.le_deadlineFor h.2)

/-- The slot of a level in which a deadline is found. -/
theorem slot_val {level : Fin numLevels} {i : Fin (levelSize level)} {d n : ℕ}
    (hsize : levelSize level = n) (h : (⟨level, i⟩ : Slot) = slotAt level d) :
    i.val = d / ticksPerSlot level % n := by
  subst hsize
  have hval := slotAt_val level d
  rwa [← h] at hval

theorem Ok.finest (h : w.Ok) {i : Fin (levelSize 0)} (hid : id ∈ w.levels ⟨0, i⟩)
    (he : w.lookup id = some e) :
    w.currentTick ≤ e.deadlineTick ∧ e.deadlineTick - w.currentTick < 256 ∧
      i.val = e.deadlineTick % 256 := by
  obtain ⟨hslot, hring⟩ := h.fits (.slot ⟨0, i⟩) id e hid he
  have hunit : ticksPerSlot 0 = 1 := rfl
  have hsize : levelSize 0 = 256 := rfl
  have hout : (0 : Fin numLevels) ∉ higherLevels := by decide
  have hval := slot_val hsize hslot
  rw [if_neg hout, hunit, hsize] at hring
  rw [hunit, Nat.div_one] at hval
  unfold Nearing at hring
  simp only [Nat.mod_one, if_true, Nat.div_one] at hring
  exact ⟨hring.1, by omega, hval⟩

theorem Ok.coarser (h : w.Ok) {level : Fin numLevels} {i : Fin (levelSize level)}
    (hlevel : level ≠ 0) (hid : id ∈ w.levels ⟨level, i⟩) (he : w.lookup id = some e) :
    i.val = (e.deadlineTick >>> shifts level) % 64 ∧
      w.currentTick >>> shifts level + 1 ≤ e.deadlineTick >>> shifts level ∧
      e.deadlineTick >>> shifts level ≤ w.currentTick >>> shifts level + 64 := by
  obtain ⟨hslot, hring⟩ := h.fits (.slot ⟨level, i⟩) id e hid he
  have hhigher : ∀ k : Fin numLevels, k ≠ 0 → k ∈ higherLevels ∧ levelSize k = 64 := by decide
  obtain ⟨hvisited, hsize⟩ := hhigher level hlevel
  rw [if_pos hvisited, hsize] at hring
  simp only [Nat.shiftRight_eq_div_pow]
  exact ⟨slot_val hsize hslot, hring⟩

/-- The invariant of the operations is the layout. -/
theorem Ok.wellPlaced (h : w.Ok) : w.WellPlaced where
  counted := h.counted.trans (List.length_map _)
  once id e he := by
    refine List.count_eq_one_of_mem (Placed.nodup_allIds h) (mem_allIds.2 ?_)
    exact (h.placed id e he).resolve_left (by simp)
  distinct := Placed.nodup_allIds h
  finest _ _ _ hid he := h.finest hid he
  coarser _ _ _ _ hlevel hid he := h.coarser hlevel hid he
  distant id e hid he := h.fits .overflow id e hid he
  overflow_none := h.overflow_none
  overflow_le m hm id e hid he := h.overflow_le m hm id hid e he

end Layout

end WheelInner

/-! ## Runs -/

/-- The deadlines that the next step of a call computes are computed in time. A timer that
    was cancelled in flight gets none. -/
def Call.OnTime (s : Shared) : Call → Prop
  | scheduling _ request => s.inner.Dates s.clock request.delay
  | firing [] toReschedule =>
    ∀ e ∈ toReschedule, e.id ∉ s.inner.canceledInFlight → s.inner.Dates s.clock e.kind.delay
  | _ => True

instance (s : Shared) : DecidablePred (Call.OnTime s)
  | .scheduling _ _ => inferInstanceAs (Decidable (WheelInner.Dates _ _ _))
  | .firing [] _ => inferInstanceAs (Decidable (∀ e ∈ _, _ → WheelInner.Dates _ _ _))
  | .firing (_ :: _) _ => .isTrue trivial
  | .ticking _ => .isTrue trivial
  | .advanced _ => .isTrue trivial
  | .running _ _ _ => .isTrue trivial
  | .done => .isTrue trivial

/-- Every deadline that the step computes is computed in time. -/
def OnTime : State → Step → Prop := Machine.ThreadSteps fun s t _ => t.OnTime s.shared

instance : DecidableRel OnTime :=
  inferInstanceAs (DecidableRel (Machine.ThreadSteps fun (s : State) (t : Call) _ =>
    t.OnTime s.shared))

section Layout

variable {s s' : Shared} {t t' : Call} {l l' : List Call}

theorem ok_act (h : s.inner.Ok) (hline : InLine ⟨s, l ++ t :: l'⟩) (ho : Owned ⟨s, l ++ t :: l'⟩)
    (hontime : t.OnTime s) (hacts : Acts s t s' t') : s'.inner.Ok := by
  have hfree : ∀ id ∈ t.held, ¬ s.inner.Holds id := fun id hid =>
    WheelInner.not_holds_of_queued ((Machine.forall_threads_at.1 hline.held).1 id hid)
  have hdead : ∀ id ∈ t.held, s.inner.lookup id = none := fun id hid => (ho.held hid).2.2
  cases hacts with
  | schedule id request =>
    have hid : id ∈ (Call.scheduling id request).held := mem_held_of_unmarked List.mem_cons_self
    obtain ⟨kind, heq, -⟩ := schedule_eq s.inner id request s.clock
    simp only [heq]
    exact h.insertEntry (hdead id hid) (hfree id hid) hontime.le_deadlineFor
  | advance now => exact (h.advanceTo now).1
  | mark expired => exact h.markInFlight expired
  | rearm toReschedule =>
    refine h.rearmAll ho.nodup_rearm (fun e he => ?_) (fun e he => ?_) fun e he hid => ?_
    · exact hdead e.id (mem_held_of_marked he)
    · exact hfree e.id (mem_held_of_marked he)
    · exact (hontime e he hid).le_deadlineFor
  | noneDue => exact h
  | start => exact h
  | callbackReturns => exact h
  | callbackPanics => exact h

theorem ok_enter (h : s.inner.Ok) (e : Invocation) : (enterSerial s e).1.inner.Ok := by
  cases e with
  | cancel id => exact h.cancel id
  | timeUntilNext => exact h.timeUntilNext s.clock
  | schedule => exact h
  | tick => exact h
  | elapse => exact h

theorem ok_of_run {start : Instant} {as : List Step} {s : State}
    (h : Run serial.step OnTime (initial start) as s) : s.shared.inner.Ok := by
  refine Machine.invariant_of_run (I := fun s => s.shared.inner.Ok)
    (J := fun s => Owned s ∧ InLine s) h (fun _ _ hr => ⟨owned_of_run hr, inLine_of_run hr⟩)
    (WheelInner.ok_new start) ?_ ?_
  · intro x ts e y ts' _ hok _ he
    obtain ⟨rfl, rfl⟩ := Prod.mk.inj (Option.some.inj he)
    exact ok_enter hok e
  · intro x l l' t c y t' hJ hok hontime hr
    exact ok_act hok hJ.2 hJ.1 (Machine.threadSteps_at.1 hontime) (acts_of_proceed hr)

/-- In every run whose deadlines are computed in time, the layout holds in every state. -/
theorem well_placed_of_run {start : Instant} {as : List Step} {s : State}
    (h : Run system.step OnTime (initial start) as s) (hids : s.shared.nextId ≤ 2 ^ 64) :
    s.shared.inner.WellPlaced :=
  (ok_of_run (serial_of_run h hids)).wellPlaced

/-- A timer for a day, one that is cancelled and one that is run and re-armed. -/
def daily : List Step :=
  [.env (.schedule (.once 86400000000000)), .act 0 .returns,
    .env (.schedule (.once 300000000)), .act 1 .returns, .env (.cancel 2),
    .env (.schedule (.repeating 1000000)), .act 2 .returns, .env (.elapse 2000000), .env .tick,
    .act 3 .returns, .act 3 .returns, .act 3 .returns, .act 3 .returns, .act 3 .returns]

theorem well_placed_daily : ∃ s, Run system.step OnTime (initial 0) daily s ∧
    s.shared.inner.overflow = [1] ∧ s.shared.inner.timerCount = 2 ∧ s.shared.inner.WellPlaced := by
  obtain ⟨s, hrun, hids, hoverflow, hcount⟩ : ∃ s,
      Run system.step OnTime (initial 0) daily s ∧ s.shared.nextId ≤ 2 ^ 64 ∧
      s.shared.inner.overflow = [1] ∧ s.shared.inner.timerCount = 2 :=
    Run.exists_of_exec (by decide +kernel)
  exact ⟨s, hrun, hoverflow, hcount, well_placed_of_run hrun hids⟩

theorem unhindered_onTime : Unhindered OnTime :=
  unhindered_threadSteps (p := fun s t _ => t.OnTime s)

/-- The id of a live timer is drawn again: it is counted twice, and is in two slots. -/
theorem misplaced_of_wraparound : ∃ as s, Run system.step OnTime (initial 0) as s ∧
    s.shared.inner.timerCount = 2 ∧ s.shared.inner.timers.keys = [1] ∧
    s.shared.inner.allIds = [1, 1] ∧ ¬ s.shared.inner.WellPlaced := by
  obtain ⟨s, hrun, v, hv, hcount, hkeys, hids⟩ : ∃ s, Run system.step OnTime (initial 0)
        [.env (.schedule (.once (fromMillis 50))), .act 0 .returns] s ∧
      ∃ v ∈ exec system.step OnTime ⟨{ s.shared with nextId := s.shared.nextId + (2 ^ 64 - 1) }, []⟩
          [.env (.schedule (.once (fromMillis 100))), .act 0 .returns],
        v.shared.inner.timerCount = 2 ∧ v.shared.inner.timers.keys = [1] ∧
        v.shared.inner.allIds = [1, 1] := Run.exists_of_exec (by decide +kernel)
  obtain ⟨pre, -, hafter⟩ := exists_run_after_draws unhindered_onTime hrun (2 ^ 64 - 1)
  obtain ⟨as, has⟩ := hafter _ v (Run.of_exec hv)
  refine ⟨as, _, has, hcount, hkeys, hids, fun hplaced => ?_⟩
  have hdistinct : v.shared.inner.allIds.Nodup := hplaced.distinct
  rw [hids] at hdistinct
  exact absurd hdistinct (by decide)

end Layout

end TimerWheel
