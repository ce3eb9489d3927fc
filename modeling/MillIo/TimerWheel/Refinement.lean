-- SUMMARY: The wheel refines the agenda of its deadlines, and when a large jump agrees with a walk to the same tick.
import MillIo.TimerWheel.Timed
import MillIo.TimerWheel.Wraparound

/-!
# Refinement of the agenda

A walk lists what is due before the target in the order of deadlines, which is
what the agenda of the wheel asks for. A jump lists what is due up to and
including the target in the order of the slots, so it agrees with a walk to the
same tick exactly when neither difference can be seen.
-/
namespace TimerWheel

open Interleaving

/-- In every run an advance within the range of the wheel lists the live timers
    that are due before the target tick, each once and by increasing deadline,
    leaves all others as they are and moves the cursor to the target. -/
theorem advanceTo_refines_agenda {start : Instant} {as : List Step} {s : State}
    (h : Run system.step Timely (initial start) as s) (hids : s.shared.nextId ≤ 2 ^ 64)
    (now : Instant)
    (hnear : s.shared.inner.instantToTick now ≤ s.shared.inner.currentTick + maxRangeTicks) :
    let w := s.shared.inner
    let r := w.advanceTo now
    w.agenda.ListsInOrder (· < w.instantToTick now) (r.1.map TimerEntry.id) ∧
      (∀ e ∈ r.1, w.lookup e.id = some e) ∧
      (∀ id, r.2.lookup id = if id ∈ r.1.map TimerEntry.id then none else w.lookup id) ∧
      r.2.currentTick = max w.currentTick (w.instantToTick now) := by
  obtain ⟨_, htick, hfires⟩ := (timed_of_run (serial_of_run h hids)).ok.advanceTo_walk hnear
  exact ⟨hfires.ordered, hfires.live, hfires.rest, htick⟩

/-- Two timers, one of them placed two levels up, and some time. -/
def twoTimers : List Step :=
  [.env (.schedule (.once (fromMillis 20000))), .act 0 .returns,
    .env (.schedule (.repeating (fromMillis 7))), .act 1 .returns, .env (.elapse (fromMillis 3))]

theorem advanceTo_refines_agenda_twoTimers :
    let s := (exec system.step Timely (initial 0) twoTimers).get (by decide +kernel)
    s.shared.inner.agenda.ListsInOrder (· < s.shared.inner.instantToTick (fromMillis 20001))
      ((s.shared.inner.advanceTo (fromMillis 20001)).1.map TimerEntry.id) :=
  (advanceTo_refines_agenda (Run.of_isSome (by decide +kernel)) (by decide +kernel)
    (fromMillis 20001) (by decide +kernel)).1

theorem unhindered_timely : Unhindered Timely where
  schedule _ _ := trivial
  behind pre x ts a h := by
    cases a with
    | env e => cases e <;> exact h
    | act i o => exact fun t ht => h t ((Machine.getElem?_behind pre ts i).symm.trans ht)

/-- A timer due at 100 ms is live while 2^64 - 1 further schedules draw their ids. The next one,
    due at 1000 ms, gets the same id, takes its place in the map and is found in its slot. -/
theorem advanceTo_early_of_wraparound : ∃ as s, Run system.step Timely (initial 0) as s ∧
    s.shared.inner.instantToTick (fromMillis 200) ≤ s.shared.inner.currentTick + maxRangeTicks ∧
    ¬ s.shared.inner.agenda.ListsInOrder (· < s.shared.inner.instantToTick (fromMillis 200))
      ((s.shared.inner.advanceTo (fromMillis 200)).1.map TimerEntry.id) := by
  obtain ⟨s, hrun, v, hv, hnear, hfired, hlive, htick⟩ : ∃ s, Run system.step Timely (initial 0)
        [.env (.schedule (.once (fromMillis 100))), .act 0 .returns] s ∧
      ∃ v ∈ exec system.step Timely ⟨{ s.shared with nextId := s.shared.nextId + (2 ^ 64 - 1) }, []⟩
          [.env (.schedule (.once (fromMillis 1000))), .act 0 .returns],
        v.shared.inner.instantToTick (fromMillis 200) ≤
          v.shared.inner.currentTick + maxRangeTicks ∧
        1 ∈ (v.shared.inner.advanceTo (fromMillis 200)).1.map TimerEntry.id ∧
        v.shared.inner.agenda 1 = some 1000 ∧
        v.shared.inner.instantToTick (fromMillis 200) = 200 := Run.exists_of_exec (by decide +kernel)
  obtain ⟨pre, -, hafter⟩ := exists_run_after_draws unhindered_timely hrun (2 ^ 64 - 1)
  obtain ⟨as, has⟩ := hafter _ v (Run.of_exec hv)
  refine ⟨as, _, has, hnear, fun hlists => ?_⟩
  obtain ⟨deadline, hdeadline, hdue⟩ := (hlists.mem_iff 1).1 hfired
  cases hlive.symm.trans hdeadline
  exact absurd (htick ▸ hdue : 1000 < 200) (by decide)

namespace WheelInner

/-! ## Sequences of walks -/

/-- Advances made one after the other, with all that they return. -/
def advanceAll : WheelInner → List Instant → List TimerEntry × WheelInner
  | w, [] => ([], w)
  | w, now :: nows =>
    ((w.advanceTo now).1 ++ ((w.advanceTo now).2.advanceAll nows).1,
      ((w.advanceTo now).2.advanceAll nows).2)

/-- Each of the advances stays within the range of the wheel. -/
def Near : WheelInner → List Instant → Prop
  | _, [] => True
  | w, now :: nows =>
    w.instantToTick now ≤ w.currentTick + maxRangeTicks ∧ (w.advanceTo now).2.Near nows

section Walks

variable {w w' : WheelInner} {es es' : List TimerEntry} {due due' : ℕ → Prop} {target : ℕ}
  {now : Instant} {nows : List Instant}

theorem FiresInOrder.congr (h : w.FiresInOrder due es w')
    (hdue : ∀ id d, w.agenda id = some d → (due d ↔ due' d)) : w.FiresInOrder due' es w' :=
  { h with listed := h.listed.congr hdue, ordered := h.ordered.congr hdue }

/-- A sequence of walks fires what is due before the tick it ends at, in the order
    of deadlines. -/
theorem Ok.advanceAll (h : w.Ok) (hnear : w.Near nows) :
    (w.advanceAll nows).2.Ok ∧ w.currentTick ≤ (w.advanceAll nows).2.currentTick ∧
      w.FiresInOrder (· < (w.advanceAll nows).2.currentTick) (w.advanceAll nows).1
        (w.advanceAll nows).2 := by
  induction nows generalizing w with
  | nil =>
    refine ⟨h, Nat.le_refl _, .refl fun id e he => ?_⟩
    exact Nat.not_lt_of_le (h.ahead he)
  | cons now nows ih =>
    obtain ⟨hok, htick, hfires⟩ := h.advanceTo_walk hnear.1
    obtain ⟨hok', hle, hfires'⟩ := ih hok hnear.2
    have hfirst : w.FiresInOrder (· < (w.advanceTo now).2.currentTick) (w.advanceTo now).1
        (w.advanceTo now).2 := by
      refine hfires.congr fun id d hd => ?_
      obtain ⟨e, he, rfl⟩ := agenda_eq_some_iff.1 hd
      have hahead := h.ahead he
      rw [htick]
      omega
    refine ⟨hok', Nat.le_trans ?_ hle, hfirst.trans hle hfires'⟩
    rw [htick]
    exact Nat.le_max_left _ _

/-- The first moment of a tick. -/
def instantOf (w : WheelInner) (tick : ℕ) : Instant := w.startTime + fromMillis tick

theorem instantToTick_instantOf (w : WheelInner) {tick : ℕ} (h : tick < 2 ^ 64) :
    w.instantToTick (w.instantOf tick) = tick := by
  simp only [instantToTick, instantOf, fromMillis, asMillis, Nat.add_sub_cancel_left]
  rw [Nat.mul_div_cancel _ (by decide), asU64, Nat.mod_eq_of_lt h]

/-- Every tick ahead of the cursor can be reached by walks. -/
theorem Ok.exists_walks (h : w.Ok) {target : ℕ} (hlt : target < 2 ^ 64)
    (hle : w.currentTick ≤ target) :
    ∃ nows, w.Near nows ∧ (w.advanceAll nows).2.currentTick = target := by
  induction hd : target - w.currentTick using Nat.strong_induction_on generalizing w with
  | _ n ih =>
    by_cases hend : w.currentTick = target
    · exact ⟨[], trivial, hend⟩
    · -- One walk to the end of the range or to the target, whichever is first.
      obtain ⟨next, hahead, hrange, hnext⟩ : ∃ next, w.currentTick < next ∧
          next ≤ w.currentTick + maxRangeTicks ∧ next ≤ target := by
        have hpos : 0 < maxRangeTicks := by decide
        exact ⟨min (w.currentTick + maxRangeTicks) target, by omega, Nat.min_le_left _ _,
          Nat.min_le_right _ _⟩
      have htick := w.instantToTick_instantOf (Nat.lt_of_le_of_lt hnext hlt)
      obtain ⟨hok, hcur, _⟩ := h.advanceTo_walk (htick.trans_le hrange)
      rw [htick] at hcur
      obtain ⟨nows, hnows, hreach⟩ := ih (target - _) (by omega) hok (by omega) rfl
      refine ⟨w.instantOf next :: nows, ⟨htick.trans_le hrange, hnows⟩, ?_⟩
      rw [WheelInner.advanceAll]
      exact hreach

end Walks

/-! ## The same future -/

/-- What may happen to a wheel from now on. -/
inductive Op
  | insert (e : TimerEntry)
  | cancel (id : TimerId)
  | advance (now : Instant)

/-- A timer that is scheduled or re-armed is in no other place and not late. -/
def Admits (w : WheelInner) : Op → Prop
  | .insert e => w.lookup e.id = none ∧ ¬ w.Holds e.id ∧ w.currentTick ≤ e.deadlineTick
  | _ => True

def perform (w : WheelInner) : Op → List TimerEntry × WheelInner
  | .insert e => ([], w.insertEntry e)
  | .cancel id => ([], (w.cancel id).2)
  | .advance now => w.advanceTo now

/-- Two batches have the same timers; those of two walks also run through the same
    deadlines. -/
def SameBatch (w : WheelInner) (op : Op) (es es' : List TimerEntry) : Prop :=
  es.Perm es' ∧ ∀ now, op = .advance now → w.instantToTick now ≤ w.currentTick + maxRangeTicks →
    es.map TimerEntry.deadlineTick = es'.map TimerEntry.deadlineTick

/-- Two wheels have the same live timers and fire alike along `ops`. -/
def FiresAlike : List Op → WheelInner → WheelInner → Prop
  | [], w, w' => ∀ id, w.lookup id = w'.lookup id
  | op :: ops, w, w' => (∀ id, w.lookup id = w'.lookup id) ∧
    (w.Admits op → w'.Admits op → SameBatch w op (w.perform op).1 (w'.perform op).1 ∧
      FiresAlike ops (w.perform op).2 (w'.perform op).2)

/-- Two ways of advancing the same wheel agree. -/
structure Agree (r r' : List TimerEntry × WheelInner) : Prop where
  perm : r.1.Perm r'.1
  deadlines : r.1.map TimerEntry.deadlineTick = r'.1.map TimerEntry.deadlineTick
  live : ∀ id, r.2.lookup id = r'.2.lookup id
  future : ∀ ops, FiresAlike ops r.2 r'.2

/-- Two wheels in order that differ in the places of their ids only. -/
structure Twins (w w' : WheelInner) : Prop where
  left : w.Ok
  right : w'.Ok
  currentTick : w'.currentTick = w.currentTick
  startTime : w'.startTime = w.startTime
  lookup : ∀ id, w.lookup id = w'.lookup id

section Twins

variable {w w' u u' : WheelInner} {es es' : List TimerEntry} {due : ℕ → Prop}

/-- A batch is given by the ids in it. -/
theorem Takes.entries_eq (h : w.Takes es u) : (es.map TimerEntry.id).filterMap w.lookup = es := by
  rw [List.filterMap_map]
  refine (List.filterMap_congr fun e he => ?_).trans (List.filterMap_some)
  exact h.live e he

theorem Fires.perm (h : w.Fires due es u) (h' : w'.Fires due es' u')
    (hl : ∀ id, w.lookup id = w'.lookup id) : es.Perm es' := by
  have hlookup : w'.lookup = w.lookup := (funext hl).symm
  have hagenda : w'.agenda = w.agenda := by
    unfold agenda
    rw [hlookup]
  have hperm := h.listed.perm (hagenda ▸ h'.listed)
  have hes := h'.entries_eq
  rw [hlookup] at hes
  rw [← h.entries_eq, ← hes]
  exact hperm.filterMap _

theorem Fires.lookup_eq (h : w.Fires due es u) (h' : w'.Fires due es' u')
    (hl : ∀ id, w.lookup id = w'.lookup id) (id : TimerId) : u.lookup id = u'.lookup id := by
  have hmem := ((h.perm h' hl).map TimerEntry.id).mem_iff (a := id)
  rw [h.rest, h'.rest, hl]
  simp only [hmem]

theorem FiresInOrder.deadlines_eq (h : w.FiresInOrder due es u) (h' : w'.FiresInOrder due es' u')
    (hl : ∀ id, w.lookup id = w'.lookup id) :
    es.map TimerEntry.deadlineTick = es'.map TimerEntry.deadlineTick := by
  have hagenda : w'.agenda = w.agenda := by
    unfold agenda
    rw [funext hl]
  have heq := h.ordered.deadlines_eq (hagenda ▸ h'.ordered)
  have hes := h'.toTakes.deadlines_eq
  rw [hagenda] at hes
  rw [← h.toTakes.deadlines_eq, heq, hes]

/-- Twins advance alike. -/
theorem Twins.advanceTo (h : Twins w w') (now : Instant) :
    Twins (w.advanceTo now).2 (w'.advanceTo now).2 ∧
      SameBatch w (.advance now) (w.advanceTo now).1 (w'.advanceTo now).1 := by
  have htick := instantToTick_eq h.startTime now
  by_cases hnear : w.instantToTick now ≤ w.currentTick + maxRangeTicks
  · have hnear' : w'.instantToTick now ≤ w'.currentTick + maxRangeTicks := by
      rwa [htick, h.currentTick]
    obtain ⟨hok, hcur, hfires⟩ := h.left.advanceTo_walk hnear
    obtain ⟨hok', hcur', hfires'⟩ := h.right.advanceTo_walk hnear'
    rw [htick] at hfires' hcur'
    refine ⟨⟨hok, hok', ?_, ?_, hfires.toFires.lookup_eq hfires'.toFires h.lookup⟩,
      hfires.toFires.perm hfires'.toFires h.lookup, fun _ _ _ =>
        hfires.deadlines_eq hfires' h.lookup⟩
    · rw [hcur, hcur', h.currentTick]
    · rw [hfires.startTime, hfires'.startTime, h.startTime]
  · have hfar := Nat.lt_of_not_le hnear
    have hfar' : w'.currentTick + maxRangeTicks < w'.instantToTick now := by
      rwa [htick, h.currentTick]
    have hfires := h.left.fires_drainDueInto (w.instantToTick now)
    have hfires' := h.right.fires_drainDueInto (w.instantToTick now)
    rw [advanceTo_jump hfar, advanceTo_jump hfar', htick]
    refine ⟨⟨h.left.drainDueInto _, h.right.drainDueInto _, ?_, ?_, hfires.lookup_eq hfires' h.lookup⟩,
      hfires.perm hfires' h.lookup, ?_⟩
    · rw [drainDueInto_currentTick, drainDueInto_currentTick]
    · rw [hfires.startTime, hfires'.startTime, h.startTime]
    · intro now' heq hle
      cases heq
      exact absurd hle hnear

theorem Twins.perform (h : Twins w w') {op : Op} (ha : w.Admits op) (ha' : w'.Admits op) :
    Twins (w.perform op).2 (w'.perform op).2 ∧
      SameBatch w op (w.perform op).1 (w'.perform op).1 := by
  cases op with
  | insert e =>
    refine ⟨⟨h.left.insertEntry ha.1 ha.2.1 ha.2.2, h.right.insertEntry ha'.1 ha'.2.1 ha'.2.2,
      ?_, ?_, ?_⟩, List.Perm.nil, fun _ heq => by cases heq⟩
    · exact insertEntry_currentTick.trans (h.currentTick.trans insertEntry_currentTick.symm)
    · exact insertEntry_same.startTime.trans (h.startTime.trans insertEntry_same.startTime.symm)
    · intro id
      simp only [WheelInner.perform, insertEntry_lookup, h.lookup]
  | cancel id =>
    refine ⟨⟨h.left.cancel id, h.right.cancel id, ?_, ?_, ?_⟩, List.Perm.nil,
      fun _ heq => by cases heq⟩
    · exact cancel_currentTick.trans (h.currentTick.trans cancel_currentTick.symm)
    · exact cancel_startTime.trans (h.startTime.trans cancel_startTime.symm)
    · intro i
      simp only [WheelInner.perform, cancel_lookup, h.lookup]
  | advance now => exact h.advanceTo now

/-- Twins have the same future. -/
theorem Twins.firesAlike (h : Twins w w') (ops : List Op) : FiresAlike ops w w' := by
  induction ops generalizing w w' with
  | nil => exact h.lookup
  | cons op ops ih =>
    rw [FiresAlike]
    refine ⟨h.lookup, fun ha ha' => ?_⟩
    obtain ⟨htwins, hbatch⟩ := h.perform ha ha'
    exact ⟨hbatch, ih htwins⟩

end Twins

/-! ## When a jump agrees with walks -/

/-- No live timer has the target as its deadline. -/
def NoneAt (w : WheelInner) (target : ℕ) : Prop :=
  ∀ id e, w.lookup id = some e → e.deadlineTick ≠ target

/-- The live timers that are due before the target lie in the wheel, slot after
    slot and then in the overflow list, by increasing deadline. -/
def LiesInOrder (w : WheelInner) (target : ℕ) : Prop :=
  w.allIds.Pairwise fun i j => ∀ e e', w.lookup i = some e → w.lookup j = some e' →
    e.deadlineTick < target → e'.deadlineTick < target → e.deadlineTick ≤ e'.deadlineTick

section Jump

variable {w : WheelInner} {now : Instant} {nows : List Instant} {target : ℕ}

theorem liesInOrder_iff (hnone : w.NoneAt target) : w.LiesInOrder target ↔
    ((w.dueInSlotOrder target).map TimerEntry.deadlineTick).Pairwise (· ≤ ·) := by
  simp only [LiesInOrder, dueInSlotOrder, List.pairwise_map, List.pairwise_filter,
    List.pairwise_filterMap, decide_eq_true_eq]
  have hlt : ∀ {id e}, w.lookup id = some e →
      (e.deadlineTick ≤ target ↔ e.deadlineTick < target) := fun he =>
    ⟨fun hle => Nat.lt_of_le_of_ne hle (hnone _ _ he), Nat.le_of_lt⟩
  constructor
  · intro h
    refine h.imp fun hij e he e' he' hle hle' => ?_
    exact hij e e' he he' ((hlt he).1 hle) ((hlt he').1 hle')
  · intro h
    refine h.imp fun hij e e' he he' hle hle' => ?_
    exact hij e he e' he' ((hlt he).2 hle) ((hlt he').2 hle')

/-- What a sequence of walks to a tick fires and what a jump to it fires. -/
theorem Ok.walks_to (h : w.Ok) (hnear : w.Near nows)
    (hreach : (w.advanceAll nows).2.currentTick = target) :
    (w.advanceAll nows).2.Ok ∧
      w.FiresInOrder (· < target) (w.advanceAll nows).1 (w.advanceAll nows).2 := by
  obtain ⟨hok, _, hfires⟩ := h.advanceAll hnear
  rw [hreach] at hfires
  exact ⟨hok, hfires⟩

/-- A jump fires a timer at the target, and walks to the target leave it. -/
theorem Ok.not_agree_of_at (h : w.Ok) (hnear : w.Near nows)
    (hreach : (w.advanceAll nows).2.currentTick = target) {id : TimerId} {e : TimerEntry}
    (he : w.lookup id = some e) (hat : e.deadlineTick = target) :
    ¬ Agree (w.drainDueInto target) (w.advanceAll nows) := by
  intro hagree
  obtain ⟨_, hfires⟩ := h.walks_to hnear hreach
  have hjump : e ∈ (w.drainDueInto target).1 := by
    rw [h.drainDueInto_fst, mem_dueInSlotOrder h]
    exact ⟨h.keyed id e he ▸ he, hat.le⟩
  obtain ⟨d, hd, hlt⟩ := (hfires.listed.mem_iff e.id).1
    (List.mem_map_of_mem (hagree.perm.mem_iff.1 hjump))
  obtain ⟨e', he', rfl⟩ := agenda_eq_some_iff.1 hd
  rw [h.keyed id e he, he] at he'
  cases he'
  exact Nat.lt_irrefl _ (hat ▸ hlt)

/-- Where no timer is due at the target itself and the wheel holds the due ones in
    order, a jump does what walks do. -/
theorem Ok.agree_of_liesInOrder (h : w.Ok) (hnone : w.NoneAt target)
    (horder : w.LiesInOrder target) (hnear : w.Near nows)
    (hreach : (w.advanceAll nows).2.currentTick = target) :
    Agree (w.drainDueInto target) (w.advanceAll nows) := by
  obtain ⟨hok, hfires⟩ := h.walks_to hnear hreach
  have hjump := h.fires_drainDueInto target
  have hlisted : w.agenda.Lists (· < target) ((w.drainDueInto target).1.map TimerEntry.id) := by
    refine hjump.listed.congr fun id d hd => ?_
    obtain ⟨e, he, rfl⟩ := agenda_eq_some_iff.1 hd
    exact ⟨fun hle => Nat.lt_of_le_of_ne hle (hnone id e he), Nat.le_of_lt⟩
  have hsorted : w.agenda.ListsInOrder (· < target)
      ((w.drainDueInto target).1.map TimerEntry.id) := by
    refine ⟨hlisted, ?_⟩
    rw [hjump.toTakes.deadlines_eq, h.drainDueInto_fst]
    exact (liesInOrder_iff hnone).1 horder
  have hinorder : w.FiresInOrder (· < target) (w.drainDueInto target).1
      (w.drainDueInto target).2 := { hjump with listed := hlisted, ordered := hsorted }
  have hlive := hinorder.toFires.lookup_eq hfires.toFires fun _ => rfl
  have htwins : Twins (w.drainDueInto target).2 (w.advanceAll nows).2 := by
    refine ⟨h.drainDueInto target, hok, ?_, ?_, hlive⟩
    · rw [hreach, drainDueInto_currentTick]
    · rw [hfires.startTime, hjump.startTime]
  exact ⟨hinorder.toFires.perm hfires.toFires fun _ => rfl,
    hinorder.deadlines_eq hfires fun _ => rfl, hlive, htwins.firesAlike⟩

/-- A jump to the deadline of a timer disagrees with two walks to the same tick. -/
theorem Ok.jump_disagrees (h : w.Ok) {now' : Instant} {id : TimerId} {e : TimerEntry}
    (hfar : w.currentTick + maxRangeTicks < w.instantToTick now') (hnear : w.Near [now, now'])
    (hmax : max (w.advanceTo now).2.currentTick ((w.advanceTo now).2.instantToTick now') =
      w.instantToTick now')
    (he : w.lookup id = some e) (hat : e.deadlineTick = w.instantToTick now') :
    (w.advanceAll [now, now']).2.currentTick = w.instantToTick now' ∧
      ¬ Agree (w.advanceTo now') (w.advanceAll [now, now']) := by
  obtain ⟨hok, _⟩ := h.advanceTo_walk hnear.1
  obtain ⟨_, hcur, _⟩ := hok.advanceTo_walk hnear.2.1
  have hreach : (w.advanceAll [now, now']).2.currentTick = w.instantToTick now' := by
    simp only [WheelInner.advanceAll]
    rw [hcur, hmax]
  rw [advanceTo_jump hfar]
  exact ⟨hreach, h.not_agree_of_at hnear hreach he hat⟩

end Jump

end WheelInner

open WheelInner in
/-- In every run a jump agrees with all sequences of walks to the same tick
    exactly when no live timer is due at that tick itself and the timers due
    before it lie in the wheel in the order of their deadlines. -/
theorem jump_agrees_iff {start : Instant} {as : List Step} {s : State}
    (h : Run system.step Timely (initial start) as s) (hids : s.shared.nextId ≤ 2 ^ 64)
    (now : Instant)
    (hfar : s.shared.inner.currentTick + maxRangeTicks < s.shared.inner.instantToTick now) :
    (∀ nows, s.shared.inner.Near nows →
      (s.shared.inner.advanceAll nows).2.currentTick = s.shared.inner.instantToTick now →
      Agree (s.shared.inner.advanceTo now) (s.shared.inner.advanceAll nows)) ↔
    s.shared.inner.NoneAt (s.shared.inner.instantToTick now) ∧
      s.shared.inner.LiesInOrder (s.shared.inner.instantToTick now) := by
  have hok := (timed_of_run (serial_of_run h hids)).ok
  have hlt : s.shared.inner.instantToTick now < 2 ^ 64 := Nat.mod_lt _ (by decide)
  rw [advanceTo_jump hfar]
  generalize s.shared.inner = w, s.shared.inner.instantToTick now = target at *
  constructor
  · intro hagree
    obtain ⟨nows, hnear, hreach⟩ := hok.exists_walks hlt (by omega)
    have hboth := hagree nows hnear hreach
    have hnone : w.NoneAt target := fun id e he hat =>
      hok.not_agree_of_at hnear hreach he hat hboth
    refine ⟨hnone, (liesInOrder_iff hnone).2 ?_⟩
    obtain ⟨_, hfires⟩ := hok.walks_to hnear hreach
    rw [← hok.drainDueInto_fst, hboth.deadlines, ← hfires.toTakes.deadlines_eq]
    exact hfires.ordered.sorted
  · rintro ⟨hnone, horder⟩ nows hnear hreach
    exact hok.agree_of_liesInOrder hnone horder hnear hreach

theorem jump_agrees_iff_twoTimers :
    let w := ((exec system.step Timely (initial 0) twoTimers).get (by decide +kernel)).shared.inner
    let now := fromMillis 70000000
    (∀ nows, w.Near nows → (w.advanceAll nows).2.currentTick = w.instantToTick now →
      WheelInner.Agree (w.advanceTo now) (w.advanceAll nows)) ↔
    w.NoneAt (w.instantToTick now) ∧ w.LiesInOrder (w.instantToTick now) :=
  jump_agrees_iff (Run.of_isSome (by decide +kernel)) (by decide +kernel) (fromMillis 70000000)
    (by decide +kernel)

/-- A timer just beyond the range of the wheel. -/
def lateTimer : List Step := [.env (.schedule (.once (fromMillis 67108869))), .act 0 .returns]

/-- The wheel that this leads to. -/
def lateWheel : WheelInner :=
  ((exec system.step Timely (initial 0) lateTimer).get (by decide +kernel)).shared.inner

/-- A jump to the deadline of a timer fires it, and two walks to the same tick do
    not. -/
theorem jump_disagrees_at_deadline :
    (∃ s, Run system.step Timely (initial 0) lateTimer s ∧ s.shared.inner = lateWheel) ∧
      lateWheel.currentTick + maxRangeTicks < lateWheel.instantToTick (fromMillis 67108869) ∧
      lateWheel.Near [fromMillis 5, fromMillis 67108869] ∧
      (lateWheel.advanceAll [fromMillis 5, fromMillis 67108869]).2.currentTick =
        lateWheel.instantToTick (fromMillis 67108869) ∧
      ¬ WheelInner.Agree (lateWheel.advanceTo (fromMillis 67108869))
        (lateWheel.advanceAll [fromMillis 5, fromMillis 67108869]) := by
  have hrun : (exec system.step Timely (initial 0) lateTimer).isSome := by decide +kernel
  have hok : lateWheel.Ok := (timed_of_run (serial_of_run (Run.of_isSome hrun) (by decide +revert +kernel))).ok
  have hfar : lateWheel.currentTick + maxRangeTicks <
      lateWheel.instantToTick (fromMillis 67108869) := by decide +kernel
  have hnear : lateWheel.Near [fromMillis 5, fromMillis 67108869] :=
    ⟨by decide +kernel, by decide +kernel, trivial⟩
  have hlive : lateWheel.lookup 1 = some ⟨1, 67108869, .once⟩ := by decide +kernel
  exact ⟨⟨_, Run.of_isSome hrun, rfl⟩, hfar, hnear,
    hok.jump_disagrees hfar hnear (by decide +kernel) hlive (by decide +kernel)⟩

end TimerWheel
