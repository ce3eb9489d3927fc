-- SUMMARY: The timer wheel seen by its callers as a flat table of entries: every run of the wheel and its callers is a run of the table.
import MillIo.TimerWheel.Deadline
import MillIo.TimerWheel.Earliest
import MillIo.TimerWheel.Timed
import MillIo.Interleaving.View
import Mathlib.Order.Lattice.Nat
import Mathlib.Data.Set.Card

/-!
# The table of timers

What the wheel is for: a table that gives each live timer its entry, and ticks that take
out what is due. Ticks and deadlines are numbers without a bound. There are no levels, no
overflow list and no cache; the order of the timers that are due at the same tick is open.

The wheel refines the table as long as its sums of ticks and delays fit into `u64`.
-/
namespace TimerWheel

open Interleaving

/-! ## The table -/

/-- The live timers, the tick up to which timers have been taken out, the repeating timers
    that a tick has in its hands, and those of them that have been cancelled. -/
@[ext]
structure Table where
  entries : TimerId → Option TimerEntry
  reached : ℕ
  inFlight : Finset TimerId
  canceledInFlight : Finset TimerId

namespace Table

def agenda (t : Table) : Agenda TimerId := fun id => (t.entries id).map TimerEntry.deadlineTick

def put (t : Table) (e : TimerEntry) : Table :=
  { t with entries := Function.update t.entries e.id (some e) }

def take (t : Table) (ids : List TimerId) : Table :=
  { t with entries := fun id => if id ∈ ids then none else t.entries id }

/-- A tick takes out what is due before it; one that is far ahead of the tick before also
    takes out what is due at it. -/
def Due (t : Table) (tick deadlineTick : ℕ) : Prop :=
  if tick ≤ t.reached + maxRangeTicks then deadlineTick < tick else deadlineTick ≤ tick

/-- The batch lists what is due, each timer once, and by increasing deadline unless the tick
    is far ahead. -/
structure Collects (t : Table) (tick : ℕ) (batch : List TimerEntry) : Prop where
  live : ∀ e ∈ batch, t.entries e.id = some e
  listed : t.agenda.Lists (t.Due tick) (batch.map TimerEntry.id)
  ordered : tick ≤ t.reached + maxRangeTicks →
    t.agenda.ListsInOrder (t.Due tick) (batch.map TimerEntry.id)

def advance (t : Table) (tick : ℕ) (batch : List TimerEntry) : Table :=
  { t.take (batch.map TimerEntry.id) with reached := max t.reached tick }

def schedule (t : Table) (id : TimerId) (tick : ℕ) : Request → Table
  | .once delay => t.put ⟨id, tick + asMillis delay, .once⟩
  | .repeating interval => t.put ⟨id, tick + asMillis interval, .repeating interval⟩

def cancel (t : Table) (id : TimerId) : Bool × Table :=
  if t.entries id ≠ none then (true, t.take [id])
  else if id ∈ t.inFlight then
    (true, { t with canceledInFlight := insert id t.canceledInFlight })
  else (false, t)

def mark (t : Table) (batch : List TimerEntry) : Table :=
  { t with inFlight := t.inFlight ∪ (WheelInner.repeatingIds batch).toFinset }

/-- A repeating timer whose callback has returned is put back, unless it was cancelled. -/
def rearm (tick : ℕ) (t : Table) (e : TimerEntry) : Table :=
  let landed := { t with inFlight := t.inFlight.erase e.id }
  if e.id ∈ t.canceledInFlight then
    { landed with canceledInFlight := t.canceledInFlight.erase e.id }
  else match e.kind with
    | .once => landed
    | .repeating interval => landed.put ⟨e.id, tick + asMillis interval, e.kind⟩

/-- The time from a tick to the first deadline. -/
noncomputable def untilNext (t : Table) (tick : ℕ) : Option Duration :=
  open Classical in
  if ∃ id, t.entries id ≠ none then
    some (fromMillis (sInf { d | ∃ id, t.agenda id = some d } - tick))
  else none

end Table

/-! ## The table and its callers -/

/-- The table in the place of the wheel. -/
structure Store where
  table : Table
  nextId : TimerId
  clock : Instant
  history : List Event

namespace Store

def enter (s : Store) : Invocation → Store × List Call
  | .schedule request => ({ s with nextId := s.nextId + 1 }, [.scheduling s.nextId request])
  | .cancel id =>
    ({ s with
      table := (s.table.cancel id).2
      history := s.history ++ [.cancelled id (s.table.cancel id).1] }, [])
  | .tick => (s, [.ticking s.clock])
  | .timeUntilNext => (s, [])
  | .elapse d => ({ s with clock := s.clock + d }, [])

/-- As `TimerWheel.proceed`, where the batch that a tick collects is a choice. -/
noncomputable def proceed (start : Instant) (s : Store) :
    Call → Outcome × List TimerEntry → Option (Store × Call)
  | .scheduling id request, (.returns, _) =>
    some ({ s with
      table := s.table.schedule id (asMillis (s.clock - start)) request
      history := s.history ++ [.scheduled id request] }, .done)
  | .ticking now, (.returns, batch) =>
    open Classical in
    if s.table.Collects (asMillis (now - start)) batch then
      some ({ s with table := s.table.advance (asMillis (now - start)) batch }, .advanced batch)
    else none
  | .advanced expired, (.returns, _) =>
    if expired.isEmpty then some (s, .done)
    else some ({ s with table := s.table.mark expired }, .firing expired [])
  | .firing (entry :: expired) toReschedule, (.returns, _) =>
    some ({ s with history := s.history ++ [.started entry.id] },
      .running entry expired toReschedule)
  | .firing [] toReschedule, (.returns, _) =>
    if toReschedule.isEmpty then some (s, .done)
    else some ({ s with
      table := toReschedule.foldl (Table.rearm (asMillis (s.clock - start))) s.table }, .done)
  | .running entry expired toReschedule, (.returns, _) =>
    some (s, .firing expired
      (if entry.kind.isRepeating then toReschedule ++ [entry] else toReschedule))
  | .running _ _ _, (.panics, _) => some (s, .done)
  | _, _ => none

noncomputable def system (start : Instant) :
    Machine Store Call Invocation (Outcome × List TimerEntry) where
  env s invocation := some (s.enter invocation)
  act := proceed start

/-- An empty table, and no call in progress. -/
def initial (start : Instant) : Config Store Call :=
  ⟨⟨⟨fun _ => none, 0, ∅, ∅⟩, 1, start, []⟩, []⟩

end Store

/-! ## The wheel as a table -/

namespace WheelInner

def table (w : WheelInner) : Table := ⟨w.lookup, w.currentTick, w.inFlight, w.canceledInFlight⟩

section Table

variable {w w' : WheelInner} {id : TimerId} {e : TimerEntry} {es : List TimerEntry} {now : Instant}
  {tick : ℕ}

theorem table_insertEntry : (w.insertEntry e).table = w.table.put e := by
  refine Table.ext ?_ insertEntry_currentTick insertEntry_same.inFlight
    insertEntry_same.canceledInFlight
  funext id
  exact (insertEntry_lookup id).trans (Function.update_apply _ _ _ _).symm

theorem table_schedule {request : Request}
    (hfits : w.instantToTick now + asMillis request.delay < 2 ^ 64) :
    (w.schedule id request now).table = w.table.schedule id (w.instantToTick now) request := by
  have hdeadline := deadlineFor_eq hfits
  cases request with
  | once delay =>
    simp only [schedule, scheduleOnce, table_insertEntry, Table.schedule]
    rw [show w.deadlineFor now delay = _ from hdeadline]
    rfl
  | repeating interval =>
    simp only [schedule, scheduleRepeating, table_insertEntry, Table.schedule]
    rw [show w.deadlineFor now interval = _ from hdeadline]
    rfl

theorem table_cancel (w : WheelInner) (id : TimerId) :
    ((w.cancel id).1, (w.cancel id).2.table) = w.table.cancel id := by
  have htake : (w.table.take [id]).entries = (w.cancel id).2.lookup := by
    funext i
    simp [Table.take, table, cancel_lookup]
  rcases cancel_cases w id with ⟨e, earliest, he, h⟩ | ⟨hnone, hid, h⟩ | ⟨hnone, hid, h⟩
  · rw [h] at htake ⊢
    simp only [Table.cancel, table, he, ne_eq, reduceCtorEq, not_false_eq_true, if_true]
    exact congrArg _ (Table.ext htake.symm rfl rfl rfl)
  · have hnot : ¬ w.table.entries id ≠ none := not_not.2 hnone
    rw [h, Table.cancel, if_neg hnot, if_pos (show id ∈ w.table.inFlight from hid)]
    rfl
  · have hnot : ¬ w.table.entries id ≠ none := not_not.2 hnone
    rw [h, Table.cancel, if_neg hnot, if_neg (show id ∉ w.table.inFlight from hid)]

theorem table_timeUntilNext : (w.timeUntilNext now).2.table = w.table := by
  obtain ⟨earliest, hframe⟩ := w.timeUntilNext_frame now
  rw [hframe]
  rfl

theorem table_markInFlight : (w.markInFlight es).table = w.table.mark es := by
  rw [markInFlight_eq]
  rfl

theorem table_rearm (hfits : w.instantToTick now + asMillis e.kind.delay < 2 ^ 64) :
    (w.rearm now e).table = w.table.rearm (w.instantToTick now) e := by
  rcases rearm_cases now w e with ⟨hid, h⟩ | ⟨hid, hkind, h⟩ | ⟨hid, interval, hkind, h⟩
  · rw [h, Table.rearm, if_pos (show e.id ∈ w.table.canceledInFlight from hid)]
    rfl
  · rw [h, Table.rearm, if_neg (show e.id ∉ w.table.canceledInFlight from hid), hkind]
    rfl
  · rw [hkind] at hfits
    have hdeadline : w.deadlineFor now interval = w.instantToTick now + asMillis interval :=
      deadlineFor_eq hfits
    rw [h, Table.rearm, if_neg (show e.id ∉ w.table.canceledInFlight from hid), table_insertEntry,
      hdeadline]
    simp only [hkind]
    rfl

theorem table_rearmAll
    (hfits : ∀ e ∈ es, w.instantToTick now + asMillis e.kind.delay < 2 ^ 64) :
    (w.rearmAll now es).table = es.foldl (Table.rearm (w.instantToTick now)) w.table := by
  induction es generalizing w with
  | nil => rfl
  | cons e es ih =>
    have hstart : (w.rearm now e).startTime = w.startTime := rearm_startTime
    have htick := instantToTick_eq hstart now
    rw [rearmAll_cons, ih, htick, table_rearm (hfits e List.mem_cons_self), List.foldl_cons]
    intro f hf
    rw [htick]
    exact hfits f (List.mem_cons_of_mem e hf)

theorem Takes.table_eq (h : w.Takes es w') (htick : w'.currentTick = max w.currentTick tick) :
    w'.table = w.table.advance tick es := by
  refine Table.ext ?_ htick h.inFlight h.canceledInFlight
  funext id
  exact h.rest id

/-- An advance collects for the table. -/
theorem Ok.collects (h : w.Ok) (now : Instant) :
    w.table.Collects (w.instantToTick now) (w.advanceTo now).1 ∧
      (w.advanceTo now).2.table = w.table.advance (w.instantToTick now) (w.advanceTo now).1 := by
  refine ⟨?_, (takes_advanceTo h.keyed now).table_eq advanceTo_currentTick⟩
  by_cases hnear : w.instantToTick now ≤ w.currentTick + maxRangeTicks
  · have hdue : w.table.Due (w.instantToTick now) = (· < w.instantToTick now) := by
      funext d
      exact if_pos hnear
    obtain ⟨-, -, hfires⟩ := h.advanceTo_walk hnear
    refine ⟨hfires.live, ?_, fun _ => ?_⟩
    · rw [hdue]
      exact hfires.listed
    · rw [hdue]
      exact hfires.ordered
  · have hdue : w.table.Due (w.instantToTick now) = (· ≤ w.instantToTick now) := by
      funext d
      exact if_neg hnear
    rw [advanceTo_jump (Nat.lt_of_not_le hnear)]
    have hfires := h.fires_drainDueInto (w.instantToTick now)
    refine ⟨hfires.live, ?_, fun h => absurd h hnear⟩
    rw [hdue]
    exact hfires.listed

theorem Cached.timerCount_eq (h : w.Cached) :
    w.timerCount = Set.ncard { id | w.table.entries id ≠ none } := by
  have hkeys : { id | w.table.entries id ≠ none } = ↑w.timers.keys.toFinset := by
    ext id
    rw [List.coe_toFinset]
    exact Option.isSome_iff_ne_none.symm.trans AList.lookup_isSome
  rw [hkeys, Set.ncard_coe_finset, List.toFinset_card_of_nodup w.timers.keys_nodup]
  exact h.counted

theorem isLeast_of_isEarliest {d : ℕ} (h : w.IsEarliest d) :
    IsLeast { d | ∃ id, w.table.agenda id = some d } d := by
  obtain ⟨id, e, he, rfl⟩ := h.live
  refine ⟨⟨id, agenda_eq_some_iff.2 ⟨e, he, rfl⟩⟩, ?_⟩
  rintro d ⟨id', hd⟩
  obtain ⟨e', he', rfl⟩ := agenda_eq_some_iff.1 hd
  exact h.le id' e' he'

theorem Cached.untilNext (h : w.Cached) (now : Instant) :
    (w.timeUntilNext now).1 = w.table.untilNext (w.instantToTick now) := by
  unfold Table.untilNext
  split
  · rename_i hlive
    obtain ⟨id, hid⟩ := hlive
    obtain ⟨e, he⟩ := Option.ne_none_iff_exists'.1 hid
    obtain ⟨d, -, hd⟩ := recompute_of_lookup he
    rw [h.timeUntilNext_eq hd, (isLeast_of_isEarliest hd).csInf_eq]
  · rename_i hnone
    push Not at hnone
    exact (h.timeUntilNext_eq_none_iff now).2 hnone

end Table

end WheelInner

/-! ## Runs -/

/-- The deadlines that the next step of a call computes fit into `u64` with their delays. -/
def Call.Exact (s : Shared) : Call → Prop
  | scheduling _ request => s.inner.instantToTick s.clock + asMillis request.delay < 2 ^ 64
  | firing _ toReschedule =>
    ∀ e ∈ toReschedule, s.inner.instantToTick s.clock + asMillis e.kind.delay < 2 ^ 64
  | _ => True

instance (s : Shared) : DecidablePred (Call.Exact s)
  | .scheduling _ _ => inferInstanceAs (Decidable (_ < _))
  | .firing _ _ => inferInstanceAs (Decidable (∀ e ∈ _, _ < _))
  | .ticking _ => .isTrue trivial
  | .advanced _ => .isTrue trivial
  | .running _ _ _ => .isTrue trivial
  | .done => .isTrue trivial

/-- Clock readings, and their sums with the delays, fit into `u64` ticks. -/
def Exact (s : State) : Step → Prop
  | .env (.elapse d) => asMillis (s.shared.clock + d - s.shared.inner.startTime) < 2 ^ 64
  | .env _ => True
  | .act i _ => ∀ t ∈ s.threads[i]?, t.Exact s.shared

instance : DecidableRel Exact
  | _, .env (.elapse _) => inferInstanceAs (Decidable (_ < _))
  | _, .env (.schedule _) => .isTrue trivial
  | _, .env (.cancel _) => .isTrue trivial
  | _, .env .tick => .isTrue trivial
  | _, .env .timeUntilNext => .isTrue trivial
  | s, .act i _ => inferInstanceAs (Decidable (∀ t ∈ s.threads[i]?, t.Exact s.shared))

def Shared.store (s : Shared) : Store := ⟨s.inner.table, s.nextId, s.clock, s.history⟩

section Runs

variable {start : Instant} {s s' : Shared} {t t' : Call} {o : Outcome}

theorem Call.Exact.inTime (h : t.Exact s) : t.InTime s := by
  have hfits : ∀ delay, s.inner.instantToTick s.clock + asMillis delay < 2 ^ 64 →
      s.inner.DelayFits s.clock delay := fun delay hdelay =>
    (WheelInner.exactDeadline_iff.2 hdelay).added
  cases t with
  | scheduling id request => exact hfits _ h
  | firing expired toReschedule => exact fun e he => hfits _ (h e he)
  | _ => trivial

theorem Exact.timely {s : State} {a : Step} (h : Exact s a) : Timely s a := by
  cases a with
  | env e =>
    cases e with
    | elapse d => exact h
    | _ => trivial
  | act i o => exact fun t ht => (h t ht).inTime

theorem store_enter (e : Invocation) : s.store.enter e = ((enterSerial s e).1.store, (enterSerial s e).2) := by
  cases e with
  | cancel id =>
    have hcancel := s.inner.table_cancel id
    simp only [Store.enter, Shared.store, ← hcancel]
    rfl
  | timeUntilNext => simp only [Store.enter, enterSerial, enter, Shared.store, WheelInner.table_timeUntilNext]
  | schedule | tick | elapse => rfl

/-- What a call does to the wheel it does to the table, with the batch of the wheel. -/
theorem store_proceed (hok : s.inner.Ok) (hstart : s.inner.startTime = start)
    (hclock : asMillis (s.clock - start) < 2 ^ 64) (hreading : ∀ now, t = .ticking now → now ≤ s.clock)
    (hexact : t.Exact s) (h : proceed s t o = some (s', t')) :
    ∃ batch, s.store.proceed start t (o, batch) = some (s'.store, t') := by
  have htick : s.inner.instantToTick s.clock = asMillis (s.clock - start) :=
    WheelInner.instantToTick_of_lt hstart hclock
  cases t with
  | scheduling id request =>
    cases o with
    | panics => cases h
    | returns =>
      cases h
      refine ⟨[], ?_⟩
      simp only [Store.proceed, Shared.store, ← htick, WheelInner.table_schedule hexact]
  | ticking now =>
    cases o with
    | panics => cases h
    | returns =>
      cases h
      have hnow : s.inner.instantToTick now = asMillis (now - start) :=
        WheelInner.instantToTick_of_lt hstart
          (Nat.lt_of_le_of_lt (WheelInner.asMillis_sub_mono start (hreading now rfl)) hclock)
      obtain ⟨hcollects, htable⟩ := hok.collects now
      rw [hnow] at hcollects htable
      refine ⟨(s.inner.advanceTo now).1, ?_⟩
      simp only [Store.proceed, Shared.store, htable]
      exact if_pos hcollects
  | advanced expired =>
    cases o with
    | panics => cases h
    | returns =>
      simp only [proceed] at h
      refine ⟨[], ?_⟩
      split at h
      · cases h
        simp only [Store.proceed, *, if_true]
      · cases h
        simp only [Store.proceed, *, Shared.store, WheelInner.table_markInFlight]
        rfl
  | firing expired toReschedule =>
    cases o with
    | panics =>
      cases expired <;> cases h
    | returns =>
      refine ⟨[], ?_⟩
      cases expired with
      | cons entry expired =>
        cases h
        rfl
      | nil =>
        simp only [proceed] at h
        split at h
        · cases h
          simp only [Store.proceed, *, if_true]
        · cases h
          simp only [Store.proceed, *, Shared.store, WheelInner.table_rearmAll hexact]
          rfl
  | running entry expired toReschedule =>
    cases o with
    | panics =>
      cases h
      exact ⟨[], rfl⟩
    | returns =>
      cases h
      exact ⟨[], rfl⟩
  | done =>
    cases o <;> cases h

/-- As `refines_table`, with the state of the table as the view of the state of the wheel. -/
theorem table_run {as : List Step} {s : State} (h : Run serial.step Exact (initial start) as s) :
    ∃ bs, bs.map (Action.map id Prod.fst) = as ∧
      Run (Store.system start).step Unrestricted ((initial start).map Shared.store id) bs
        (s.map Shared.store id) := by
  refine Machine.refines h
    (J := fun s => Timed s ∧ s.shared.inner.startTime = start) (fun as s hr => ?_) ?_ ?_
  · exact ⟨timed_of_run (hr.mono fun _ _ he => he.timely), (paced_of_run hr).startTime⟩
  · intro x ts e y ts' _ _ he
    have henter : enterSerial x e = (y, ts') := Option.some.inj he
    refine ⟨e, rfl, ?_⟩
    simp only [Store.system, store_enter, henter, List.map_id]
  · rintro x r r' t o y t' ⟨htimed, hstart⟩ hexact hr
    obtain ⟨batch, hbatch⟩ := store_proceed htimed.ok hstart (hstart ▸ htimed.clock_fits)
      (fun now hnow => htimed.reading now (by simp [hnow])) (hexact t (by simp)) hr
    exact ⟨(o, batch), rfl, hbatch⟩

/-- In every run whose sums of ticks and delays fit into `u64`, with any calls of any threads
    in any order: the wheel does what the table does with the same calls and the same history,
    for batches that list what is due; and `time_until_next` and `pending_count` are what the
    table says. -/
theorem refines_table {as : List Step} {s : State} (h : Run system.step Exact (initial start) as s)
    (hids : s.shared.nextId ≤ 2 ^ 64) :
    (∃ bs, bs.map (Action.map id Prod.fst) = as ∧
      Run (Store.system start).step Unrestricted (Store.initial start) bs
        ⟨s.shared.store, s.threads⟩) ∧
    (∀ now ≤ s.shared.clock, (s.shared.inner.timeUntilNext now).1 =
      s.shared.inner.table.untilNext (asMillis (now - start))) ∧
    s.shared.inner.timerCount = Set.ncard { id | s.shared.inner.table.entries id ≠ none } := by
  have hview : ∀ s : State, s.map Shared.store id = ⟨s.shared.store, s.threads⟩ := fun s => by
    simp [Config.map]
  have h := serial_of_run h hids
  have hcached := cached_of_run h
  refine ⟨?_, fun now hnow => ?_, hcached.timerCount_eq⟩
  · obtain ⟨bs, hbs, hrun⟩ := table_run h
    rw [hview, hview] at hrun
    exact ⟨bs, hbs, hrun⟩
  · have hstart := (paced_of_run h).startTime
    have hclock := (timed_of_run (h.mono fun _ _ he => he.timely)).clock_fits
    rw [hstart] at hclock
    rw [hcached.untilNext, WheelInner.instantToTick_of_lt hstart]
    exact Nat.lt_of_le_of_lt (WheelInner.asMillis_sub_mono start hnow) hclock

/-- A repeating timer and a timer for a day, and a tick that runs the first. -/
theorem refines_table_two_timers : ∃ s,
    Run system.step Exact (initial 0) [.env (.schedule (.once 86400000000000)), .act 0 .returns,
      .env (.schedule (.repeating 1000000)), .act 1 .returns, .env (.elapse 2000000), .env .tick,
      .act 2 .returns, .act 2 .returns, .act 2 .returns, .act 2 .returns, .act 2 .returns] s ∧
    s.shared.history = [.scheduled 1 (.once 86400000000000), .scheduled 2 (.repeating 1000000),
      .started 2] ∧
    s.shared.inner.table.untilNext (asMillis (2000000 - 0)) = some 1000000 ∧
    ∃ bs v, Run (Store.system 0).step Unrestricted (Store.initial 0) bs v ∧
      v.shared.history = s.shared.history := by
  obtain ⟨s, hrun, hids, hhistory, hclock, huntil⟩ : ∃ s,
      Run system.step Exact (initial 0) [.env (.schedule (.once 86400000000000)), .act 0 .returns,
        .env (.schedule (.repeating 1000000)), .act 1 .returns, .env (.elapse 2000000), .env .tick,
        .act 2 .returns, .act 2 .returns, .act 2 .returns, .act 2 .returns, .act 2 .returns] s ∧
      s.shared.nextId ≤ 2 ^ 64 ∧
      s.shared.history = [.scheduled 1 (.once 86400000000000), .scheduled 2 (.repeating 1000000),
        .started 2] ∧
      s.shared.clock = 2000000 ∧ (s.shared.inner.timeUntilNext 2000000).1 = some 1000000 :=
    Run.exists_of_exec (by decide +kernel)
  obtain ⟨⟨bs, -, hbs⟩, hnext, -⟩ := refines_table hrun hids
  exact ⟨s, hrun, hhistory, (hnext 2000000 hclock.ge).symm.trans huntil, bs, _, hbs, rfl⟩

end Runs

end TimerWheel
