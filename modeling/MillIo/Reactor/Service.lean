-- SUMMARY: A cycle of the reactor serves what is due: each timer that is due when the cycle begins has its callback started once before the cycle ends, unless it is cancelled.
import MillIo.Reactor.Wheel

/-!
# What a cycle serves

A cycle reads the clock for its tick after its poll and its dispatch, so what is due when
the cycle begins is due at that reading. Until the tick takes its batch only a cancel takes
a timer out, as no other loop is in progress; and the cycle does not end before the callback of
each timer of the batch has started.
-/
namespace Reactor

open Interleaving TimerWheel

/-- Nobody cancels the timer. -/
def Keeps (id : TimerId) : State → Step → Prop := fun _ a => a ≠ .env (.cancel id)

instance (id : TimerId) : DecidableRel (Keeps id) :=
  fun _ a => inferInstanceAs (Decidable (a ≠ .env (.cancel id)))

namespace Loop

/-- The loop is in a cycle whose tick has not advanced the wheel, and reads the clock at
    `asked` or later. -/
def Ahead (asked : Instant) : Loop → Prop
  | evaluating | entering _ _ | polling _ _ | dispatching _ => True
  | ticking (.ticking now) => asked ≤ now
  | _ => False

/-- The tick of the loop has taken its batch, and it has marked it unless it is empty. -/
def Behind : Loop → Prop
  | testing | ticking (.firing _ _) | ticking (.running _ _ _) | ticking .done => True
  | _ => False

/-- The timers whose callbacks the tick of the loop has still to start. -/
def batch : Loop → List TimerId
  | ticking call => (call.batch ++ call.pending).map TimerEntry.id
  | _ => []

end Loop

/-- The timer is live, and its deadline is not behind the cursor. -/
structure Awaited (e : TimerEntry) (count : ℕ) (s : Shared) : Prop where
  live : s.wheel.inner.lookup e.id = some e
  cursor : s.wheel.inner.currentTick ≤ e.deadlineTick
  started : s.wheel.history.count (.started e.id) = count

/-- How far a loop has got with a timer after it has begun cycle `n + 1`. -/
inductive Attends (e : TimerEntry) (asked : Instant) (n count : ℕ) (s : Shared) : Loop → Prop
  | testing (hcycle : s.cycles = n) (h : Awaited e count s) : Attends e asked n count s .testing
  | ahead (t : Loop) (hcycle : s.cycles = n + 1) (h : Awaited e count s) (ht : t.Ahead asked) :
      Attends e asked n count s t
  | batched (t : Loop) (hcycle : s.cycles = n + 1) (hmem : e.id ∈ t.batch)
      (hcount : s.wheel.history.count (.started e.id) = count) : Attends e asked n count s t
  | started (t : Loop) (hcycle : s.cycles = n + 1) (ht : t.Behind) (hout : e.id ∉ t.batch)
      (hcount : s.wheel.history.count (.started e.id) = count + 1) : Attends e asked n count s t
  | later (t : Loop) (hcycle : n + 1 < s.cycles) : Attends e asked n count s t
  | ended : Attends e asked n count s .returned

section Service

variable {start asked : Instant} {n count : ℕ} {s s' : Shared} {t : Loop} {t' : Thread}
  {l l' : List Thread} {e : TimerEntry}

theorem Awaited.congr (h : Awaited e count s) (hwheel : s'.wheel = s.wheel) : Awaited e count s' := by
  obtain ⟨hlive, hcursor, hstarted⟩ := h
  constructor <;> rwa [hwheel]

/-- A batch has each timer once. -/
theorem notMem_of_firing {wheel : TimerWheel.Shared} {entry : TimerEntry}
    {expired toReschedule : List TimerEntry} {r r' : List Call}
    (h : Owned ⟨wheel, r ++ .firing (entry :: expired) toReschedule :: r'⟩) :
    entry.id ∉ expired.map TimerEntry.id := by
  have hid : entry.id ∈ (Call.firing (entry :: expired) toReschedule).held :=
    mem_held_of_marked List.mem_cons_self
  have hone := (h.held hid).1
  simp only [Call.holdings, Call.held, Call.unmarked, Call.marked, List.nil_append,
    List.cons_append, List.map_cons, List.map_append, List.count_cons_self,
    List.count_append] at hone
  exact List.count_eq_zero.1 (by omega)

/-! ## The loop -/

/-- A call of the wheel goes on with the timer in its batch. -/
theorem Attends.call {call call' : Call} {wheel : TimerWheel.Shared}
    (h : Attends e asked n count s (.ticking call))
    (howned : Owned (wheelState ⟨s, l ++ .loop (.ticking call) :: l'⟩))
    (hreach : ∀ now, call = .ticking now → asked ≤ now → Awaited e count s →
      e.id ∈ (s.wheel.inner.advanceTo now).1.map TimerEntry.id)
    (hacts : TimerWheel.Acts s.wheel call wheel call')
    (hproceed : TimerWheel.proceed s.wheel call .returns = some (wheel, call')) :
    Attends e asked n count { s with wheel } (.ticking call') := by
  rw [wheelState_at] at howned
  cases h with
  | ahead _ hcycle hawaited ht =>
    cases hacts with
    | advance now =>
      refine .batched _ hcycle ?_ hawaited.started
      simpa [Loop.batch, Call.batch, Call.pending] using hreach now rfl ht hawaited
    | _ => cases ht
  | batched _ hcycle hmem hcount =>
    cases hacts with
    | schedule | advance | noneDue | rearm => simp [Loop.batch, Call.batch, Call.pending] at hmem
    | mark expired => exact .batched _ hcycle (by simpa [Loop.batch, Call.batch, Call.pending] using hmem) hcount
    | callbackReturns entry expired toReschedule => exact .batched _ hcycle hmem hcount
    | callbackPanics => cases hproceed
    | start entry expired toReschedule =>
      have hmem : e.id = entry.id ∨ e.id ∈ expired.map TimerEntry.id := by
        simpa [Loop.batch, Call.batch, Call.pending] using hmem
      have hout : entry.id ∉ expired.map TimerEntry.id := notMem_of_firing howned
      by_cases hid : e.id = entry.id
      · exact .started _ hcycle trivial (hid ▸ hout) (by simp [hid, ← hcount])
      · have hne : TimerWheel.Event.started entry.id ≠ .started e.id := fun heq =>
          hid (TimerWheel.Event.started.inj heq).symm
        refine .batched _ hcycle (hmem.resolve_left hid) ?_
        simp [hne, hcount]
  | started _ hcycle ht hout hcount =>
    cases hacts with
    | schedule | advance | noneDue | mark => cases ht
    | start entry expired toReschedule =>
      have hout : e.id ≠ entry.id ∧ e.id ∉ expired.map TimerEntry.id := by
        simpa [Loop.batch, Call.batch, Call.pending] using hout
      have hne : TimerWheel.Event.started entry.id ≠ .started e.id := fun heq =>
        hout.1 (TimerWheel.Event.started.inj heq).symm
      exact .started _ hcycle trivial hout.2 (by simp [hne, hcount])
    | rearm => exact .started _ hcycle trivial (by simp [Loop.batch, Call.batch, Call.pending]) hcount
    | callbackReturns entry expired toReschedule => exact .started _ hcycle trivial hout hcount
    | callbackPanics => cases hproceed
  | later _ hcycle => exact .later _ hcycle

/-- The loop goes on. -/
theorem Attends.own (h : Attends e asked n count s t)
    (howned : Owned (wheelState ⟨s, l ++ .loop t :: l'⟩)) (hasked : asked ≤ s.wheel.clock)
    (hreach : ∀ now, t = .ticking (.ticking now) → asked ≤ now → Awaited e count s →
      e.id ∈ (s.wheel.inner.advanceTo now).1.map TimerEntry.id)
    (hacts : Acts s (.loop t) s' t') : ∃ t'', t' = .loop t'' ∧ Attends e asked n count s' t'' := by
  cases hacts with
  | store =>
    cases h with
    | later _ hcycle => exact ⟨_, rfl, .later _ hcycle⟩
    | ahead _ _ _ ht | started _ _ ht => cases ht
    | batched _ _ hmem => cases hmem
  | begin hrunning =>
    cases h with
    | testing hcycle hawaited =>
      exact ⟨_, rfl, .ahead _ (congrArg (· + 1) hcycle) (hawaited.congr rfl) trivial⟩
    | started _ hcycle | later _ hcycle =>
      exact ⟨_, rfl, .later _ (by simp only; omega)⟩
    | ahead _ _ _ ht => cases ht
    | batched _ _ hmem => cases hmem
  | finish | pollFails | dispatchFails | panic => exact ⟨_, rfl, .ended⟩
  | evaluate =>
    obtain ⟨earliest, hframe⟩ := s.wheel.inner.timeUntilNext_frame s.wheel.clock
    cases h with
    | ahead _ hcycle hawaited =>
      refine ⟨_, rfl, .ahead _ hcycle ?_ trivial⟩
      obtain ⟨hlive, hcursor, hstarted⟩ := hawaited
      simp only [hframe]
      exact ⟨hlive, hcursor, hstarted⟩
    | later _ hcycle => exact ⟨_, rfl, .later _ hcycle⟩
    | batched _ _ hmem => cases hmem
    | started _ _ ht => cases ht
  | poll | report | dispatch =>
    cases h with
    | ahead _ hcycle hawaited => exact ⟨_, rfl, .ahead _ hcycle (hawaited.congr rfl) trivial⟩
    | later _ hcycle => exact ⟨_, rfl, .later _ hcycle⟩
    | batched _ _ hmem => cases hmem
    | started _ _ ht => cases ht
  | tick =>
    cases h with
    | ahead _ hcycle hawaited => exact ⟨_, rfl, .ahead _ hcycle hawaited hasked⟩
    | later _ hcycle => exact ⟨_, rfl, .later _ hcycle⟩
    | batched _ _ hmem => cases hmem
    | started _ _ ht => cases ht
  | ticked =>
    cases h with
    | started _ hcycle _ _ hcount => exact ⟨_, rfl, .started _ hcycle trivial nofun hcount⟩
    | later _ hcycle => exact ⟨_, rfl, .later _ hcycle⟩
    | batched _ _ hmem => cases hmem
    | ahead _ _ _ ht => cases ht
  | advance call call' wheel hcall hproceed =>
    refine ⟨_, rfl, h.call howned (fun now hnow => hreach now (hnow ▸ rfl)) hcall hproceed⟩

/-! ## The others -/

/-- While the loop is in progress the others leave the live timers and their starts alone. -/
theorem Attends.keep (h : Attends e asked n count s t) (hcycles : s'.cycles = s.cycles)
    (hcursor : s'.wheel.inner.currentTick = s.wheel.inner.currentTick)
    (hlive : s.wheel.inner.lookup e.id = some e → s'.wheel.inner.lookup e.id = some e)
    (hcount : s'.wheel.history.count (.started e.id) = s.wheel.history.count (.started e.id)) :
    Attends e asked n count s' t := by
  have hawaited : Awaited e count s → Awaited e count s' := fun ha =>
    ⟨hlive ha.live, hcursor.trans_le ha.cursor, hcount.trans ha.started⟩
  cases h with
  | testing hcycle ha => exact .testing (hcycles.trans hcycle) (hawaited ha)
  | ahead _ hcycle ha ht => exact .ahead _ (hcycles.trans hcycle) (hawaited ha) ht
  | batched _ hcycle hmem hc => exact .batched _ (hcycles.trans hcycle) hmem (hcount.trans hc)
  | started _ hcycle ht hout hc =>
    exact .started _ (hcycles.trans hcycle) ht hout (hcount.trans hc)
  | later _ hcycle => exact .later _ (hcycles ▸ hcycle)
  | ended => exact .ended

theorem Attends.enter {id : Input} {ts : List Thread} (h : Attends e asked n count s t)
    (hkeeps : id ≠ .cancel e.id) (he : enter s id = some (s', ts)) :
    Attends e asked n count s' t := by
  cases id with
  | run =>
    simp only [Reactor.enter] at he
    split at he <;> cases he
    exact h.keep rfl rfl (fun hlive => hlive) rfl
  | schedule request | stop | elapse d =>
    cases he
    exact h.keep rfl rfl (fun hlive => hlive) rfl
  | cancel id =>
    cases he
    have hne : e.id ≠ id := fun hid => hkeeps (hid ▸ rfl)
    refine h.keep rfl WheelInner.cancel_currentTick (fun hlive => ?_) (by simp [TimerWheel.enter])
    simpa only [TimerWheel.enter, WheelInner.cancel_lookup, if_neg hne] using hlive

theorem Attends.other {t₂ : Thread} (h : Attends e asked n count s t)
    (howned : Owned (wheelState ⟨s, l ++ t₂ :: l'⟩)) (hout : t₂.loops = 0)
    (hacts : Acts s t₂ s' t') : Attends e asked n count s' t := by
  cases hacts with
  | insert id request wheel hcall =>
    generalize hdone : Call.done = call at hcall
    rw [wheelState_at] at howned
    cases hcall with
    | schedule =>
      obtain ⟨f, rfl, -, heq⟩ := schedule_eq_insertEntry s.wheel.inner id request s.wheel.clock
      refine h.keep rfl (by simp only [heq, WheelInner.insertEntry_currentTick]) (fun hlive => ?_)
        (by simp)
      have hne : e.id ≠ f.id := by
        intro hid
        have hheld : f.id ∈ (Call.scheduling f.id request).held :=
          mem_held_of_unmarked List.mem_cons_self
        have hdead := (howned.held hheld).2.2
        rw [← hid, hlive] at hdead
        cases hdead
      simpa only [heq, WheelInner.insertEntry_lookup, if_neg hne] using hlive
  | wake | stopStore | stopWake => exact h.keep rfl rfl (fun hlive => hlive) rfl
  | _ => cases hout

/-! ## Runs -/

/-- The tick of a loop takes what was due when its cycle began. -/
theorem due_collected {ok : State → Step → Prop} {pollTimeoutMs : ℕ} {as : List Step} {s : State}
    {now : Instant} (h : Run system.step ok (initial start pollTimeoutMs) as s)
    (hids : s.shared.wheel.nextId ≤ 2 ^ 64)
    (hfits : asMillis (s.shared.wheel.clock - start) < 2 ^ 64)
    (hdue : e.deadlineTick < asMillis (asked - start))
    (hmem : .loop (.ticking (.ticking now)) ∈ s.threads) (hasked : asked ≤ now)
    (ha : Awaited e count s.shared) :
    e.id ∈ (s.shared.wheel.inner.advanceTo now).1.map TimerEntry.id := by
  obtain ⟨bs, w, hrun, hmirrors⟩ := mirrors_of_run h
  have hst := steady_of_run (serial_of_run hrun (hmirrors.shared ▸ hids))
  have hcall : .ticking now ∈ w.threads := by
    refine List.mem_of_mem_filter (hmirrors.calls.mem_iff.2 ?_)
    exact List.mem_filter.2 ⟨List.mem_map.2 ⟨_, hmem, rfl⟩, rfl⟩
  obtain ⟨-, hread⟩ := hst.paced.reading _ hcall now rfl
  have htick : e.deadlineTick < w.shared.inner.instantToTick now := by
    rw [hmirrors.shared] at hread
    have hlater := WheelInner.asMillis_sub_mono start hasked
    have hearlier := WheelInner.asMillis_sub_mono start hread
    rw [WheelInner.instantToTick_of_lt hst.paced.startTime (by omega)]
    omega
  obtain ⟨j, hj⟩ := List.mem_iff_getElem?.1 hcall
  have hlive := ha.live
  have hcursor := ha.cursor
  rw [← hmirrors.shared] at hlive hcursor ⊢
  obtain ⟨-, -, -, -, hcollected⟩ :=
    hst.collects hj hlive (WheelInner.reaches_of_lt hcursor htick) .returns
  exact hcollected

theorem Attends.step {s u : State} {a : Step} {i : ℕ} (h : Attends e asked n count s.shared t)
    (hr : Regular s) (hids : s.shared.wheel.nextId ≤ 2 ^ 64) (hasked : asked ≤ s.shared.wheel.clock)
    (hreach : ∀ now, .loop (.ticking (.ticking now)) ∈ s.threads → asked ≤ now →
      Awaited e count s.shared → e.id ∈ (s.shared.wheel.inner.advanceTo now).1.map TimerEntry.id)
    (ht : s.threads[i]? = some (.loop t)) (hkeeps : Keeps e.id s a)
    (hs : system.step s a = some u) :
    ∃ t', u.threads[i]? = some (.loop t') ∧ Attends e asked n count u.shared t' := by
  obtain ⟨x, threads⟩ := s
  by_cases hloops : (Thread.loop t).loops = 1
  · cases a with
    | env id =>
      obtain ⟨⟨y, ts⟩, he, rfl⟩ := Machine.step_env_iff.1 hs
      obtain ⟨hi, -⟩ := List.getElem?_eq_some_iff.1 ht
      exact ⟨t, (List.getElem?_append_left hi).trans ht,
        h.enter (fun hid => hkeeps (congrArg Action.env hid)) he⟩
    | act j o =>
      obtain ⟨t₂, ⟨y, t'⟩, ht₂, hact, rfl⟩ := Machine.step_act_iff.1 hs
      obtain ⟨l, l', hts, hlength, hset⟩ := Machine.split_at ht₂
      obtain rfl : threads = l ++ t₂ :: l' := hts
      obtain rfl | hne := eq_or_ne i j
      · obtain rfl : t₂ = .loop t := Option.some.inj (ht₂.symm.trans ht)
        obtain ⟨t'', rfl, hattends⟩ := h.own (hr.owned hids) hasked
          (fun now hnow => hreach now (hnow ▸ List.mem_of_getElem? ht)) (acts_of_proceed hact)
        obtain ⟨hi, -⟩ := List.getElem?_eq_some_iff.1 ht
        exact ⟨t'', List.getElem?_set_self hi, hattends⟩
      · have hmem : .loop t ∈ l ++ l' := Machine.mem_others (hlength ▸ hne) ht
        have hout : t₂.loops = 0 := by
          by_contra hbusy
          have hone : t₂.loops = 1 := by
            cases t₂ with
            | loop t₂ => cases t₂ <;> first | rfl | exact absurd rfl hbusy
            | schedule | stop => exact absurd rfl hbusy
          cases hloops.symm.trans (hr.others hone _ hmem)
        exact ⟨t, (List.getElem?_set_ne hne.symm).trans ht,
          h.other (hr.owned hids) hout (acts_of_proceed hact)⟩
  · obtain rfl : t = .returned := by
      cases t <;> first | rfl | exact absurd rfl hloops
    rcases Machine.step_getElem? hs ht with ⟨o, r, -, hact, -⟩ | hstill
    · cases hact
    · exact ⟨_, hstill, .ended⟩

end Service

end Reactor
