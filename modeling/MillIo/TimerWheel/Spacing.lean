-- SUMMARY: A repeating timer runs at most once in a tick, and its runs are at least an interval apart, in every run and on both paths of an advance.
import MillIo.TimerWheel.Waiting
import MillIo.TimerWheel.Wraparound

/-!
# The spacing of a repeating timer

After the start of its callback a repeating timer is first with the tick that runs it,
then in the wheel with a deadline counted from a clock reading after the callback, and
it comes to run again when the cursor has passed that deadline. So a late tick makes up
for nothing: what was missed is not run.
-/
namespace TimerWheel

open Interleaving WheelInner

/-- The tick has the entry of the timer among those that it runs or re-arms. -/
def Serving (k : ℕ) (id : TimerId) (interval : Duration) (s : State) : Prop :=
  ∃ t, s.threads[k]? = some t ∧ ∃ e ∈ t.marked, e.id = id ∧ e.kind = .repeating interval

/-- The tick has taken its batch, and no run of the timer is left in it. -/
def Spent (k : ℕ) (id : TimerId) (s : State) : Prop :=
  ∃ t, s.threads[k]? = some t ∧ t.unmarked = [] ∧ (∀ now, t ≠ .ticking now) ∧
    ∀ e ∈ t.pending, e.id ≠ id

/-- What becomes of a timer after a start in the tick: the tick serves it, or it waits for
    the tick `next` or later, or the cursor has got there. -/
def Rests (k : ℕ) (id : TimerId) (interval : Duration) (next : ℕ) (s : State) : Prop :=
  Serving k id interval s ∨ Waits (fun e => next ≤ e.deadlineTick) id s ∨
    next ≤ s.shared.inner.currentTick

section Rearm

variable {w : WheelInner} {e f : TimerEntry} {es : List TimerEntry} {now : Instant}
  {interval : Duration}

/-- A repeating timer that is live again after a re-arming waits for a deadline made from
    the clock reading of the re-arming. -/
theorem rearmAll_deadline (hes : (es.map TimerEntry.id).Nodup) (he : e ∈ es)
    (hkind : e.kind = .repeating interval) (hdead : w.lookup e.id = none)
    (hf : (w.rearmAll now es).lookup e.id = some f) :
    f.deadlineTick = w.deadlineFor now interval := by
  induction es generalizing w with
  | nil => cases he
  | cons g es ih =>
    obtain ⟨hg, hes⟩ := List.nodup_cons.1 hes
    rw [rearmAll_cons] at hf
    rcases List.mem_cons.1 he with rfl | he
    · rw [rearmAll_lookup_of_notMem hg] at hf
      rcases rearm_cases now w e with ⟨-, hc⟩ | ⟨-, hc, -⟩ | ⟨-, i, hrep, hc⟩
      · rw [hc] at hf
        cases hdead.symm.trans hf
      · cases hkind.symm.trans hc
      · cases hkind.symm.trans hrep
        rw [hc, insertEntry_lookup, if_pos rfl] at hf
        exact (congrArg TimerEntry.deadlineTick (Option.some.inj hf)).symm
    · have hne : e.id ≠ g.id := fun heq => hg (heq ▸ List.mem_map_of_mem he)
      have hsame := ih hes he ((rearm_lookup_of_ne hne).trans hdead) hf
      exact hsame.trans (deadlineFor_of_startTime rearm_startTime)

end Rearm

section Spacing

variable {start now : Instant} {s u v : State} {a : Step} {x y : Shared} {t t' : Call}
  {l l' : List Call} {id : TimerId} {interval : Duration} {k next : ℕ} {as bs : List Step}

/-! ## The tick of the first run -/

theorem Spent.step (h : Spent k id s) (hs : serial.step s a = some u) : Spent k id u := by
  obtain ⟨t, ht, hunmarked, hticking, hpending⟩ := h
  rcases Machine.step_getElem? hs ht with ⟨o, ⟨y, t'⟩, -, hr, -, ht'⟩ | ht'
  · refine ⟨t', ht', ?_⟩
    cases acts_of_proceed hr with
    | schedule => cases hunmarked
    | advance now => exact (hticking now rfl).elim
    | noneDue => exact ⟨rfl, nofun, nofun⟩
    | mark expired =>
      obtain rfl := List.map_eq_nil_iff.1 hunmarked
      exact ⟨rfl, nofun, nofun⟩
    | start entry expired toReschedule =>
      exact ⟨rfl, nofun, fun e he => hpending e (List.mem_cons_of_mem _ he)⟩
    | rearm => exact ⟨rfl, nofun, nofun⟩
    | callbackReturns => exact ⟨rfl, nofun, hpending⟩
    | callbackPanics => exact ⟨rfl, nofun, nofun⟩
  · exact ⟨t, ht', hunmarked, hticking, hpending⟩

/-- The tick goes on with the timer until it re-arms it, or drops it. -/
theorem Serving.act {e : TimerEntry} (hst : Steady start ⟨x, l ++ t :: l'⟩) (he : e ∈ t.marked)
    (hid : e.id = id) (hkind : e.kind = .repeating interval) (hacts : Acts x t y t')
    (hfits : asMillis (x.clock - start) + asMillis interval < 2 ^ 64)
    (hnext : next ≤ asMillis (x.clock - start) + asMillis interval) :
    (∃ e ∈ t'.marked, e.id = id ∧ e.kind = .repeating interval) ∨
      Waits (fun e => next ≤ e.deadlineTick) id ⟨y, l ++ t' :: l'⟩ := by
  have hheld : id ∈ t.held := hid ▸ mem_held_of_marked he
  obtain ⟨-, hothers, hdead⟩ := hst.owned.held hheld
  have hdrawn := hst.owned.lt_nextId hheld
  -- Nobody has the timer once the tick is done.
  have hfree : ∀ t'' ∈ l ++ .done :: l', id ∉ t''.held :=
    Machine.forall_threads_at.2 ⟨notMem_held_done, fun t'' ht'' =>
      notMem_held_of_total hothers ht''⟩
  cases hacts with
  | schedule => cases he
  | advance => cases he
  | noneDue => cases he
  | mark => cases he
  | start entry expired toReschedule => exact .inl ⟨e, he, hid, hkind⟩
  | rearm toReschedule =>
    refine .inr ⟨fun f hf => ?_, hfree, hdrawn⟩
    subst hid
    have htick := instantToTick_of_lt hst.paced.startTime
      (Nat.lt_of_le_of_lt (Nat.le_add_right _ _) hfits)
    have hdeadline := rearmAll_deadline hst.owned.nodup_rearm he hkind hdead hf
    rw [deadlineFor_eq (by rwa [htick]), htick] at hdeadline
    exact hnext.trans_eq hdeadline.symm
  | callbackReturns entry expired toReschedule =>
    refine .inl ⟨e, ?_, hid, hkind⟩
    have hrep : e.kind.isRepeating = true := by rw [hkind]; rfl
    simp only [Call.marked, List.mem_cons, List.mem_append] at he ⊢
    rcases he with rfl | he | he
    · simp [hrep]
    · exact .inl he
    · right
      split
      · exact List.mem_append_left _ he
      · exact he
  | callbackPanics =>
    refine .inr ⟨fun f hf => ?_, hfree, hdrawn⟩
    cases hdead.symm.trans hf

theorem Serving.step (h : Serving k id interval s) (hst : Steady start s)
    (hs : serial.step s a = some u)
    (hfits : asMillis (s.shared.clock - start) + asMillis interval < 2 ^ 64)
    (hnext : next ≤ asMillis (s.shared.clock - start) + asMillis interval) :
    Serving k id interval u ∨ Waits (fun e => next ≤ e.deadlineTick) id u := by
  obtain ⟨t, ht, e, he, hid, hkind⟩ := h
  rcases Machine.step_getElem? hs ht with ⟨o, ⟨y, t'⟩, rfl, hr, -, ht'⟩ | ht'
  · obtain ⟨x, threads⟩ := s
    obtain ⟨l, l', hts, rfl, hset⟩ := Machine.split_at ht
    obtain rfl : threads = l ++ t :: l' := hts
    have hu := (Machine.step_act_at rfl hr).symm.trans hs
    cases Option.some.inj hu
    exact (Serving.act hst he hid hkind (acts_of_proceed hr) hfits hnext).imp_left
      fun hserve => ⟨t', ht', hserve⟩
  · exact .inl ⟨t, ht', e, he, hid, hkind⟩

/-! ## Until the next run -/

theorem Rests.step (h : Rests k id interval next s) (hst : Steady start s)
    (hs : serial.step s a = some u)
    (hfits : asMillis (s.shared.clock - start) + asMillis interval < 2 ^ 64)
    (hnext : next ≤ asMillis (s.shared.clock - start) + asMillis interval) :
    Rests k id interval next u := by
  rcases h with hserve | hwaits | hpassed
  · exact (hserve.step hst hs hfits hnext).imp_right .inl
  · rcases hwaits.step hst.owned.keyed hs with hwaits | ⟨now, hc⟩
    · exact .inr (.inl hwaits)
    · -- The advance that collects the timer has reached its deadline.
      obtain ⟨e, he, hreach⟩ := hst.reaches hc
      refine .inr (.inr ?_)
      rw [hc.currentTick hs]
      exact Nat.le_trans (Nat.le_trans (hwaits.entry e he) hreach.le) (Nat.le_max_right _ _)
  · exact .inr (.inr (Nat.le_trans hpassed (hst.owned.cursor_mono hs).1))

/-- A tick that has the timer in its batch comes after the rest. -/
theorem Rests.passed_of_pending (h : Rests k id interval next s) (hst : Steady start s)
    (hspent : Spent k id s) {j : ℕ} (ht : s.threads[j]? = some t) {e : TimerEntry}
    (he : e ∈ t.pending) (hid : e.id = id) :
    j ≠ k ∧ next ≤ s.shared.inner.currentTick := by
  have hne : j ≠ k := by
    rintro rfl
    obtain ⟨t', ht', -, -, hpending⟩ := hspent
    obtain rfl := Option.some.inj (ht.symm.trans ht')
    exact hpending e he hid
  have hmarked : e ∈ t.marked := by
    cases t with
    | firing => exact List.mem_append_left _ he
    | running => exact List.mem_cons_of_mem _ (List.mem_append_left _ he)
    | _ => cases he
  have hheld : id ∈ t.held := hid ▸ mem_held_of_marked hmarked
  refine ⟨hne, ?_⟩
  rcases h with ⟨t', ht', f, hf, hfid, -⟩ | hwaits | hpassed
  · -- Two ticks would hold the timer.
    obtain ⟨x, threads⟩ := s
    obtain ⟨l, l', hts, hlen, -⟩ := Machine.split_at ht
    obtain rfl : threads = l ++ t :: l' := hts
    have hothers := (hst.owned.held hheld).2.1
    subst hlen
    have hout := notMem_held_of_total hothers (Machine.mem_others hne.symm ht')
    exact absurd (hfid ▸ mem_held_of_marked hf) hout
  · exact absurd hheld (hwaits.free t (List.mem_of_getElem? ht))
  · exact hpassed

/-- The advance that collects the timer comes after the rest. -/
theorem Rests.passed_of_collects (h : Rests k id interval next s) (hst : Steady start s)
    (hc : Collects id now s a) : next ≤ s.shared.inner.instantToTick now := by
  obtain ⟨e, he, hreach⟩ := hst.reaches hc
  rcases h with ⟨t, ht, f, hf, hfid, -⟩ | hwaits | hpassed
  · have hout := notMem_held_of_total (hst.owned.live he) (List.mem_of_getElem? ht)
    exact absurd (hfid ▸ mem_held_of_marked hf) hout
  · exact Nat.le_trans (hwaits.entry e he) hreach.le
  · exact Nat.le_trans hpassed hreach.cursor_lt.le

/-! ## Runs -/

/-- What is known after a start of the timer at a clock reading. -/
structure Ran (start : Instant) (k : ℕ) (id : TimerId) (interval : Duration) (clock : Instant)
    (s : State) : Prop where
  since : clock ≤ s.shared.clock
  spent : Spent k id s
  rests : Rests k id interval (asMillis (clock - start) + asMillis interval) s

/-- The tick that starts the callback serves the timer, and has it once only. -/
theorem ran_of_start {entry : TimerEntry} {expired toReschedule : List TimerEntry}
    (hst : Steady start s) (hstart : s.threads[k]? = some (.firing (entry :: expired) toReschedule))
    (hkind : entry.kind = .repeating interval) (hs : serial.step s (.act k .returns) = some u) :
    Ran start k entry.id interval s.shared.clock u := by
  obtain ⟨x, threads⟩ := s
  obtain ⟨l, l', hts, rfl, hset⟩ := Machine.split_at hstart
  obtain rfl : threads = l ++ .firing (entry :: expired) toReschedule :: l' := hts
  have hheld : entry.id ∈ (Call.firing (entry :: expired) toReschedule).held :=
    mem_held_of_marked List.mem_cons_self
  have honce := (hst.owned.held hheld).1
  have hu := (Machine.step_act_at (m := serial) rfl rfl).symm.trans hs
  cases Option.some.inj hu
  refine ⟨Nat.le_refl _, ⟨.running entry expired toReschedule, by simp, rfl, nofun,
    fun e he heq => ?_⟩, .inl ⟨.running entry expired toReschedule, by simp, entry,
    List.mem_cons_self, rfl, hkind⟩⟩
  simp only [Call.holdings, Call.held, Call.unmarked, Call.marked, List.nil_append, List.cons_append,
    List.map_cons, List.count_cons_self, List.map_append, List.count_append] at honce
  have hpos : 0 < (expired.map TimerEntry.id).count entry.id :=
    List.count_pos_iff.2 (heq ▸ List.mem_map_of_mem he)
  omega

theorem ran_of_run {clock : Instant}
    (hu : ∀ bs v, Run serial.step Unrestricted u bs v → Steady start v)
    (hran : Ran start k id interval clock u) (hv : Run serial.step Unrestricted u bs v)
    (hfits : asMillis (v.shared.clock - start) + asMillis interval < 2 ^ 64) :
    Ran start k id interval clock v := by
  induction hv with
  | refl => exact hran
  | snoc hr _ hs ih =>
    have hst := hu _ _ hr
    have hclock := (hst.owned.cursor_mono hs).2
    have hmillis := asMillis_sub_mono start hclock
    have hfits := Nat.lt_of_le_of_lt (Nat.add_le_add_right hmillis _) hfits
    have hran := ih hfits
    refine ⟨Nat.le_trans hran.since hclock, hran.spent.step hs, hran.rests.step hst hs hfits ?_⟩
    exact Nat.add_le_add_right (asMillis_sub_mono _ hran.since) _

/-- After a run of a repeating timer, the next one is in another tick, at a clock tick at
    least an interval later, and already the reading of that tick is as late. -/
theorem repeating_spaced {entry : TimerEntry} {expired toReschedule : List TimerEntry}
    (h : Run system.step Unrestricted (initial start) as s)
    (hstart : s.threads[k]? = some (.firing (entry :: expired) toReschedule))
    (hkind : entry.kind = .repeating interval) (hs : system.step s (.act k .returns) = some u)
    (hv : Run system.step Unrestricted u bs v) (hids : v.shared.nextId ≤ 2 ^ 64)
    (hfits : asMillis (v.shared.clock - start) + asMillis interval < 2 ^ 64) :
    (∀ j entry' expired' toReschedule',
      v.threads[j]? = some (.firing (entry' :: expired') toReschedule') → entry'.id = entry.id →
      j ≠ k ∧ s.shared.inner.instantToTick s.shared.clock + asMillis interval ≤
        v.shared.inner.instantToTick v.shared.clock) ∧
    ∀ now a, Collects entry.id now v a →
      s.shared.inner.instantToTick s.shared.clock + asMillis interval ≤
        v.shared.inner.instantToTick now := by
  obtain ⟨h, hs, hv⟩ := serial_of_runs h hs hv hids
  have hst := steady_of_run h
  have hu : ∀ bs v, Run serial.step Unrestricted u bs v → Steady start v := fun bs v hv =>
    steady_of_run ((h.snoc trivial hs).trans hv)
  have hstv := hu bs v hv
  have hran := ran_of_run hu (ran_of_start hst hstart hkind hs) hv hfits
  have hnext : s.shared.inner.instantToTick s.shared.clock ≤ asMillis (s.shared.clock - start) :=
    instantToTick_le hst.paced.startTime (Nat.le_refl _)
  have htick := instantToTick_of_lt hstv.paced.startTime
    (Nat.lt_of_le_of_lt (Nat.le_add_right _ _) hfits)
  refine ⟨fun j entry' expired' toReschedule' ht hid => ?_, fun now a hc => ?_⟩
  · obtain ⟨hne, hpassed⟩ :=
      hran.rests.passed_of_pending hstv hran.spent ht List.mem_cons_self hid
    refine ⟨hne, ?_⟩
    rw [htick]
    exact Nat.le_trans (Nat.add_le_add_right hnext _) (Nat.le_trans hpassed hstv.paced.reached)
  · exact Nat.le_trans (Nat.add_le_add_right hnext _) (hran.rests.passed_of_collects hstv hc)

/-- The tick is between two callbacks, with these entries still to run and to re-arm. -/
def Call.between : Call → Option (List TimerEntry × List TimerEntry)
  | .firing expired toReschedule => some (expired, toReschedule)
  | _ => none

theorem firing_of_between {ts : List Call} {expired toReschedule : List TimerEntry}
    (h : ts[k]?.bind Call.between = some (expired, toReschedule)) :
    ts[k]? = some (.firing expired toReschedule) := by
  obtain ⟨t, ht, hbetween⟩ := Option.bind_eq_some_iff.1 h
  cases t with
  | firing =>
    cases hbetween
    exact ht
  | _ => cases hbetween

/-- A timer of one millisecond that runs two and four milliseconds after the start. -/
theorem repeating_spaced_twice : ∃ s u v,
    Run system.step Unrestricted (initial 0) [.env (.schedule (.repeating 1000000)),
      .act 0 .returns, .env (.elapse 2000000), .env .tick, .act 1 .returns, .act 1 .returns] s ∧
    system.step s (.act 1 .returns) = some u ∧
    Run system.step Unrestricted u [.act 1 .returns, .act 1 .returns, .env (.elapse 2000000),
      .env .tick, .act 2 .returns, .act 2 .returns] v ∧
    s.shared.inner.instantToTick s.shared.clock + asMillis 1000000 ≤
      v.shared.inner.instantToTick v.shared.clock := by
  obtain ⟨s, hrun, hstart, u, hs, v, hv, hnext, hids, hclock⟩ : ∃ s,
      Run system.step Unrestricted (initial 0) [.env (.schedule (.repeating 1000000)),
        .act 0 .returns, .env (.elapse 2000000), .env .tick, .act 1 .returns, .act 1 .returns] s ∧
      s.threads[1]?.bind Call.between = some ([⟨1, 1, .repeating 1000000⟩], []) ∧
      ∃ u ∈ system.step s (.act 1 .returns),
        ∃ v ∈ exec system.step Unrestricted u [.act 1 .returns, .act 1 .returns,
          .env (.elapse 2000000), .env .tick, .act 2 .returns, .act 2 .returns],
        v.threads[2]?.bind Call.between = some ([⟨1, 3, .repeating 1000000⟩], []) ∧
        v.shared.nextId ≤ 2 ^ 64 ∧ v.shared.clock = 4000000 := Run.exists_of_exec (by decide +kernel)
  have hv := Run.of_exec hv
  have hfits : asMillis (v.shared.clock - 0) + asMillis 1000000 < 2 ^ 64 := by
    rw [hclock]
    decide
  have hspaced := repeating_spaced hrun (firing_of_between hstart) rfl hs hv hids hfits
  exact ⟨s, u, v, hrun, hs, hv, (hspaced.1 2 _ _ _ (firing_of_between hnext) rfl).2⟩

/-- A timer due at 50 ms is live when its id is drawn again, by a repeating one of 100 ms. That one
    is found in the slots of both, so its callback starts at 51 ms and again at 101 ms. -/
theorem repeats_early_of_wraparound : ∃ (as bs : List Step) (s u v : State) (k j : ℕ)
    (entry entry' : TimerEntry),
    Run system.step Unrestricted (initial 0) as s ∧
    s.threads[k]? = some (.firing [entry] []) ∧ entry.kind = .repeating (fromMillis 100) ∧
    system.step s (.act k .returns) = some u ∧ Run system.step Unrestricted u bs v ∧
    v.threads[j]? = some (.firing [entry'] []) ∧ entry'.id = entry.id ∧
    s.shared.inner.instantToTick s.shared.clock = 51 ∧
    v.shared.inner.instantToTick v.shared.clock = 101 := by
  obtain ⟨r, hrun, s, hs, hstart, hfirst, u, hu, v, hv, hagain, hsecond⟩ : ∃ r,
      Run system.step Unrestricted (initial 0)
        [.env (.schedule (.once (fromMillis 50))), .act 0 .returns] r ∧
      ∃ s ∈ exec system.step Unrestricted
          ⟨{ r.shared with nextId := r.shared.nextId + (2 ^ 64 - 1) }, []⟩
          [.env (.schedule (.repeating (fromMillis 100))), .act 0 .returns,
            .env (.elapse (fromMillis 51)), .env .tick, .act 1 .returns, .act 1 .returns],
        s.threads[1]?.bind Call.between = some ([⟨1, 100, .repeating (fromMillis 100)⟩], []) ∧
        s.shared.inner.instantToTick s.shared.clock = 51 ∧
        ∃ u ∈ system.step s (.act 1 .returns),
          ∃ v ∈ exec system.step Unrestricted u [.act 1 .returns, .act 1 .returns,
            .env (.elapse (fromMillis 50)), .env .tick, .act 2 .returns, .act 2 .returns],
          v.threads[2]?.bind Call.between = some ([⟨1, 151, .repeating (fromMillis 100)⟩], []) ∧
          v.shared.inner.instantToTick v.shared.clock = 101 :=
    Run.exists_of_exec (by decide +kernel)
  obtain ⟨pre, -, hafter⟩ := exists_run_after_draws unhindered_unrestricted hrun (2 ^ 64 - 1)
  obtain ⟨as, has⟩ := hafter _ s (Run.of_exec hs)
  have hrest := Machine.run_behind pre (unhindered_unrestricted.behind pre) (Run.of_exec hv)
  exact ⟨as, _, _, _, _, pre.length + 1, pre.length + 2, _, _, has,
    (Machine.getElem?_behind pre _ 1).trans (firing_of_between hstart), rfl,
    Machine.step_behind pre hu, hrest,
    (Machine.getElem?_behind pre _ 2).trans (firing_of_between hagain), rfl, hfirst, hsecond⟩

end Spacing

end TimerWheel
