-- SUMMARY: When rounding to milliseconds lets a timer fire before its delay has passed, for every run and on both paths of an advance.
import MillIo.TimerWheel.Waiting

/-!
# Timers in real time

The instant of a schedule, its delay and the reading of a tick are rounded down to
milliseconds one by one. The two parts that are dropped from a deadline may add up to
more than what is dropped from the reading, so at the first tick that fires a timer
the callback may run too early. The walk fires from the tick after the deadline on, a
jump from the deadline itself.
-/
namespace TimerWheel

open Interleaving WheelInner

/-- The nanoseconds that `as_millis` drops. -/
def belowMillis (d : Duration) : ℕ := d % 1000000

/-- A timer scheduled at an instant, with its delay. -/
structure Plan where
  id : TimerId
  scheduled : Instant
  delay : Duration

/-- No tick that collects the timer has read the clock before the delay has passed. -/
def NotEarly (plan : Plan) (s : State) (a : Step) : Prop :=
  ∀ now, Collects plan.id now s a → plan.scheduled + plan.delay ≤ now

/-- The deadline in ticks, where the sum fits into `u64`. -/
def Plan.deadlineTick (plan : Plan) (start : Instant) : ℕ :=
  asMillis (plan.scheduled - start) + asMillis plan.delay

/-- What is dropped from the deadline, in nanoseconds. -/
def Plan.dropped (plan : Plan) (start : Instant) : ℕ :=
  belowMillis (plan.scheduled - start) + belowMillis plan.delay

/-- If the tick moves the cursor while the timer is live: one millisecond after the
    deadline, at most a millisecond more is dropped from the deadline than from the
    reading; and for a jump to the deadline itself, no more at all. -/
def Call.Punctual (start : Instant) (plan : Plan) (s : State) : Call → Outcome → Prop
  | .ticking now, _ =>
    s.shared.inner.lookup plan.id ≠ none →
    s.shared.inner.currentTick < s.shared.inner.instantToTick now →
    (asMillis (now - start) = plan.deadlineTick start + 1 →
      plan.dropped start ≤ 1000000 + belowMillis (now - start)) ∧
    (s.shared.inner.Jumps now → asMillis (now - start) = plan.deadlineTick start →
      plan.dropped start ≤ belowMillis (now - start))
  | _, _ => True

instance (start : Instant) (plan : Plan) (s : State) :
    (t : Call) → (o : Outcome) → Decidable (t.Punctual start plan s o)
  | .ticking _, _ => inferInstanceAs (Decidable (_ → _ → _ ∧ _))
  | .scheduling _ _, _ => .isTrue trivial
  | .advanced _, _ => .isTrue trivial
  | .firing _ _, _ => .isTrue trivial
  | .running _ _ _, _ => .isTrue trivial
  | .done, _ => .isTrue trivial

def Punctual (start : Instant) (plan : Plan) : State → Step → Prop :=
  Machine.ThreadSteps (Call.Punctual start plan)

instance (start : Instant) (plan : Plan) : DecidableRel (Punctual start plan) :=
  fun s a => inferInstanceAs (Decidable (Machine.ThreadSteps (Call.Punctual start plan) s a))

section RealTime

variable {start now : Instant} {plan : Plan} {s u v : State} {a : Step} {as bs : List Step}

/-! ## Nanoseconds and ticks -/

theorem millis_add_below (d : ℕ) : asMillis d * 1000000 + belowMillis d = d := by
  rw [Nat.mul_comm]
  exact Nat.div_add_mod d 1000000

theorem add_le_iff_sub {a b c d : ℕ} (ha : c ≤ a) (hb : c ≤ b) :
    a + d ≤ b ↔ a - c + d ≤ b - c := by omega

/-- The delay has passed when the ticks and the dropped parts say so. -/
theorem Plan.due_iff (hsched : start ≤ plan.scheduled) (hnow : start ≤ now) :
    plan.scheduled + plan.delay ≤ now ↔
      plan.deadlineTick start * 1000000 + plan.dropped start ≤
        asMillis (now - start) * 1000000 + belowMillis (now - start) := by
  have hdeadline := millis_add_below (plan.scheduled - start)
  have hdelay := millis_add_below plan.delay
  rw [millis_add_below]
  refine (add_le_iff_sub hsched hnow).trans ?_
  unfold Plan.deadlineTick Plan.dropped
  constructor <;> intro h <;> omega

theorem Plan.dropped_lt (plan : Plan) (start : Instant) : plan.dropped start < 2 * 1000000 := by
  unfold Plan.dropped belowMillis
  omega

/-! ## Before and after the first firing -/

/-- The timer waits with its deadline, or `fired` holds of the cursor. -/
def Stands (start : Instant) (plan : Plan) (fired : ℕ → Prop) (s : State) : Prop :=
  Waits (fun e => e.deadlineTick = plan.deadlineTick start) plan.id s ∨
    fired s.shared.inner.currentTick

theorem Stands.step {fired : ℕ → Prop} (h : Stands start plan fired s) (ho : Owned s)
    (hs : serial.step s a = some u) (hmono : ∀ c c', c ≤ c' → fired c → fired c')
    (hfire : ∀ now, Collects plan.id now s a → fired (s.shared.inner.instantToTick now)) :
    Stands start plan fired u := by
  rcases h with hwaits | hfired
  · rcases hwaits.step ho.keyed hs with hwaits | ⟨now, hc⟩
    · exact .inl hwaits
    · refine .inr (hmono _ _ ?_ (hfire now hc))
      rw [hc.currentTick hs]
      exact Nat.le_max_right _ _
  · exact .inr (hmono _ _ (ho.cursor_mono hs).1 hfired)

/-- Once the timer has been collected, the cursor is at its deadline or beyond. -/
theorem Stands.collected (h : Stands start plan (plan.deadlineTick start ≤ ·) s)
    (hst : Steady start s) (hc : Collects plan.id now s a) :
    plan.deadlineTick start ≤ s.shared.inner.instantToTick now ∧
      (¬ s.shared.inner.Jumps now → plan.deadlineTick start < s.shared.inner.instantToTick now) := by
  obtain ⟨e, he, hreach⟩ := hst.reaches hc
  rcases h with hwaits | hpassed
  · rw [hwaits.entry e he] at hreach
    exact ⟨hreach.le, hreach.lt_of_walk⟩
  · have hlt := Nat.lt_of_le_of_lt hpassed hreach.cursor_lt
    exact ⟨hlt.le, fun _ => hlt⟩

/-- Where the dropped parts are in proportion, no step is early. -/
theorem Punctual.notEarly (hp : Punctual start plan s a) (hst : Steady start s)
    (h : Stands start plan (plan.deadlineTick start ≤ ·) s) (hsched : start ≤ plan.scheduled) :
    NotEarly plan s a := by
  intro now hc
  obtain ⟨hle, hwalk⟩ := h.collected hst hc
  obtain ⟨e, he, hreach⟩ := hst.reaches hc
  have hmillis : s.shared.inner.instantToTick now ≤ asMillis (now - start) :=
    instantToTick_le hst.paced.startTime (Nat.le_refl _)
  have hread := (hst.reading hc).1
  obtain ⟨j, o, rfl, ht, -⟩ := hc
  obtain ⟨hafter, hat⟩ := hp _ ht (he ▸ Option.some_ne_none e) hreach.cursor_lt
  have hdropped := plan.dropped_lt start
  rw [plan.due_iff hsched hread]
  -- Two milliseconds after the deadline what is dropped no longer matters.
  rcases Nat.lt_or_ge (plan.deadlineTick start + 1) (asMillis (now - start)) with hlate | hearly
  · omega
  · rcases Nat.eq_or_lt_of_le hearly with heq | hlt
    · have hbound := hafter heq
      omega
    · have heq : asMillis (now - start) = plan.deadlineTick start := by omega
      by_cases hjump : s.shared.inner.Jumps now
      · have hbound := hat hjump heq
        omega
      · have hbeyond := hwalk hjump
        omega

/-- The cursor has got to the tick of a reading after the delay. -/
def Elapsed (start : Instant) (plan : Plan) (cursor : ℕ) : Prop :=
  ∃ x, start ≤ x ∧ plan.scheduled + plan.delay ≤ x ∧ asMillis (x - start) ≤ cursor

theorem Elapsed.mono {c c' : ℕ} (h : Elapsed start plan c) (hle : c ≤ c') :
    Elapsed start plan c' := by
  obtain ⟨x, hx, hdue, hpassed⟩ := h
  exact ⟨x, hx, hdue, Nat.le_trans hpassed hle⟩

/-- A tick that the deadline allows to collect a live timer does so, and is not early. -/
theorem NotEarly.due {j : ℕ} {o : Outcome} (hn : NotEarly plan s (.act j o))
    (hst : Steady start s) (h : Stands start plan (Elapsed start plan) s)
    (ht : s.threads[j]? = some (.ticking now)) (hlive : s.shared.inner.lookup plan.id ≠ none)
    (htick : s.shared.inner.instantToTick now = asMillis (now - start))
    (hcursor : s.shared.inner.currentTick < s.shared.inner.instantToTick now)
    (hreach : s.shared.inner.Reaches now (plan.deadlineTick start)) :
    plan.scheduled + plan.delay ≤ now := by
  obtain ⟨e, he⟩ := Option.ne_none_iff_exists'.1 hlive
  rcases h with hwaits | ⟨x, hx, hdue, hpassed⟩
  · rw [← hwaits.entry e he] at hreach
    exact hn now (hst.collects ht he hreach o)
  · rw [htick] at hcursor
    have hlater := Nat.lt_of_div_lt_div (Nat.lt_of_le_of_lt hpassed hcursor)
    exact Nat.le_trans hdue (by omega)

/-- A step that is not early is punctual, as long as the clock fits into `u64`. -/
theorem NotEarly.punctual (hn : NotEarly plan s a) (hst : Steady start s)
    (h : Stands start plan (Elapsed start plan) s) (hsched : start ≤ plan.scheduled)
    (hfits : asMillis (s.shared.clock - start) < 2 ^ 64) : Punctual start plan s a := by
  cases a with
  | env e => trivial
  | act j o =>
    intro t ht
    cases t with
    | ticking now =>
      intro hlive hcursor
      obtain ⟨hread, hclock⟩ := hst.paced.reading _ (List.mem_of_getElem? ht) now rfl
      have htick := instantToTick_of_lt hst.paced.startTime
        (Nat.lt_of_le_of_lt (asMillis_sub_mono _ hclock) hfits)
      have hdue := hn.due hst h ht hlive htick hcursor
      rw [plan.due_iff hsched hread] at hdue
      refine ⟨fun heq => ?_, fun hjump heq => ?_⟩
      · have hdone := hdue (by apply reaches_of_lt <;> omega)
        omega
      · have hdone := hdue (reaches_of_jumps hjump (by omega))
        omega
    | _ => trivial

/-! ## Runs after a schedule -/

/-- A timer that has just been scheduled waits with its deadline. -/
theorem waits_of_schedule {i : ℕ} {id : TimerId} {request : Request} (hst : Steady start s)
    (hcall : s.threads[i]? = some (.scheduling id request))
    (hs : serial.step s (.act i .returns) = some u)
    (hfits : asMillis (s.shared.clock - start) + asMillis request.delay < 2 ^ 64) :
    Waits (fun e => e.deadlineTick = Plan.deadlineTick ⟨id, s.shared.clock, request.delay⟩ start)
      id u := by
  obtain ⟨x, threads⟩ := s
  obtain ⟨t, r, ht, hr, rfl⟩ := Machine.step_act_iff.1 hs
  obtain rfl := Option.some.inj (ht.symm.trans hcall)
  obtain ⟨l, l', hts, rfl, hset⟩ := Machine.split_at ht
  obtain rfl : threads = l ++ .scheduling id request :: l' := hts
  cases hr
  have hid : id ∈ (Call.scheduling id request).held := mem_held_of_unmarked List.mem_cons_self
  have htick := instantToTick_of_lt hst.paced.startTime
    (Nat.lt_of_le_of_lt (Nat.le_add_right _ _) hfits)
  obtain ⟨kind, heq, -⟩ := schedule_eq x.inner id request x.clock
  refine ⟨fun e he => ?_, ?_, hst.owned.lt_nextId hid⟩
  · simp only [heq, insertEntry_lookup, if_true] at he
    obtain rfl := Option.some.inj he
    exact (deadlineFor_eq (by rwa [htick])).trans (by rw [htick]; rfl)
  · rw [hset]
    refine Machine.forall_threads_at.2 ⟨notMem_held_done, fun t' ht' => ?_⟩
    exact notMem_held_of_total (hst.owned.held hid).2.1 ht'

theorem stands_of_run {ok : State → Step → Prop}
    (hu : ∀ bs v, Run serial.step ok u bs v → Steady start v)
    (hwaits : Waits (fun e => e.deadlineTick = plan.deadlineTick start) plan.id u)
    (hv : Run serial.step ok u bs v) : Stands start plan (plan.deadlineTick start ≤ ·) v := by
  refine hv.invariant_of hu (.inl hwaits) fun t a w hst hstands _ hs => ?_
  exact hstands.step hst.owned hs (fun _ _ hle h => Nat.le_trans h hle)
    fun now hc => (hstands.collected hst hc).1

/-- A run of steps that are not early stays as it stood, as long as the clock fits. -/
theorem punctual_of_run (hu : ∀ bs v, Run serial.step Unrestricted u bs v → Steady start v)
    (hwaits : Waits (fun e => e.deadlineTick = plan.deadlineTick start) plan.id u)
    (hsched : start ≤ plan.scheduled) (hv : Run serial.step (NotEarly plan) u bs v)
    (hfits : asMillis (v.shared.clock - start) < 2 ^ 64) :
    Run serial.step (Punctual start plan) u bs v ∧
      Stands start plan (Elapsed start plan) v := by
  induction hv with
  | refl => exact ⟨.refl, .inl hwaits⟩
  | snoc hr hn hs ih =>
    have hst := hu _ _ hr.unrestricted
    have hclock := (hst.owned.cursor_mono hs).2
    have hfits := Nat.lt_of_le_of_lt (asMillis_sub_mono _ hclock) hfits
    obtain ⟨hrun, hstands⟩ := ih hfits
    refine ⟨hrun.snoc (hn.punctual hst hstands hsched hfits) hs, ?_⟩
    refine hstands.step hst.owned hs (fun _ _ hle h => h.mono hle) fun now hc => ?_
    obtain ⟨hread, hle⟩ := hst.reading hc
    have htick := instantToTick_of_lt hst.paced.startTime
      (Nat.lt_of_le_of_lt (asMillis_sub_mono _ hle) hfits)
    exact ⟨now, hread, hn now hc, htick.ge⟩

/-- A timer whose deadline fits into `u64` is not collected early in a run whose steps are
    punctual; and the steps of a run that is never early are punctual, if the clock fits. -/
theorem fires_in_time {i : ℕ} {id : TimerId} {request : Request}
    (h : Run system.step Unrestricted (initial start) as s)
    (hcall : s.threads[i]? = some (.scheduling id request))
    (hs : system.step s (.act i .returns) = some u)
    (hfits : asMillis (s.shared.clock - start) + asMillis request.delay < 2 ^ 64) :
    (∀ bs v, v.shared.nextId ≤ 2 ^ 64 →
      Run system.step (Punctual start ⟨id, s.shared.clock, request.delay⟩) u bs v →
      Run system.step (NotEarly ⟨id, s.shared.clock, request.delay⟩) u bs v) ∧
    ∀ bs v, v.shared.nextId ≤ 2 ^ 64 → asMillis (v.shared.clock - start) < 2 ^ 64 →
      Run system.step (NotEarly ⟨id, s.shared.clock, request.delay⟩) u bs v →
      Run system.step (Punctual start ⟨id, s.shared.clock, request.delay⟩) u bs v := by
  have hbegin : u.shared.nextId ≤ 2 ^ 64 → Steady start s ∧
      Waits (fun e => e.deadlineTick = Plan.deadlineTick ⟨id, s.shared.clock, request.delay⟩ start)
        id u ∧ ∀ bs v, Run serial.step Unrestricted u bs v → Steady start v := by
    intro hids
    have hstay : Run system.step Unrestricted u [] u := .refl
    obtain ⟨h, hs, -⟩ := serial_of_runs h hs hstay hids
    have hst := steady_of_run h
    exact ⟨hst, waits_of_schedule hst hcall hs hfits,
      fun bs v hv => steady_of_run ((h.snoc trivial hs).trans hv)⟩
  constructor
  · intro bs v hids hv
    obtain ⟨hst, hwaits, hu⟩ := hbegin ((nextId_le_of_run hv).trans hids)
    refine run_of_serial ((serial_of_run hv hids).restrict fun cs t a w hr hp _ => ?_) hids
    refine hp.notEarly (hu cs t hr.unrestricted) ?_ hst.paced.started
    exact stands_of_run (fun cs t ht => hu cs t ht.unrestricted) hwaits hr
  · intro bs v hids hclock hv
    obtain ⟨hst, hwaits, hu⟩ := hbegin ((nextId_le_of_run hv).trans hids)
    have hv := serial_of_run hv hids
    exact run_of_serial (punctual_of_run hu hwaits hst.paced.started hv hclock).1 hids

/-- A timer of one millisecond, scheduled at the start, and a tick two milliseconds later. -/
theorem fires_in_time_one : ∃ s u v,
    Run system.step Unrestricted (initial 0) [.env (.schedule (.once 1000000))] s ∧
    system.step s (.act 0 .returns) = some u ∧
    Run system.step (NotEarly ⟨1, 0, 1000000⟩) u
      [.env (.elapse 2000000), .env .tick, .act 1 .returns] v := by
  obtain ⟨s, hrun, u, hs, hcall, hclock, v, hv, hids⟩ : ∃ s,
      Run system.step Unrestricted (initial 0) [.env (.schedule (.once 1000000))] s ∧
      ∃ u, system.step s (.act 0 .returns) = some u ∧
        s.threads[0]? = some (.scheduling 1 (.once 1000000)) ∧ s.shared.clock = 0 ∧
        ∃ v, Run system.step (Punctual 0 ⟨1, 0, 1000000⟩) u
          [.env (.elapse 2000000), .env .tick, .act 1 .returns] v ∧ v.shared.nextId ≤ 2 ^ 64 := by
    refine ⟨_, .of_isSome (by decide +kernel), _, (Option.some_get (by decide +kernel)).symm, rfl,
      rfl, Run.exists_of_exec (by decide +kernel)⟩
  have hfits : asMillis (s.shared.clock - 0) + asMillis 1000000 < 2 ^ 64 := by
    rw [hclock]
    decide
  have htime := (fires_in_time hrun hcall hs hfits).1
    [.env (.elapse 2000000), .env .tick, .act 1 .returns] v hids
  rw [hclock] at htime
  exact ⟨s, u, v, hrun, hs, htime hv⟩

/-- A timer of 999999 ns, scheduled 999999 ns after the start, runs one nanosecond later. -/
theorem timer_fires_early : ∃ s, Run system.step Unrestricted (initial 0)
      [.env (.elapse 999999), .env (.schedule (.once 999999)), .act 0 .returns,
        .env (.elapse 1), .env .tick, .act 1 .returns, .act 1 .returns, .act 1 .returns] s ∧
    s.shared.clock = 1000000 ∧ 1000000 < 999999 + 999999 ∧ .started 1 ∈ s.shared.history :=
  Run.exists_of_exec (by decide +kernel)

end RealTime

end TimerWheel
