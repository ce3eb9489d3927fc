-- SUMMARY: A timer in the wheel keeps its deadline until the advance of a tick takes it out, and what that says about the clock.
import MillIo.TimerWheel.Aim

/-!
# Waiting timers

Once a timer has been scheduled or re-armed, no call holds it and its entry does not
change until a tick collects it. At that moment its deadline is within the reach of
the advance.
-/
namespace TimerWheel

open Interleaving WheelInner

/-- What holds in all runs of the calls and of the clock. -/
structure Steady (start : Instant) (s : State) : Prop where
  owned : Owned s
  inLine : InLine s
  onAim : s.shared.inner.OnAim
  paced : Paced start s

/-- No call holds the timer, and its entry, as long as there is one, is as `P` says. -/
structure Waits (P : TimerEntry → Prop) (id : TimerId) (s : State) : Prop where
  entry : ∀ e, s.shared.inner.lookup id = some e → P e
  free : ∀ t ∈ s.threads, id ∉ t.held
  drawn : id < s.shared.nextId

/-- The step is the advance of a tick that takes the timer into its batch. -/
def Collects (id : TimerId) (now : Instant) (s : State) (a : Step) : Prop :=
  ∃ j o, a = .act j o ∧ s.threads[j]? = some (.ticking now) ∧
    id ∈ (s.shared.inner.advanceTo now).1.map TimerEntry.id

section Waiting

variable {P : TimerEntry → Prop} {start now : Instant} {s u : State} {a : Step} {x y : Shared}
  {t t' : Call} {l l' : List Call} {id : TimerId}

theorem steady_of_run {ok : State → Step → Prop} {as : List Step}
    (h : Run serial.step ok (initial start) as s) : Steady start s :=
  ⟨owned_of_run h, inLine_of_run h, onAim_of_run h, paced_of_run h⟩

/-! ## The cursor and the clock only move on -/

theorem Owned.cursor_mono (ho : Owned s) (hs : serial.step s a = some u) :
    s.shared.inner.currentTick ≤ u.shared.inner.currentTick ∧ s.shared.clock ≤ u.shared.clock := by
  rcases serial_step_cases hs with ⟨e, rfl, rfl⟩ | ⟨o, x, t, t', l, l', rfl, hts, hacts, rfl⟩
  · obtain ⟨-, hcursor, hclock, -⟩ := enter_cursor s.shared e
    exact ⟨hcursor.ge, hclock⟩
  · obtain ⟨-, hclock, hcursor, -⟩ := act_cursor ho.keyed hacts
    refine ⟨?_, hclock.ge⟩
    rcases hcursor with heq | ⟨now, -, heq⟩
    · exact heq.ge
    · exact Nat.le_trans (Nat.le_max_left _ _) heq.ge

/-! ## Being collected -/

/-- A timer that is collected was live, and the advance reaches its deadline. -/
theorem Steady.reaches (h : Steady start s) (hc : Collects id now s a) :
    ∃ e, s.shared.inner.lookup id = some e ∧ s.shared.inner.Reaches now e.deadlineTick := by
  obtain ⟨j, o, -, -, hmem⟩ := hc
  have htakes := takes_advanceTo h.owned.keyed now
  obtain ⟨e, he, rfl⟩ := List.mem_map.1 hmem
  have hlive := htakes.live e he
  refine ⟨e, hlive, ((h.onAim.advanceTo h.inLine.lined).2 e.id e hlive).1 ?_⟩
  exact (htakes.rest e.id).trans (if_pos hmem)

/-- A live timer whose deadline an advance reaches is collected. -/
theorem Steady.collects (h : Steady start s) {j : ℕ} (ht : s.threads[j]? = some (.ticking now))
    {e : TimerEntry} (he : s.shared.inner.lookup id = some e)
    (hreach : s.shared.inner.Reaches now e.deadlineTick) (o : Outcome) :
    Collects id now s (.act j o) := by
  refine ⟨j, o, rfl, ht, ?_⟩
  have hgone := ((h.onAim.advanceTo h.inLine.lined).2 id e he).2 hreach
  have hrest := (takes_advanceTo h.owned.keyed now).rest id
  rw [hgone, he] at hrest
  by_contra hout
  rw [if_neg hout] at hrest
  cases hrest

/-- Collecting a timer moves the cursor to the tick of the reading. -/
theorem Collects.currentTick (hc : Collects id now s a) (hs : serial.step s a = some u) :
    u.shared.inner.currentTick =
      max s.shared.inner.currentTick (s.shared.inner.instantToTick now) := by
  obtain ⟨j, o, rfl, ht, -⟩ := hc
  obtain ⟨t, ⟨y, t'⟩, ht', hr, rfl⟩ := Machine.step_act_iff.1 hs
  obtain rfl := Option.some.inj (ht'.symm.trans ht)
  cases acts_of_proceed hr with
  | advance => exact advanceTo_currentTick

/-- A tick collects with a reading of the clock that is not ahead. -/
theorem Steady.reading (h : Steady start s) (hc : Collects id now s a) :
    start ≤ now ∧ now ≤ s.shared.clock := by
  obtain ⟨j, o, -, ht, -⟩ := hc
  exact h.paced.reading _ (List.mem_of_getElem? ht) now rfl

/-! ## Waiting -/

theorem Waits.enter (h : Waits P id s) (e : Invocation) :
    Waits P id ⟨(enterSerial s.shared e).1, s.threads ++ (enterSerial s.shared e).2⟩ := by
  cases e with
  | schedule request =>
    refine ⟨h.entry, List.forall_mem_append.2 ⟨h.free, List.forall_mem_singleton.2 ?_⟩,
      Nat.lt_succ_of_lt h.drawn⟩
    simpa [Call.held, Call.unmarked, Call.marked] using h.drawn.ne
  | cancel id' =>
    simp only [enterSerial, TimerWheel.enter, List.append_nil]
    refine ⟨fun e he => ?_, h.free, h.drawn⟩
    simp only [cancel_lookup] at he
    split at he
    · cases he
    · exact h.entry e he
  | tick =>
    refine ⟨h.entry, List.forall_mem_append.2 ⟨h.free, List.forall_mem_singleton.2 ?_⟩, h.drawn⟩
    simp [Call.held, Call.unmarked, Call.marked]
  | timeUntilNext =>
    obtain ⟨earliest, hframe⟩ := s.shared.inner.timeUntilNext_frame s.shared.clock
    simp only [enterSerial, TimerWheel.enter, List.append_nil, hframe]
    exact { h with }
  | elapse d =>
    simp only [enterSerial, TimerWheel.enter, List.append_nil]
    exact { h with }

/-- A call may go on if it leaves the entry of the timer alone and does not take it. -/
theorem Waits.move (h : Waits P id ⟨x, l ++ t :: l'⟩) (hnext : y.nextId = x.nextId)
    (hentry : ∀ e, y.inner.lookup id = some e → x.inner.lookup id = some e)
    (hheld : id ∉ t'.held) : Waits P id ⟨y, l ++ t' :: l'⟩ where
  entry e he := h.entry e (hentry e he)
  free := Machine.forall_threads_at.2 ⟨hheld, (Machine.forall_threads_at.1 h.free).2⟩
  drawn := hnext ▸ h.drawn

theorem notMem_held_done : id ∉ Call.done.held := by
  simp [Call.held, Call.unmarked, Call.marked]

theorem Waits.act (h : Waits P id ⟨x, l ++ t :: l'⟩) (hk : x.inner.Keyed) (hacts : Acts x t y t') :
    Waits P id ⟨y, l ++ t' :: l'⟩ ∨
      ∃ now, t = .ticking now ∧ id ∈ (x.inner.advanceTo now).1.map TimerEntry.id := by
  have hout := (Machine.forall_threads_at.1 h.free).1
  cases hacts with
  | schedule id' request =>
    have hne : id ≠ id' := by
      rintro rfl
      exact hout (mem_held_of_unmarked List.mem_cons_self)
    obtain ⟨e, rfl, -, heq⟩ := schedule_eq_insertEntry x.inner id' request x.clock
    refine .inl (h.move rfl (fun f hf => ?_) notMem_held_done)
    rwa [heq, insertEntry_lookup, if_neg hne] at hf
  | advance now =>
    by_cases hmem : id ∈ (x.inner.advanceTo now).1.map TimerEntry.id
    · exact .inr ⟨now, rfl, hmem⟩
    · refine .inl (h.move rfl (fun f hf => ?_) ?_)
      · exact ((takes_advanceTo hk now).lookup_of_some hf).2
      · simpa [Call.held, Call.unmarked, Call.marked] using hmem
  | noneDue => exact .inl (h.move rfl (fun f hf => hf) notMem_held_done)
  | mark expired =>
    rw [markInFlight_eq]
    refine .inl (h.move rfl (fun f hf => hf) ?_)
    simpa [Call.held, Call.unmarked, Call.marked] using hout
  | start => exact .inl (h.move rfl (fun f hf => hf) hout)
  | rearm toReschedule =>
    refine .inl (h.move rfl (fun f hf => ?_) notMem_held_done)
    have hmem : id ∉ toReschedule.map TimerEntry.id := by
      simpa [Call.held, Call.unmarked, Call.marked] using hout
    rwa [rearmAll_lookup_of_notMem hmem] at hf
  | callbackReturns entry expired toReschedule =>
    refine .inl (h.move rfl (fun f hf => hf) fun hin => hout ?_)
    obtain ⟨e, he, rfl⟩ := List.mem_map.1 hin
    exact mem_held_of_marked (marked_callbackReturns _ _ _ he)
  | callbackPanics => exact .inl (h.move rfl (fun f hf => hf) notMem_held_done)

/-- A waiting timer waits on, unless the step collects it. -/
theorem Waits.step (h : Waits P id s) (hk : s.shared.inner.Keyed) (hs : serial.step s a = some u) :
    Waits P id u ∨ ∃ now, Collects id now s a := by
  rcases serial_step_cases hs with ⟨e, rfl, rfl⟩ | ⟨o, y, t, t', l, l', rfl, hts, hacts, rfl⟩
  · exact .inl (h.enter e)
  · obtain ⟨x, threads⟩ := s
    obtain rfl : threads = l ++ t :: l' := hts
    refine (h.act hk hacts).imp_right ?_
    rintro ⟨now, rfl, hmem⟩
    exact ⟨now, l.length, o, rfl, by simp, hmem⟩

end Waiting

end TimerWheel
