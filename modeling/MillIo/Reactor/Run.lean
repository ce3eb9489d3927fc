-- SUMMARY: `Reactor::run` of `mill-io/src/reactor.rs`, with the threads that schedule and cancel timers and stop the loop.
import MillIo.TimerWheel.Bounded
import MillIo.Interleaving.Lock

/-!
# The loop of the reactor

The loop reads its flag, asks the timer wheel how long it may sleep, polls,
dispatches what the poll reports and lets the wheel tick. The other threads are
calls of `EventLoop::schedule_once`, `schedule_repeating` and `stop`; `cancel_timer`
has one critical section and is a single step. All of these may come from any
thread and from inside a callback or a handler.

The waker is sticky: a wake stays until a poll reports it.
-/
namespace Reactor

open Interleaving TimerWheel

deriving instance DecidableEq for TimerWheel.Call

structure Shared where
  wheel : TimerWheel.Shared
  running : Bool
  /-- A wake that no poll has reported. -/
  awake : Bool
  pollTimeoutMs : ℕ
  /-- A call of `run` is in progress. -/
  looping : Bool
  /-- How many polling cycles have begun. -/
  cycles : ℕ

/-- `Reactor::run`, by what it does next. -/
inductive Loop
  | storing
  | testing
  | evaluating
  /-- The timeout, and the tick of the clock at which `time_until_next` was evaluated. -/
  | entering (timeout : Duration) (evaluated : ℕ)
  | polling (timeout : Duration) (evaluated : ℕ)
  /-- Events of the poll that are still to be dispatched. -/
  | dispatching (events : ℕ)
  | ticking (call : Call)
  | returned
  deriving DecidableEq

/-- `EventLoop::schedule_once` and `EventLoop::schedule_repeating`. -/
inductive Schedule
  | inserting (id : TimerId) (request : Request)
  | waking
  | returned
  deriving DecidableEq

/-- `ShutdownHandle::shutdown`. -/
inductive Stop
  | storing
  | waking
  | returned
  deriving DecidableEq

inductive Thread
  | loop (t : Loop)
  | schedule (t : Schedule)
  | stop (t : Stop)
  deriving DecidableEq

inductive Input
  | run
  | schedule (request : Request)
  | cancel (id : TimerId)
  | stop
  | elapse (d : Duration)
  deriving DecidableEq

/-- A poll reports some events, and the wake or not. It may fail, as may the dispatch
    of an event; a callback may panic. -/
inductive Choice
  | goes
  | polls (events : ℕ) (wake : Bool)
  | fails
  deriving DecidableEq

/-- `until_next.min(configured)`. -/
def timeoutFor (pollTimeoutMs : ℕ) : Option Duration → Duration
  | some untilNext => min untilNext (fromMillis pollTimeoutMs)
  | none => fromMillis pollTimeoutMs

def Loop.proceed (s : Shared) : Loop → Choice → Option (Shared × Loop)
  | .storing, .goes => some ({ s with running := true }, .testing)
  | .testing, .goes =>
    if s.running then some ({ s with cycles := s.cycles + 1 }, .evaluating)
    else some ({ s with looping := false }, .returned)
  | .evaluating, .goes =>
    let (untilNext, inner) := s.wheel.inner.timeUntilNext s.wheel.clock
    some ({ s with wheel := { s.wheel with inner } },
      .entering (timeoutFor s.pollTimeoutMs untilNext) (s.wheel.inner.instantToTick s.wheel.clock))
  | .entering timeout evaluated, .goes => some (s, .polling timeout evaluated)
  | .polling _ _, .polls events wake =>
    some ({ s with awake := s.awake && !wake }, .dispatching events)
  | .polling _ _, .fails => some ({ s with looping := false }, .returned)
  | .dispatching (events + 1), .goes => some (s, .dispatching events)
  | .dispatching (_ + 1), .fails => some ({ s with looping := false }, .returned)
  | .dispatching 0, .goes => some (s, .ticking (.ticking s.wheel.clock))
  | .ticking .done, .goes => some (s, .testing)
  | .ticking call, .goes =>
    (TimerWheel.proceed s.wheel call .returns).map fun r => ({ s with wheel := r.1 }, .ticking r.2)
  | .ticking call, .fails =>
    (TimerWheel.proceed s.wheel call .panics).map fun r =>
      ({ s with wheel := r.1, looping := false }, .returned)
  | _, _ => none

def Schedule.proceed (s : Shared) : Schedule → Choice → Option (Shared × Schedule)
  | .inserting id request, .goes =>
    (TimerWheel.proceed s.wheel (.scheduling id request) .returns).map fun r =>
      ({ s with wheel := r.1 }, .waking)
  | .waking, .goes => some ({ s with awake := true }, .returned)
  | _, _ => none

def Stop.proceed (s : Shared) : Stop → Choice → Option (Shared × Stop)
  | .storing, .goes => some ({ s with running := false }, .waking)
  | .waking, .goes => some ({ s with awake := true }, .returned)
  | _, _ => none

def proceed (s : Shared) : Thread → Choice → Option (Shared × Thread)
  | .loop t, o => (t.proceed s o).map fun r => (r.1, .loop r.2)
  | .schedule t, o => (t.proceed s o).map fun r => (r.1, .schedule r.2)
  | .stop t, o => (t.proceed s o).map fun r => (r.1, .stop r.2)

/-- One call of `run` at a time. -/
def enter (s : Shared) : Input → Option (Shared × List Thread)
  | .run => if s.looping then none else some ({ s with looping := true }, [.loop .storing])
  | .schedule request =>
    some ({ s with wheel := (TimerWheel.enter s.wheel (.schedule request)).1 },
      [.schedule (.inserting (s.wheel.nextId % 2 ^ 64) request)])
  | .cancel id => some ({ s with wheel := (TimerWheel.enter s.wheel (.cancel id)).1 }, [])
  | .stop => some (s, [.stop .storing])
  | .elapse d => some ({ s with wheel := (TimerWheel.enter s.wheel (.elapse d)).1 }, [])

def system : Machine Shared Thread Input Choice where
  env := enter
  act := proceed

abbrev State := Config Shared Thread

abbrev Step := Action Input Choice

def initial (start : Instant) (pollTimeoutMs : ℕ) : State :=
  ⟨⟨⟨.new start, 1, start, []⟩, false, false, pollTimeoutMs, false, 0⟩, []⟩

/-! ## What a thread can do -/

inductive Acts (s : Shared) : Thread → Shared → Thread → Prop
  | store : Acts s (.loop .storing) { s with running := true } (.loop .testing)
  | begin (hrunning : s.running = true) :
      Acts s (.loop .testing) { s with cycles := s.cycles + 1 } (.loop .evaluating)
  | finish (hstopped : s.running = false) :
      Acts s (.loop .testing) { s with looping := false } (.loop .returned)
  | evaluate :
      Acts s (.loop .evaluating)
        { s with wheel.inner := (s.wheel.inner.timeUntilNext s.wheel.clock).2 }
        (.loop (.entering
          (timeoutFor s.pollTimeoutMs (s.wheel.inner.timeUntilNext s.wheel.clock).1)
          (s.wheel.inner.instantToTick s.wheel.clock)))
  | poll (timeout : Duration) (evaluated : ℕ) :
      Acts s (.loop (.entering timeout evaluated)) s (.loop (.polling timeout evaluated))
  | report (timeout : Duration) (evaluated events : ℕ) (wake : Bool) :
      Acts s (.loop (.polling timeout evaluated)) { s with awake := s.awake && !wake }
        (.loop (.dispatching events))
  | pollFails (timeout : Duration) (evaluated : ℕ) :
      Acts s (.loop (.polling timeout evaluated)) { s with looping := false } (.loop .returned)
  | dispatch (events : ℕ) :
      Acts s (.loop (.dispatching (events + 1))) s (.loop (.dispatching events))
  | dispatchFails (events : ℕ) :
      Acts s (.loop (.dispatching (events + 1))) { s with looping := false } (.loop .returned)
  | tick : Acts s (.loop (.dispatching 0)) s (.loop (.ticking (.ticking s.wheel.clock)))
  | ticked : Acts s (.loop (.ticking .done)) s (.loop .testing)
  | advance (call call' : Call) (wheel : TimerWheel.Shared)
      (hcall : TimerWheel.Acts s.wheel call wheel call')
      (hproceed : TimerWheel.proceed s.wheel call .returns = some (wheel, call')) :
      Acts s (.loop (.ticking call)) { s with wheel } (.loop (.ticking call'))
  | panic (call : Call) (wheel : TimerWheel.Shared)
      (hcall : TimerWheel.Acts s.wheel call wheel .done) :
      Acts s (.loop (.ticking call)) { s with wheel, looping := false } (.loop .returned)
  | insert (id : TimerId) (request : Request) (wheel : TimerWheel.Shared)
      (hcall : TimerWheel.Acts s.wheel (.scheduling id request) wheel .done) :
      Acts s (.schedule (.inserting id request)) { s with wheel } (.schedule .waking)
  | wake : Acts s (.schedule .waking) { s with awake := true } (.schedule .returned)
  | stopStore : Acts s (.stop .storing) { s with running := false } (.stop .waking)
  | stopWake : Acts s (.stop .waking) { s with awake := true } (.stop .returned)

/-- A panic ends a call. -/
theorem done_of_panics {s s' : TimerWheel.Shared} {t t' : Call}
    (h : TimerWheel.proceed s t .panics = some (s', t')) : t' = .done := by
  cases t with
  | running entry expired toReschedule =>
    cases h
    rfl
  | firing expired toReschedule => cases expired <;> cases h
  | _ => cases h

theorem acts_of_loop {s s' : Shared} {t t' : Loop} {o : Choice}
    (h : t.proceed s o = some (s', t')) : Acts s (.loop t) s' (.loop t') := by
  unfold Loop.proceed at h
  split at h
  · cases h
    exact .store
  · split at h <;> cases h
    · rename_i hrunning
      exact .begin hrunning
    · rename_i hstopped
      exact .finish (Bool.eq_false_iff.2 hstopped)
  · cases h
    exact .evaluate
  · cases h
    exact .poll _ _
  · cases h
    exact .report _ _ _ _
  · cases h
    exact .pollFails _ _
  · cases h
    exact .dispatch _
  · cases h
    exact .dispatchFails _
  · cases h
    exact .tick
  · cases h
    exact .ticked
  · obtain ⟨⟨wheel, call'⟩, hr, heq⟩ := Option.map_eq_some_iff.1 h
    cases heq
    exact .advance _ _ _ (TimerWheel.acts_of_proceed hr) hr
  · obtain ⟨⟨wheel, call'⟩, hr, heq⟩ := Option.map_eq_some_iff.1 h
    cases heq
    obtain rfl := done_of_panics hr
    exact .panic _ _ (TimerWheel.acts_of_proceed hr)
  · cases h

theorem acts_of_schedule {s s' : Shared} {t t' : Schedule} {o : Choice}
    (h : t.proceed s o = some (s', t')) : Acts s (.schedule t) s' (.schedule t') := by
  unfold Schedule.proceed at h
  split at h
  · obtain ⟨⟨wheel, call'⟩, hr, heq⟩ := Option.map_eq_some_iff.1 h
    cases heq
    cases hr
    exact .insert _ _ _ (.schedule _ _)
  · cases h
    exact .wake
  · cases h

theorem acts_of_stop {s s' : Shared} {t t' : Stop} {o : Choice}
    (h : t.proceed s o = some (s', t')) : Acts s (.stop t) s' (.stop t') := by
  unfold Stop.proceed at h
  split at h
  · cases h
    exact .stopStore
  · cases h
    exact .stopWake
  · cases h

theorem acts_of_proceed {s s' : Shared} {t t' : Thread} {o : Choice}
    (h : proceed s t o = some (s', t')) : Acts s t s' t' := by
  cases t with
  | loop t =>
    obtain ⟨⟨s', t'⟩, hr, heq⟩ := Option.map_eq_some_iff.1 h
    cases heq
    exact acts_of_loop hr
  | schedule t =>
    obtain ⟨⟨s', t'⟩, hr, heq⟩ := Option.map_eq_some_iff.1 h
    cases heq
    exact acts_of_schedule hr
  | stop t =>
    obtain ⟨⟨s', t'⟩, hr, heq⟩ := Option.map_eq_some_iff.1 h
    cases heq
    exact acts_of_stop hr

/-! ## The wheel of the reactor -/

namespace Thread

/-- The call of the timer wheel that a thread is in. -/
def call : Thread → Call
  | loop (.ticking call) => call
  | schedule (.inserting id request) => .scheduling id request
  | _ => .done

/-- One for a loop that is in progress. -/
def loops : Thread → ℕ
  | loop .returned => 0
  | loop _ => 1
  | _ => 0

end Thread

/-- The state of the timer wheel and of the calls that threads make of it. -/
def wheelState (s : State) : TimerWheel.State := ⟨s.shared.wheel, s.threads.map Thread.call⟩

/-- What holds of the wheel and of the loops in every run. Each id has one owner as long as
    the ids have not come round. -/
structure Regular (s : State) : Prop where
  owned : s.shared.wheel.nextId ≤ 2 ^ 64 → Owned (wheelState s)
  bounded : s.shared.wheel.inner.Bounded
  alone : Guarded Thread.loops Shared.looping s

section Regular

variable {s s' : Shared} {t t' : Thread} {l l' : List Thread}

theorem wheelState_at : wheelState ⟨s, l ++ t :: l'⟩ =
    ⟨s.wheel, l.map Thread.call ++ t.call :: l'.map Thread.call⟩ := by
  simp [wheelState]

/-- A thread outside the wheel does not change it. -/
theorem Regular.move (h : Regular ⟨s, l ++ t :: l'⟩) (hwheel : s'.wheel = s.wheel)
    (hcall : t'.call = t.call) (hloops : t'.loops + s.looping.toNat = t.loops + s'.looping.toNat ∨
      (t.loops = 1 ∧ t'.loops = 0 ∧ s'.looping = false)) : Regular ⟨s', l ++ t' :: l'⟩ := by
  refine ⟨fun hids => ?_, hwheel ▸ h.bounded, h.alone.act hloops⟩
  have howned := h.owned (hwheel ▸ hids)
  rw [wheelState_at] at howned ⊢
  simpa only [hwheel, hcall] using howned

/-- A thread may go on with its call of the wheel. -/
theorem Regular.call {wheel : TimerWheel.Shared} (h : Regular ⟨s, l ++ t :: l'⟩)
    (hcall : TimerWheel.Acts s.wheel t.call wheel t'.call) (hwheel : s'.wheel = wheel)
    (hloops : t'.loops + s.looping.toNat = t.loops + s'.looping.toNat ∨
      (t.loops = 1 ∧ t'.loops = 0 ∧ s'.looping = false)) : Regular ⟨s', l ++ t' :: l'⟩ := by
  refine ⟨fun hids => ?_, hwheel ▸ Bounded.act h.bounded hcall, h.alone.act hloops⟩
  have howned := h.owned (hcall.nextId_eq ▸ hwheel ▸ hids)
  rw [wheelState_at] at howned ⊢
  rw [hwheel]
  exact howned.act hcall

theorem Regular.act (h : Regular ⟨s, l ++ t :: l'⟩) (hacts : Acts s t s' t') :
    Regular ⟨s', l ++ t' :: l'⟩ := by
  cases hacts with
  | evaluate =>
    obtain ⟨earliest, hframe⟩ := s.wheel.inner.timeUntilNext_frame s.wheel.clock
    refine ⟨fun hids => ?_, h.bounded.timeUntilNext s.wheel.clock, h.alone.act (.inl rfl)⟩
    have howned := h.owned hids
    rw [wheelState_at] at howned ⊢
    rw [hframe]
    exact { howned with }
  | tick =>
    refine ⟨fun hids => ?_, h.bounded, h.alone.act (.inl rfl)⟩
    have howned := h.owned hids
    rw [wheelState_at] at howned ⊢
    exact howned.move rfl rfl (List.Subset.refl _) (fun _ => Nat.zero_le _) (List.nil_subset _)
      (List.nil_subset _) (by simp [Thread.call, Call.toReschedule])
  | advance call call' wheel hcall => exact h.call hcall rfl (.inl rfl)
  | panic call wheel hcall => exact h.call hcall rfl (.inr ⟨rfl, rfl, rfl⟩)
  | insert id request wheel hcall => exact h.call hcall rfl (.inl rfl)
  | finish | pollFails | dispatchFails => exact h.move rfl rfl (.inr ⟨rfl, rfl, rfl⟩)
  | _ => exact h.move rfl rfl (.inl rfl)

/-- A thread may enter that makes no call of the wheel. -/
theorem Regular.join (h : Regular ⟨s, l⟩) (hwheel : s'.wheel = s.wheel) (hcall : t.call = .done)
    (hloops : t.loops + s.looping.toNat = s'.looping.toNat) : Regular ⟨s', l ++ [t]⟩ := by
  refine ⟨fun hids => ?_, hwheel ▸ h.bounded, ?_⟩
  · have howned : Owned ⟨s.wheel, l.map Thread.call ++ [.ticking s.wheel.clock]⟩ :=
      (h.owned (hwheel ▸ hids)).tick s.wheel.clock
    rw [wheelState_at, hwheel, hcall]
    exact howned.finish
  · have htotal : Machine.total Thread.loops l = s.looping.toNat := h.alone
    simp only [Guarded, Machine.total_append, Machine.total_cons, Machine.total_nil, htotal]
    omega

theorem Regular.enter {e : Input} {ts : List Thread} (h : Regular ⟨s, l⟩)
    (he : enter s e = some (s', ts)) : Regular ⟨s', l ++ ts⟩ := by
  have hbounded : ∀ i, (TimerWheel.enter s.wheel i).1.inner.Bounded :=
    fun i => Bounded.enter h.bounded i
  have halone : Machine.total Thread.loops l = s.looping.toNat := h.alone
  cases e with
  | run =>
    simp only [Reactor.enter] at he
    split at he
    · cases he
    · rename_i hfree
      cases he
      exact h.join rfl rfl (by simp [Thread.loops, hfree])
  | schedule request =>
    cases he
    refine ⟨fun hids => ?_, hbounded (.schedule request), ?_⟩
    · have hlt : s.wheel.nextId < 2 ^ 64 := hids
      have howned : Owned ⟨(TimerWheel.enter s.wheel (.schedule request)).1,
          l.map Thread.call ++ [.scheduling s.wheel.nextId request]⟩ :=
        (h.owned hlt.le).enter (.schedule request)
      rw [wheelState_at]
      simpa only [Thread.call, Nat.mod_eq_of_lt hlt, List.map_nil] using howned
    · simpa [Guarded, Thread.loops] using halone
  | cancel id =>
    cases he
    refine ⟨fun hids => ?_, hbounded (.cancel id), ?_⟩
    · have howned : Owned ⟨(TimerWheel.enter s.wheel (.cancel id)).1, l.map Thread.call ++ []⟩ :=
        (h.owned hids).enter (.cancel id)
      simpa only [wheelState, List.append_nil] using howned
    · simpa [Guarded] using halone
  | stop =>
    cases he
    exact h.join rfl rfl (by simp [Thread.loops])
  | elapse d =>
    cases he
    refine ⟨fun hids => ?_, hbounded (.elapse d), ?_⟩
    · have howned : Owned ⟨(TimerWheel.enter s.wheel (.elapse d)).1, l.map Thread.call ++ []⟩ :=
        (h.owned hids).enter (.elapse d)
      simpa only [wheelState, List.append_nil] using howned
    · simpa [Guarded] using halone

theorem regular_of_run {ok : State → Step → Prop} {start : Instant} {pollTimeoutMs : ℕ}
    {as : List Step} {s : State} (h : Run system.step ok (initial start pollTimeoutMs) as s) :
    Regular s := by
  refine Machine.invariant_of_run (J := fun _ => True) h (fun _ _ _ => trivial) ?_ ?_ ?_
  · exact ⟨fun _ => owned_initial start, WheelInner.bounded_new start, rfl⟩
  · exact fun x ts e y ts' _ hinv _ he => hinv.enter he
  · exact fun x l l' t c y t' _ hinv _ hr => hinv.act (acts_of_proceed hr)

/-- While a loop is in progress no other one is. -/
theorem Regular.others (h : Regular ⟨s, l ++ t :: l'⟩) (ht : t.loops = 1) :
    ∀ t' ∈ l ++ l', t'.loops = 0 :=
  fun _ ht' => h.alone.others ht ht'

end Regular

end Reactor
