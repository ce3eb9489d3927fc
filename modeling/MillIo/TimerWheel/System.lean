-- SUMMARY: The timer wheel and its callers: schedules, cancels and ticks of any number of threads, interleaved at their critical sections.
import MillIo.TimerWheel.Operations
import MillIo.Interleaving.Machine

/-!
# The timer wheel and its callers

A thread is one call of `schedule_once`, `schedule_repeating` or `tick` in
progress. Its steps are the atomic sections of the call: what it does under one
acquisition of the lock, the increment of the id counter, a reading of the
clock, the start and the end of a callback. `cancel` and `time_until_next` have
one critical section each and are single steps, which may come from any thread
and from inside a callback.
-/
namespace TimerWheel

open Interleaving

inductive Request
  | once (delay : Duration)
  | repeating (interval : Duration)
  deriving DecidableEq

def Request.delay : Request → Duration
  | once delay => delay
  | repeating interval => interval

def WheelInner.schedule (w : WheelInner) (id : TimerId) (request : Request) (now : Instant) :
    WheelInner :=
  match request with
  | .once delay => w.scheduleOnce id delay now
  | .repeating interval => w.scheduleRepeating id interval now

/-- What a caller observes of a timer. -/
inductive Event
  | scheduled (id : TimerId) (request : Request)
  | cancelled (id : TimerId) (found : Bool)
  | started (id : TimerId)
  deriving DecidableEq

/-- `TimerWheel` with the clock and the history of what was observed so far.
    `nextId` counts the ids drawn, from 1 on: the `AtomicU64` of the source
    holds it modulo 2^64. -/
structure Shared where
  inner : WheelInner
  nextId : ℕ
  clock : Instant
  history : List Event

/-- A call in progress, by what it has still to do. -/
inductive Call
  /-- A schedule that has drawn its id. -/
  | scheduling (id : TimerId) (request : Request)
  /-- A tick that has read the clock. -/
  | ticking (now : Instant)
  /-- A tick that has taken its batch and has not yet marked it as in flight. -/
  | advanced (expired : List TimerEntry)
  /-- A tick between two callbacks. -/
  | firing (expired toReschedule : List TimerEntry)
  /-- A tick inside the callback of an entry. -/
  | running (entry : TimerEntry) (expired toReschedule : List TimerEntry)
  | done

/-- How a callback ends. Its panic unwinds through `tick`. -/
inductive Outcome
  | returns
  | panics
  deriving DecidableEq

inductive Invocation
  | schedule (request : Request)
  | cancel (id : TimerId)
  | tick
  | timeUntilNext
  | elapse (d : Duration)
  deriving DecidableEq

/-- A call enters, or time passes. -/
def enter (s : Shared) : Invocation → Shared × List Call
  | .schedule request =>
    ({ s with nextId := s.nextId + 1 }, [.scheduling (s.nextId % 2 ^ 64) request])
  | .cancel id =>
    ({ s with
      inner := (s.inner.cancel id).2
      history := s.history ++ [.cancelled id (s.inner.cancel id).1] }, [])
  | .tick => (s, [.ticking s.clock])
  | .timeUntilNext => ({ s with inner := (s.inner.timeUntilNext s.clock).2 }, [])
  | .elapse d => ({ s with clock := s.clock + d }, [])

/-- A call goes on. Only a callback may panic. -/
def proceed (s : Shared) : Call → Outcome → Option (Shared × Call)
  | .scheduling id request, .returns =>
    some ({ s with
      inner := s.inner.schedule id request s.clock
      history := s.history ++ [.scheduled id request] }, .done)
  | .ticking now, .returns =>
    some ({ s with inner := (s.inner.advanceTo now).2 }, .advanced (s.inner.advanceTo now).1)
  | .advanced expired, .returns =>
    if expired.isEmpty then some (s, .done)
    else some ({ s with inner := s.inner.markInFlight expired }, .firing expired [])
  | .firing (entry :: expired) toReschedule, .returns =>
    some ({ s with history := s.history ++ [.started entry.id] },
      .running entry expired toReschedule)
  | .firing [] toReschedule, .returns =>
    if toReschedule.isEmpty then some (s, .done)
    else some ({ s with inner := s.inner.rearmAll s.clock toReschedule }, .done)
  | .running entry expired toReschedule, .returns =>
    some (s, .firing expired
      (if entry.kind.isRepeating then toReschedule ++ [entry] else toReschedule))
  | .running _ _ _, .panics => some (s, .done)
  | _, _ => none

def system : Machine Shared Call Invocation Outcome where
  env s invocation := some (enter s invocation)
  act := proceed

abbrev State := Config Shared Call

abbrev Step := Action Invocation Outcome

/-- A new timer wheel, and no call in progress. -/
def initial (start : Instant) : State := ⟨⟨.new start, 1, start, []⟩, []⟩

/-! ## What a call can do -/

inductive Acts (s : Shared) : Call → Shared → Call → Prop
  | schedule (id : TimerId) (request : Request) :
      Acts s (.scheduling id request)
        { s with
          inner := s.inner.schedule id request s.clock
          history := s.history ++ [.scheduled id request] } .done
  | advance (now : Instant) :
      Acts s (.ticking now) { s with inner := (s.inner.advanceTo now).2 }
        (.advanced (s.inner.advanceTo now).1)
  | noneDue : Acts s (.advanced []) s .done
  | mark (expired : List TimerEntry) :
      Acts s (.advanced expired) { s with inner := s.inner.markInFlight expired }
        (.firing expired [])
  | start (entry : TimerEntry) (expired toReschedule : List TimerEntry) :
      Acts s (.firing (entry :: expired) toReschedule)
        { s with history := s.history ++ [.started entry.id] }
        (.running entry expired toReschedule)
  | rearm (toReschedule : List TimerEntry) :
      Acts s (.firing [] toReschedule)
        { s with inner := s.inner.rearmAll s.clock toReschedule } .done
  | callbackReturns (entry : TimerEntry) (expired toReschedule : List TimerEntry) :
      Acts s (.running entry expired toReschedule) s
        (.firing expired (if entry.kind.isRepeating then toReschedule ++ [entry] else toReschedule))
  | callbackPanics (entry : TimerEntry) (expired toReschedule : List TimerEntry) :
      Acts s (.running entry expired toReschedule) s .done

/-- A call that goes on draws no id. -/
theorem Acts.nextId_eq {s s' : Shared} {t t' : Call} (h : Acts s t s' t') :
    s'.nextId = s.nextId := by
  cases h <;> rfl

theorem acts_of_proceed {s s' : Shared} {t t' : Call} {o : Outcome}
    (h : proceed s t o = some (s', t')) : Acts s t s' t' := by
  unfold proceed at h
  split at h
  · obtain ⟨rfl, rfl⟩ := Prod.mk.inj (Option.some.inj h)
    exact .schedule _ _
  · obtain ⟨rfl, rfl⟩ := Prod.mk.inj (Option.some.inj h)
    exact .advance _
  · split at h
    · rename_i hempty
      obtain ⟨rfl, rfl⟩ := Prod.mk.inj (Option.some.inj h)
      rw [List.isEmpty_iff.1 hempty]
      exact .noneDue
    · obtain ⟨rfl, rfl⟩ := Prod.mk.inj (Option.some.inj h)
      exact .mark _
  · obtain ⟨rfl, rfl⟩ := Prod.mk.inj (Option.some.inj h)
    exact .start _ _ _
  · split at h
    · rename_i hempty
      obtain ⟨rfl, rfl⟩ := Prod.mk.inj (Option.some.inj h)
      rw [List.isEmpty_iff.1 hempty]
      exact .rearm []
    · obtain ⟨rfl, rfl⟩ := Prod.mk.inj (Option.some.inj h)
      exact .rearm _
  · obtain ⟨rfl, rfl⟩ := Prod.mk.inj (Option.some.inj h)
    exact .callbackReturns _ _ _
  · obtain ⟨rfl, rfl⟩ := Prod.mk.inj (Option.some.inj h)
    exact .callbackPanics _ _ _
  · cases h

end TimerWheel
