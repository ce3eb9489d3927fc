-- SUMMARY: `ThreadPool` of `mill-io/src/thread_pool.rs`: calls of `exec`, the loop of the reactor, the workers and the drop of the pool, interleaved.
import MillIo.EventLoop.ThreadPool
import MillIo.Interleaving.Lock

/-!
# The workers of the thread pool

A thread is one call of `exec`, one call of `Reactor::run` that dispatches to the
pool, one worker, or the drop of the pool. `exec` draws the number of a worker in one
step and sends the task in another. A task is known by the number of the call it comes
from; it returns or panics.

A worker that ends drops its receiver, and what waits in its channel goes with it.
From then on every send to it fails.
-/
namespace Workers

open Interleaving

/-- `WorkerMessage`. -/
inductive Message
  | task (n : ℕ)
  | terminate
  deriving DecidableEq

/-- How the thread of a worker has ended. -/
inductive Exit
  | terminated
  | panicked
  deriving DecidableEq

inductive Event
  | sent (task worker : ℕ)
  | started (task worker : ℕ)
  | finished (task worker : ℕ)
  | panicked (task worker : ℕ)
  deriving DecidableEq

/-- What the threads share. A call of `exec` or of `run` borrows the pool, and only its
    owner can drop it. -/
structure Pool where
  pool : ThreadPool Message
  ended : ℕ → Option Exit
  borrows : ℕ
  dropped : Bool
  /-- How many calls of `exec` have drawn the number of a worker. -/
  calls : ℕ
  history : List Event

inductive Exec
  | drawing
  | sending (task index : ℕ)
  | returned (ok : Bool)
  deriving DecidableEq

/-- `Reactor::run`, outside its calls of `exec`. -/
inductive Loop
  | polling
  | dispatching (events : ℕ)
  | stopped
  | pollFailed
  | dispatchFailed
  deriving DecidableEq

inductive Worker
  | receiving
  | running (task : ℕ)
  | exited
  deriving DecidableEq

inductive Drop
  | terminating (i : ℕ)
  | joining (i : ℕ)
  | returned
  | panicked
  deriving DecidableEq

/-- A call of `exec` from the loop of the reactor has the number of events that are
    still to be dispatched after it. -/
inductive Thread
  | exec (events : Option ℕ) (t : Exec)
  | loop (t : Loop)
  | worker (id : ℕ) (t : Worker)
  | drop (t : Drop)
  deriving DecidableEq

inductive Input
  | exec
  | run
  | drop
  deriving DecidableEq

/-- What is left open in a step: whether a task panics, and what a poll reports. -/
inductive Choice
  | goes
  | panics
  | polls (events : ℕ)
  | stops
  | fails
  deriving DecidableEq

/-! ## The atomic steps -/

namespace Pool

def capacity (s : Pool) : ℕ := s.pool.queues.length

def queue (s : Pool) : ℕ → List Message := s.pool.queue

/-- The worker whose turn it is. -/
def index (s : Pool) : ℕ := s.pool.nextWorker % s.capacity

def borrow (s : Pool) : Pool := { s with borrows := s.borrows + 1 }

def release (s : Pool) : Pool := { s with borrows := s.borrows - 1 }

def draw (s : Pool) : Pool := { s with pool := s.pool.execOther, calls := s.calls + 1 }

def record (s : Pool) (ev : Event) : Pool := { s with history := s.history ++ [ev] }

def send (s : Pool) (task index : ℕ) : Pool :=
  { s with pool := s.pool.send index (.task task) }.record (.sent task index)

def terminate (s : Pool) (i : ℕ) : Pool := { s with pool := s.pool.send i .terminate }

def close (s : Pool) (i : ℕ) (e : Exit) : Pool :=
  { s with pool := s.pool.close i, ended := Function.update s.ended i (some e) }

end Pool

def enter (s : Pool) : Input → Option (Pool × List Thread)
  | .exec => if s.dropped then none else some (s.borrow, [.exec none .drawing])
  | .run => if s.dropped then none else some (s.borrow, [.loop .polling])
  | .drop =>
    if s.dropped || s.borrows != 0 then none
    else some ({ s with dropped := true }, [.drop (.terminating 0)])

def Exec.proceed (s : Pool) : Exec → Choice → Option (Pool × Exec)
  | .drawing, .goes => some (s.draw, .sending s.calls s.index)
  | .sending task index, .goes =>
    if s.ended index = none then some ((s.send task index).release, .returned true)
    else some (s.release, .returned false)
  | _, _ => none

def Loop.proceed (s : Pool) : Loop → Choice → Option (Pool × Thread)
  | .polling, .polls events => some (s, .loop (.dispatching events))
  | .polling, .stops => some (s.release, .loop .stopped)
  | .polling, .fails => some (s.release, .loop .pollFailed)
  | .dispatching 0, .goes => some (s, .loop .polling)
  | .dispatching (events + 1), .goes => some (s.borrow, .exec (some events) .drawing)
  | _, _ => none

def Worker.proceed (s : Pool) (id : ℕ) : Worker → Choice → Option (Pool × Worker)
  | .receiving, .goes =>
    match s.pool.recv id with
    | some (.task n, pool) => some ({ s with pool }.record (.started n id), .running n)
    | some (.terminate, pool) => some ({ s with pool }.close id .terminated, .exited)
    | none => none
  | .running n, .goes => some (s.record (.finished n id), .receiving)
  | .running n, .panics => some ((s.record (.panicked n id)).close id .panicked, .exited)
  | _, _ => none

/-- Every worker is sent a message to terminate, and then they are joined one after the
    other. -/
def Drop.proceed (s : Pool) : Drop → Choice → Option (Pool × Drop)
  | .terminating i, .goes =>
    if i < s.capacity then
      some (if s.ended i = none then s.terminate i else s, .terminating (i + 1))
    else some (s, .joining 0)
  | .joining i, .goes =>
    if i < s.capacity then
      (s.ended i).map fun e =>
        match e with
        | .terminated => (s, .joining (i + 1))
        | .panicked => (s, .panicked)
    else some (s, .returned)
  | _, _ => none

def proceed (s : Pool) : Thread → Choice → Option (Pool × Thread)
  | .exec (some events) (.returned true), .goes => some (s, .loop (.dispatching events))
  | .exec (some _) (.returned false), .goes => some (s.release, .loop .dispatchFailed)
  | .exec events t, o => (t.proceed s o).map fun r => (r.1, .exec events r.2)
  | .loop t, o => t.proceed s o
  | .worker id t, o => (t.proceed s id o).map fun r => (r.1, .worker id r.2)
  | .drop t, o => (t.proceed s o).map fun r => (r.1, .drop r.2)

def system : Machine Pool Thread Input Choice where
  env := enter
  act := proceed

abbrev State := Config Pool Thread

abbrev Step := Action Input Choice

def Pool.new (capacity : ℕ) : Pool := ⟨.new capacity, fun _ => none, 0, false, 0, []⟩

def initial (capacity : ℕ) : State :=
  ⟨.new capacity, (List.range capacity).map fun id => .worker id .receiving⟩

/-! ## What a thread can do -/

inductive Acts (s : Pool) : Thread → Pool → Thread → Prop
  | draw (events : Option ℕ) :
      Acts s (.exec events .drawing) s.draw (.exec events (.sending s.calls s.index))
  | accept (events : Option ℕ) (task index : ℕ) (hlive : s.ended index = none) :
      Acts s (.exec events (.sending task index)) (s.send task index).release
        (.exec events (.returned true))
  | reject (events : Option ℕ) (task index : ℕ) (hended : s.ended index ≠ none) :
      Acts s (.exec events (.sending task index)) s.release (.exec events (.returned false))
  | next (events : ℕ) :
      Acts s (.exec (some events) (.returned true)) s (.loop (.dispatching events))
  | dispatchFails (events : ℕ) :
      Acts s (.exec (some events) (.returned false)) s.release (.loop .dispatchFailed)
  | poll (events : ℕ) : Acts s (.loop .polling) s (.loop (.dispatching events))
  | stop : Acts s (.loop .polling) s.release (.loop .stopped)
  | pollFails : Acts s (.loop .polling) s.release (.loop .pollFailed)
  | dispatched : Acts s (.loop (.dispatching 0)) s (.loop .polling)
  | dispatch (events : ℕ) :
      Acts s (.loop (.dispatching (events + 1))) s.borrow (.exec (some events) .drawing)
  | receive (id n : ℕ) (pool : ThreadPool Message) (hrecv : s.pool.recv id = some (.task n, pool)) :
      Acts s (.worker id .receiving) ({ s with pool }.record (.started n id))
        (.worker id (.running n))
  | exit (id : ℕ) (pool : ThreadPool Message) (hrecv : s.pool.recv id = some (.terminate, pool)) :
      Acts s (.worker id .receiving) ({ s with pool }.close id .terminated) (.worker id .exited)
  | finish (id n : ℕ) :
      Acts s (.worker id (.running n)) (s.record (.finished n id)) (.worker id .receiving)
  | panic (id n : ℕ) :
      Acts s (.worker id (.running n)) ((s.record (.panicked n id)).close id .panicked)
        (.worker id .exited)
  | terminate (i : ℕ) (hi : i < s.capacity) (hlive : s.ended i = none) :
      Acts s (.drop (.terminating i)) (s.terminate i) (.drop (.terminating (i + 1)))
  | skip (i : ℕ) (hi : i < s.capacity) (hended : s.ended i ≠ none) :
      Acts s (.drop (.terminating i)) s (.drop (.terminating (i + 1)))
  | allTerminated (i : ℕ) (hi : s.capacity ≤ i) :
      Acts s (.drop (.terminating i)) s (.drop (.joining 0))
  | join (i : ℕ) (hi : i < s.capacity) (hended : s.ended i = some .terminated) :
      Acts s (.drop (.joining i)) s (.drop (.joining (i + 1)))
  | joinPanics (i : ℕ) (hi : i < s.capacity) (hended : s.ended i = some .panicked) :
      Acts s (.drop (.joining i)) s (.drop .panicked)
  | allJoined (i : ℕ) (hi : s.capacity ≤ i) : Acts s (.drop (.joining i)) s (.drop .returned)

section

variable {s s' : Pool} {o : Choice}

theorem acts_of_exec {t t' : Exec} (events : Option ℕ) (h : t.proceed s o = some (s', t')) :
    Acts s (.exec events t) s' (.exec events t') := by
  unfold Exec.proceed at h
  split at h
  · cases h
    exact .draw events
  · split at h
    · rename_i hlive
      cases h
      exact .accept events _ _ hlive
    · rename_i hended
      cases h
      exact .reject events _ _ hended
  · cases h

theorem acts_of_loop {t : Loop} {t' : Thread} (h : t.proceed s o = some (s', t')) :
    Acts s (.loop t) s' t' := by
  unfold Loop.proceed at h
  split at h
  · cases h
    exact .poll _
  · cases h
    exact .stop
  · cases h
    exact .pollFails
  · cases h
    exact .dispatched
  · cases h
    exact .dispatch _
  · cases h

theorem acts_of_worker {id : ℕ} {t t' : Worker} (h : t.proceed s id o = some (s', t')) :
    Acts s (.worker id t) s' (.worker id t') := by
  unfold Worker.proceed at h
  split at h
  · split at h
    · rename_i n pool hrecv
      cases h
      exact .receive id n pool hrecv
    · rename_i pool hrecv
      cases h
      exact .exit id pool hrecv
    · cases h
  · cases h
    exact .finish id _
  · cases h
    exact .panic id _
  · cases h

theorem acts_of_drop {t t' : Drop} (h : t.proceed s o = some (s', t')) :
    Acts s (.drop t) s' (.drop t') := by
  unfold Drop.proceed at h
  split at h
  · split at h
    · rename_i i hi
      cases h
      split
      · rename_i hlive
        exact .terminate i hi hlive
      · rename_i hended
        exact .skip i hi hended
    · rename_i i hi
      cases h
      exact .allTerminated i (Nat.le_of_not_lt hi)
  · split at h
    · rename_i i hi
      obtain ⟨e, hended, heq⟩ := Option.map_eq_some_iff.1 h
      cases e with
      | terminated =>
        cases heq
        exact .join i hi hended
      | panicked =>
        cases heq
        exact .joinPanics i hi hended
    · rename_i i hi
      cases h
      exact .allJoined i (Nat.le_of_not_lt hi)
  · cases h

theorem acts_of_proceed {t t' : Thread} (h : proceed s t o = some (s', t')) : Acts s t s' t' := by
  unfold proceed at h
  split at h
  · cases h
    exact .next _
  · cases h
    exact .dispatchFails _
  · obtain ⟨⟨x, y⟩, hr, heq⟩ := Option.map_eq_some_iff.1 h
    cases heq
    exact acts_of_exec _ hr
  · exact acts_of_loop h
  · obtain ⟨⟨x, y⟩, hr, heq⟩ := Option.map_eq_some_iff.1 h
    cases heq
    exact acts_of_worker hr
  · obtain ⟨⟨x, y⟩, hr, heq⟩ := Option.map_eq_some_iff.1 h
    cases heq
    exact acts_of_drop hr

end

end Workers
