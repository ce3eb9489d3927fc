-- SUMMARY: `PollHandle::register` and `deregister` at their two steps each, interleaved with the reactor that polls and dispatches events, directly or through the pool.
import MillIo.EventLoop.Registry
import MillIo.EventLoop.ThreadPool
import MillIo.Interleaving.Lock

/-!
# Registering while events are dispatched

`register` first registers the source with the poller and then puts the handler into
the registry; `deregister` takes them out in the same order. Each of them borrows the
source until it returns. The reactor polls, and for each event looks the token up and
calls the handler it finds, or a worker of the pool does. The look-up and the call are
two steps.

Sources go by numbers, and so do the calls of `register` that the poller accepts; a
handler goes by the number of the call it was given to. The waker of the poller is left
out.
-/
namespace Dispatch

open Interleaving EventLoop

deriving instance DecidableEq for EventLoop.Event

/-- A source that the poller has registered. -/
structure Registration where
  id : ℕ
  token : Token
  interest : Interest
  deriving DecidableEq

def Registration.entry (reg : Registration) : HandlerEntry ℕ := ⟨reg.id, reg.interest⟩

/-- An event that a poll has reported. The dispatch reads `event` only; the other fields
    say which report it is, and for which registration. -/
structure Report where
  serial : ℕ
  reg : Registration
  event : Event
  deriving DecidableEq

inductive Record
  | reported (r : Report)
  /-- `handle_event` of the handler has been called with the event. -/
  | called (r : Report) (handler : ℕ)
  /-- `deregister` has returned `Ok` for the registration. -/
  | deregistered (id : ℕ)
  deriving DecidableEq

structure Shared where
  polled : ℕ → Option Registration
  registery : Token → Option (HandlerEntry ℕ)
  /-- The sources that a call of `register` or `deregister` borrows. -/
  borrowed : ℕ → Bool
  /-- The source and the token of each registration. -/
  registrations : List (ℕ × Token)
  directDispatch : Bool
  pool : ThreadPool Report
  /-- The workers whose thread has ended. -/
  ended : ℕ → Bool
  /-- A call of `run` is in progress. -/
  looping : Bool
  reports : ℕ
  history : List Record

inductive Register
  | entering (src : ℕ) (token : Token) (interest : Interest)
  | inserting (src : ℕ) (reg : Registration)
  | returned (ok : Bool)
  deriving DecidableEq

inductive Deregister
  | entering (src : ℕ) (token : Token)
  | removing (src : ℕ) (token : Token) (reg : Registration)
  | returning (src : ℕ) (reg : Registration)
  | returned (ok : Bool)
  deriving DecidableEq

/-- `Reactor::run`, outside the dispatch of an event. -/
inductive Loop
  | polling
  | dispatching (rest : List Report)
  | returned
  deriving DecidableEq

inductive Worker
  | receiving
  | exited
  deriving DecidableEq

/-- Where an event is dispatched: on the thread of the reactor, with the events that are
    still to be dispatched after it, or on a worker. -/
inductive Site
  | reactor (rest : List Report)
  | worker (id : ℕ)
  deriving DecidableEq

inductive Phase
  | looking (r : Report)
  | found (r : Report) (handler : ℕ)
  | handling
  deriving DecidableEq

inductive Thread
  | register (t : Register)
  | deregister (t : Deregister)
  | loop (t : Loop)
  | worker (id : ℕ) (t : Worker)
  | dispatch (site : Site) (t : Phase)
  deriving DecidableEq

inductive Input
  | register (src : ℕ) (token : Token) (interest : Interest)
  | deregister (src : ℕ) (token : Token)
  | run
  deriving DecidableEq

/-- What is left open in a step: whether the poller accepts a call, which sources a poll
    reports as readable or writable, whether the loop ends there, and whether a handler
    panics. -/
inductive Choice
  | goes
  | fails
  | polls (ready : List (ℕ × Bool × Bool))
  | panics
  deriving DecidableEq

/-! ## The atomic steps -/

namespace Shared

def borrow (s : Shared) (src : ℕ) : Shared :=
  { s with borrowed := Function.update s.borrowed src true }

def release (s : Shared) (src : ℕ) : Shared :=
  { s with borrowed := Function.update s.borrowed src false }

def record (s : Shared) (ev : Record) : Shared := { s with history := s.history ++ [ev] }

/-- The poller registers the source. -/
def watch (s : Shared) (src : ℕ) (reg : Registration) : Shared :=
  { s with
    polled := Function.update s.polled src (some reg)
    registrations := s.registrations ++ [(src, reg.token)] }

def unwatch (s : Shared) (src : ℕ) : Shared :=
  { s with polled := Function.update s.polled src none }

def insert (s : Shared) (reg : Registration) : Shared :=
  { s with registery := Function.update s.registery reg.token (some reg.entry) }

def remove (s : Shared) (token : Token) : Shared :=
  { s with registery := Function.update s.registery token none }

/-- A poll reports events of registered sources only. -/
def reportsOf (s : Shared) (ready : List (ℕ × Bool × Bool)) : List Report :=
  ready.zipIdx.filterMap fun ((src, isReadable, isWritable), i) =>
    (s.polled src).map fun reg => ⟨s.reports + i, reg, ⟨reg.token, isReadable, isWritable⟩⟩

def poll (s : Shared) (ready : List (ℕ × Bool × Bool)) : Shared :=
  { s with
    reports := s.reports + ready.length
    history := s.history ++ (s.reportsOf ready).map .reported }

/-- The handler that is to be called with the event. -/
def lookup (s : Shared) (event : Event) : Option ℕ :=
  (s.registery event.token).bind fun entry => entry.select event

/-- The loop ends. -/
def leave (s : Shared) : Shared := { s with looping := false }

/-- The worker whose turn it is. -/
def index (s : Shared) : ℕ := s.pool.nextWorker % s.pool.queues.length

/-- A panic ends the thread of a worker, and its receiver is dropped. -/
def close (s : Shared) (id : ℕ) : Shared :=
  { s with pool := s.pool.close id, ended := Function.update s.ended id true }

end Shared

/-- The thread goes on when the event has been dispatched. -/
def Site.resume : Site → Thread
  | .reactor rest => .loop (.dispatching rest)
  | .worker id => .worker id .receiving

/-- The handler has panicked. -/
def Site.unwind (s : Shared) : Site → Shared × Thread
  | .reactor _ => (s.leave, .loop .returned)
  | .worker id => (s.close id, .worker id .exited)

def enter (s : Shared) : Input → Option (Shared × List Thread)
  | .register src token interest =>
    if s.borrowed src then none
    else some (s.borrow src, [.register (.entering src token interest)])
  | .deregister src token =>
    if s.borrowed src then none
    else some (s.borrow src, [.deregister (.entering src token)])
  | .run => if s.looping then none else some ({ s with looping := true }, [.loop .polling])

def Register.proceed (s : Shared) : Register → Choice → Option (Shared × Register)
  | .entering src token interest, .goes =>
    let reg := ⟨s.registrations.length, token, interest⟩
    some (s.watch src reg, .inserting src reg)
  | .entering src _ _, .fails => some (s.release src, .returned false)
  | .inserting src reg, .goes => some ((s.insert reg).release src, .returned true)
  | _, _ => none

def Deregister.proceed (s : Shared) : Deregister → Choice → Option (Shared × Deregister)
  | .entering src token, .goes =>
    (s.polled src).map fun reg => (s.unwatch src, .removing src token reg)
  | .entering src _, .fails => some (s.release src, .returned false)
  | .removing src token reg, .goes => some (s.remove token, .returning src reg)
  | .returning src reg, .goes =>
    some ((s.release src).record (.deregistered reg.id), .returned true)
  | _, _ => none

def Loop.proceed (s : Shared) : Loop → Choice → Option (Shared × Thread)
  | .polling, .polls ready => some (s.poll ready, .loop (.dispatching (s.reportsOf ready)))
  | .polling, .fails => some (s.leave, .loop .returned)
  | .dispatching [], .goes => some (s, .loop .polling)
  | .dispatching (r :: rest), .goes =>
    if s.directDispatch then some (s, .dispatch (.reactor rest) (.looking r))
    -- `exec` panics if there is no worker, and fails if the worker has ended
    else if s.pool.queues.length = 0 ∨ s.ended s.index then
      some ({ s with pool := s.pool.execOther }.leave, .loop .returned)
    else some ({ s with pool := s.pool.exec r }, .loop (.dispatching rest))
  | _, _ => none

def Worker.proceed (s : Shared) (id : ℕ) : Worker → Choice → Option (Shared × Thread)
  | .receiving, .goes =>
    (s.pool.recv id).map fun r => ({ s with pool := r.2 }, .dispatch (.worker id) (.looking r.1))
  | _, _ => none

def Phase.proceed (s : Shared) (site : Site) : Phase → Choice → Option (Shared × Thread)
  | .looking r, .goes =>
    match s.lookup r.event with
    | some handler => some (s, .dispatch site (.found r handler))
    | none => some (s, site.resume)
  | .found r handler, .goes => some (s.record (.called r handler), .dispatch site .handling)
  | .handling, .goes => some (s, site.resume)
  | .handling, .panics => some (site.unwind s)
  | _, _ => none

def proceed (s : Shared) : Thread → Choice → Option (Shared × Thread)
  | .register t, o => (t.proceed s o).map fun r => (r.1, .register r.2)
  | .deregister t, o => (t.proceed s o).map fun r => (r.1, .deregister r.2)
  | .loop t, o => t.proceed s o
  | .worker id t, o => t.proceed s id o
  | .dispatch site t, o => t.proceed s site o

def system : Machine Shared Thread Input Choice where
  env := enter
  act := proceed

abbrev State := Config Shared Thread

abbrev Step := Action Input Choice

def Shared.new (capacity : ℕ) (directDispatch : Bool) : Shared where
  polled := fun _ => none
  registery := fun _ => none
  borrowed := fun _ => false
  registrations := []
  directDispatch := directDispatch
  pool := .new capacity
  ended := fun _ => false
  looping := false
  reports := 0
  history := []

def initial (capacity : ℕ) (directDispatch : Bool) : State :=
  ⟨.new capacity directDispatch, (List.range capacity).map fun id => .worker id .receiving⟩

/-! ## The calls that nothing interrupts -/

/-- The registry as callers see it between their calls. -/
def Shared.pollHandle (s : Shared) : PollHandle ℕ ℕ where
  polled := fun src => (s.polled src).map Registration.token
  registery := s.registery
  given := fun src => (s.polled src).map Registration.entry

theorem map_polled_update {α : Type} (f : Registration → α) (polled : ℕ → Option Registration)
    (src : ℕ) (reg : Option Registration) :
    (fun i => (Function.update polled src reg i).map f) =
      Function.update (fun i => (polled i).map f) src (reg.map f) :=
  Function.comp_update (Option.map f) polled src reg

theorem pollHandle_register (s : Shared) (src : ℕ) (reg : Registration) :
    ((s.watch src reg).insert reg).pollHandle =
      (s.pollHandle.register src reg.token reg.interest reg.id true).2 := by
  simp only [Shared.pollHandle, Shared.insert, Shared.watch, PollHandle.register, if_true,
    map_polled_update]
  rfl

theorem pollHandle_deregister (s : Shared) (src : ℕ) (token : Token) :
    ((s.unwatch src).remove token).pollHandle = (s.pollHandle.deregister src token true).2 := by
  simp only [Shared.pollHandle, Shared.unwatch, Shared.remove, PollHandle.deregister, if_true,
    map_polled_update]
  rfl

theorem lookup_eq_dispatchEvent (s : Shared) (event : Event) :
    s.lookup event = s.pollHandle.dispatchEvent event := rfl

theorem polled_of_unwatch {s : Shared} {src src' : ℕ} {reg : Registration}
    (h : (s.unwatch src).polled src' = some reg) : s.polled src' = some reg := by
  by_cases heq : src' = src
  · subst heq
    simp [Shared.unwatch] at h
  · simpa [Shared.unwatch, Function.update_of_ne heq] using h

theorem registery_of_remove {s : Shared} {token token' : Token} {entry : HandlerEntry ℕ}
    (h : (s.remove token).registery token' = some entry) : s.registery token' = some entry := by
  by_cases heq : token' = token
  · subst heq
    simp [Shared.remove] at h
  · simpa [Shared.remove, Function.update_of_ne heq] using h

/-! ## What a thread can do -/

inductive Acts (s : Shared) : Thread → Choice → Shared → Thread → Prop
  | watch (src : ℕ) (reg : Registration) (hid : reg.id = s.registrations.length) :
      Acts s (.register (.entering src reg.token reg.interest)) .goes (s.watch src reg)
        (.register (.inserting src reg))
  | refuse (src : ℕ) (token : Token) (interest : Interest) :
      Acts s (.register (.entering src token interest)) .fails (s.release src)
        (.register (.returned false))
  | insert (src : ℕ) (reg : Registration) :
      Acts s (.register (.inserting src reg)) .goes ((s.insert reg).release src)
        (.register (.returned true))
  | unwatch (src : ℕ) (token : Token) (reg : Registration) (hpolled : s.polled src = some reg) :
      Acts s (.deregister (.entering src token)) .goes (s.unwatch src)
        (.deregister (.removing src token reg))
  | decline (src : ℕ) (token : Token) :
      Acts s (.deregister (.entering src token)) .fails (s.release src)
        (.deregister (.returned false))
  | remove (src : ℕ) (token : Token) (reg : Registration) :
      Acts s (.deregister (.removing src token reg)) .goes (s.remove token)
        (.deregister (.returning src reg))
  | confirm (src : ℕ) (reg : Registration) :
      Acts s (.deregister (.returning src reg)) .goes
        ((s.release src).record (.deregistered reg.id)) (.deregister (.returned true))
  | poll (ready : List (ℕ × Bool × Bool)) :
      Acts s (.loop .polling) (.polls ready) (s.poll ready) (.loop (.dispatching (s.reportsOf ready)))
  | leave : Acts s (.loop .polling) .fails s.leave (.loop .returned)
  | dispatched : Acts s (.loop (.dispatching [])) .goes s (.loop .polling)
  | look (r : Report) (rest : List Report) :
      Acts s (.loop (.dispatching (r :: rest))) .goes s (.dispatch (.reactor rest) (.looking r))
  | reject (r : Report) (rest : List Report) (hpooled : s.directDispatch = false)
      (hended : s.pool.queues.length = 0 ∨ s.ended s.index = true) :
      Acts s (.loop (.dispatching (r :: rest))) .goes { s with pool := s.pool.execOther }.leave
        (.loop .returned)
  | exec (r : Report) (rest : List Report) (hpos : 0 < s.pool.queues.length)
      (hlive : s.ended s.index = false) :
      Acts s (.loop (.dispatching (r :: rest))) .goes { s with pool := s.pool.exec r }
        (.loop (.dispatching rest))
  | receive (id : ℕ) (r : Report) (pool : ThreadPool Report) (hrecv : s.pool.recv id = some (r, pool)) :
      Acts s (.worker id .receiving) .goes { s with pool } (.dispatch (.worker id) (.looking r))
  | find (site : Site) (r : Report) (handler : ℕ) (hlookup : s.lookup r.event = some handler) :
      Acts s (.dispatch site (.looking r)) .goes s (.dispatch site (.found r handler))
  | miss (site : Site) (r : Report) (hlookup : s.lookup r.event = none) :
      Acts s (.dispatch site (.looking r)) .goes s site.resume
  | call (site : Site) (r : Report) (handler : ℕ) :
      Acts s (.dispatch site (.found r handler)) .goes (s.record (.called r handler))
        (.dispatch site .handling)
  | finish (site : Site) : Acts s (.dispatch site .handling) .goes s site.resume
  | panic (site : Site) :
      Acts s (.dispatch site .handling) .panics (site.unwind s).1 (site.unwind s).2

section

variable {s s' : Shared} {o : Choice}

theorem acts_of_register {t t' : Register} (h : t.proceed s o = some (s', t')) :
    Acts s (.register t) o s' (.register t') := by
  unfold Register.proceed at h
  split at h
  · cases h
    exact .watch _ ⟨_, _, _⟩ rfl
  · cases h
    exact .refuse _ _ _
  · cases h
    exact .insert _ _
  · cases h

theorem acts_of_deregister {t t' : Deregister} (h : t.proceed s o = some (s', t')) :
    Acts s (.deregister t) o s' (.deregister t') := by
  unfold Deregister.proceed at h
  split at h
  · obtain ⟨reg, hpolled, heq⟩ := Option.map_eq_some_iff.1 h
    cases heq
    exact .unwatch _ _ reg hpolled
  · cases h
    exact .decline _ _
  · cases h
    exact .remove _ _ _
  · cases h
    exact .confirm _ _
  · cases h

theorem acts_of_loop {t : Loop} {t' : Thread} (h : t.proceed s o = some (s', t')) :
    Acts s (.loop t) o s' t' := by
  unfold Loop.proceed at h
  split at h
  · cases h
    exact .poll _
  · cases h
    exact .leave
  · cases h
    exact .dispatched
  · split at h
    · cases h
      exact .look _ _
    · rename_i hpooled
      split at h
      · rename_i hended
        cases h
        exact .reject _ _ (Bool.eq_false_iff.2 hpooled) hended
      · rename_i hlive
        cases h
        obtain ⟨hpos, hended⟩ := not_or.1 hlive
        exact .exec _ _ (Nat.pos_of_ne_zero hpos) (Bool.eq_false_iff.2 hended)
  · cases h

theorem acts_of_phase {site : Site} {t : Phase} {t' : Thread}
    (h : t.proceed s site o = some (s', t')) : Acts s (.dispatch site t) o s' t' := by
  unfold Phase.proceed at h
  split at h
  · split at h
    · rename_i hlookup
      cases h
      exact .find site _ _ hlookup
    · rename_i hlookup
      cases h
      exact .miss site _ hlookup
  · cases h
    exact .call site _ _
  · cases h
    exact .finish site
  · obtain rfl : (site.unwind s).1 = s' := congrArg Prod.fst (Option.some.inj h)
    obtain rfl : (site.unwind s).2 = t' := congrArg Prod.snd (Option.some.inj h)
    exact .panic site
  · cases h

theorem acts_of_proceed {t t' : Thread} (h : proceed s t o = some (s', t')) :
    Acts s t o s' t' := by
  cases t with
  | register t =>
    obtain ⟨⟨x, y⟩, hr, heq⟩ := Option.map_eq_some_iff.1 h
    cases heq
    exact acts_of_register hr
  | deregister t =>
    obtain ⟨⟨x, y⟩, hr, heq⟩ := Option.map_eq_some_iff.1 h
    cases heq
    exact acts_of_deregister hr
  | loop t => exact acts_of_loop h
  | worker id t =>
    cases t with
    | receiving =>
      cases o with
      | goes =>
        obtain ⟨⟨r, pool⟩, hrecv, heq⟩ := Option.map_eq_some_iff.1 h
        cases heq
        exact .receive id r pool hrecv
      | _ => cases h
    | exited => cases h
  | dispatch site t => exact acts_of_phase h

end

end Dispatch
