-- SUMMARY: `PollHandle` of `mill-io/src/poll.rs` and `Reactor::dispatch_event`: which handler an event of a registered source reaches.
import MillIo.Interleaving.Run
import Mathlib.Logic.Function.Basic

/-!
# The handler registry

`register` first registers the source with the poller and then puts the handler
into the registry under the token; neither looks for an older entry. Sources are
arbitrary, so whether the poller accepts a call is left open.
-/

namespace EventLoop

open Interleaving

abbrev Token := UInt64

/-- An interest in one kind of readiness at least. -/
structure Interest where
  readable : Bool
  writable : Bool
  nonempty : (readable || writable) = true
  deriving DecidableEq

def Interest.readableOnly : Interest := ⟨true, false, rfl⟩
def Interest.readableWritable : Interest := ⟨true, true, rfl⟩

structure HandlerEntry (η : Type*) where
  handler : η
  interest : Interest
  deriving DecidableEq

structure Event where
  token : Token
  isReadable : Bool
  isWritable : Bool

/-- The sources that the poller has registered, each with its token, and the
    registry. `given` remembers what each source was registered with. -/
structure PollHandle (σ η : Type*) where
  polled : σ → Option Token
  registery : Token → Option (HandlerEntry η)
  given : σ → Option (HandlerEntry η)

/-- The handler of the entry, if the event is one it is interested in. -/
def HandlerEntry.select {η : Type*} (entry : HandlerEntry η) (event : Event) : Option η :=
  if (entry.interest.readable && event.isReadable) || (entry.interest.writable && event.isWritable)
  then some entry.handler else none

theorem HandlerEntry.eq_of_select {η : Type*} {entry : HandlerEntry η} {event : Event} {handler : η}
    (h : entry.select event = some handler) : handler = entry.handler := by
  unfold select at h
  split at h
  · exact (Option.some.inj h).symm
  · cases h

namespace PollHandle

variable {σ η : Type*} [DecidableEq σ]

def new : PollHandle σ η := ⟨fun _ => none, fun _ => none, fun _ => none⟩

/-- Whether the call succeeds, and the handle after it. -/
def register (p : PollHandle σ η) (src : σ) (token : Token) (interest : Interest) (handler : η)
    (accepted : Bool) : Bool × PollHandle σ η :=
  if accepted then
    (true, ⟨Function.update p.polled src (some token),
      Function.update p.registery token (some ⟨handler, interest⟩),
      Function.update p.given src (some ⟨handler, interest⟩)⟩)
  else (false, p)

def deregister (p : PollHandle σ η) (src : σ) (token : Token) (accepted : Bool) :
    Bool × PollHandle σ η :=
  if accepted then
    (true, ⟨Function.update p.polled src none, Function.update p.registery token none,
      Function.update p.given src none⟩)
  else (false, p)

/-- The handler that `dispatch_event` calls. -/
def dispatchEvent (p : PollHandle σ η) (event : Event) : Option η :=
  (p.registery event.token).bind fun entry => entry.select event

/-- A source is registered under the token. -/
def InUse (p : PollHandle σ η) (token : Token) : Prop := ∃ src, p.polled src = some token

/-- Every event of a registered source reaches the handler that the source was
    registered with. -/
def Handled (p : PollHandle σ η) : Prop :=
  ∀ src token entry, p.polled src = some token → p.given src = some entry →
    ∀ event, event.token = token → p.dispatchEvent event = entry.select event

/-- What a registered source was registered with is in the registry. -/
def Entered (p : PollHandle σ η) : Prop :=
  ∀ src token, p.polled src = some token → p.registery token = p.given src

/-- A registered source was registered with some handler. -/
def Given (p : PollHandle σ η) : Prop := ∀ src, p.polled src ≠ none → p.given src ≠ none

/-! ## Calls -/

inductive Call (σ η : Type*)
  | register (src : σ) (token : Token) (interest : Interest) (handler : η) (accepted : Bool)
  | deregister (src : σ) (token : Token) (accepted : Bool)

def call (p : PollHandle σ η) : Call σ η → Bool × PollHandle σ η
  | .register src token interest handler accepted => p.register src token interest handler accepted
  | .deregister src token accepted => p.deregister src token accepted

def step (p : PollHandle σ η) (c : Call σ η) : Option (PollHandle σ η) := some (p.call c).2

/-- What the registry promises of a call: registering a token in use fails and
    changes nothing, and afterwards all events reach their handlers. -/
structure Promised (p : PollHandle σ η) (c : Call σ η) : Prop where
  inUse : ∀ src token interest handler accepted,
    c = .register src token interest handler accepted → p.InUse token → p.call c = (false, p)
  handled : (p.call c).2.Handled

/-- A call that the poller accepts registers a token that is not in use, or
    deregisters one that no other source is registered under. -/
def Proper (p : PollHandle σ η) : Call σ η → Prop
  | .register _ token _ _ accepted => accepted = true → ¬ p.InUse token
  | .deregister src token accepted =>
    accepted = true → ∀ src', src' ≠ src → p.polled src' ≠ some token

omit [DecidableEq σ] in
theorem Entered.handled {p : PollHandle σ η} (h : p.Entered) : p.Handled := by
  intro src token entry hpolled hgiven event htoken
  rw [dispatchEvent, htoken, h src token hpolled, hgiven]
  rfl

/-- An event of every kind is one that the entry is interested in. -/
theorem select_all {η : Type*} (entry : HandlerEntry η) (token : Token) :
    entry.select ⟨token, true, true⟩ = some entry.handler := by
  have hsome := entry.interest.nonempty
  simp only [HandlerEntry.select, Bool.and_true, hsome, if_true]

theorem Given.call {p : PollHandle σ η} (h : p.Given) (c : Call σ η) : (p.call c).2.Given := by
  intro src hsrc
  cases c with
  | register src' token interest handler accepted =>
    cases accepted with
    | false => exact h src hsrc
    | true =>
      by_cases heq : src = src'
      · subst heq
        simp [PollHandle.call, register]
      · simp only [PollHandle.call, register, if_true, Function.update_of_ne heq] at hsrc ⊢
        exact h src hsrc
  | deregister src' token accepted =>
    cases accepted with
    | false => exact h src hsrc
    | true =>
      by_cases heq : src = src'
      · subst heq
        simp [PollHandle.call, deregister] at hsrc
      · simp only [PollHandle.call, deregister, if_true, Function.update_of_ne heq] at hsrc ⊢
        exact h src hsrc

theorem Entered.call {p : PollHandle σ η} {c : Call σ η} (h : p.Entered) (hproper : p.Proper c) :
    (p.call c).2.Entered := by
  intro src token hpolled
  cases c with
  | register src' token' interest handler accepted =>
    cases accepted with
    | false => exact h src token hpolled
    | true =>
      simp only [PollHandle.call, register, if_true] at hpolled ⊢
      by_cases heq : src = src'
      · subst heq
        simp only [Function.update_self, Option.some.injEq] at hpolled
        subst hpolled
        simp
      · rw [Function.update_of_ne heq] at hpolled ⊢
        have hne : token ≠ token' := by
          rintro rfl
          exact hproper rfl ⟨src, hpolled⟩
        rw [Function.update_of_ne hne]
        exact h src token hpolled
  | deregister src' token' accepted =>
    cases accepted with
    | false => exact h src token hpolled
    | true =>
      simp only [PollHandle.call, deregister, if_true] at hpolled ⊢
      by_cases heq : src = src'
      · subst heq
        simp at hpolled
      · rw [Function.update_of_ne heq] at hpolled ⊢
        have hne : token ≠ token' := by
          rintro rfl
          exact hproper rfl src heq hpolled
        rw [Function.update_of_ne hne]
        exact h src token hpolled

/-- A call that keeps the promise is proper. -/
theorem Promised.proper {p : PollHandle σ η} {c : Call σ η} (hgiven : p.Given)
    (h : p.Promised c) : p.Proper c := by
  cases c with
  | register src token interest handler accepted =>
    rintro rfl huse
    have hfails := h.inUse src token interest handler true rfl huse
    simp [PollHandle.call, register] at hfails
  | deregister src token accepted =>
    rintro rfl src' hne hpolled
    have hsome : p.given src' ≠ none := hgiven src' (by simp [hpolled])
    obtain ⟨entry, hentry⟩ := Option.ne_none_iff_exists'.1 hsome
    have hdispatch := h.handled src' token entry
      (by simpa [PollHandle.call, deregister, Function.update_of_ne hne] using hpolled)
      (by simpa [PollHandle.call, deregister, Function.update_of_ne hne] using hentry)
      ⟨token, true, true⟩ rfl
    rw [select_all] at hdispatch
    simp [PollHandle.call, deregister, dispatchEvent] at hdispatch

theorem Proper.promised {p : PollHandle σ η} {c : Call σ η} (hentered : p.Entered)
    (h : p.Proper c) : p.Promised c := by
  refine ⟨?_, (hentered.call h).handled⟩
  rintro src token interest handler accepted rfl huse
  cases accepted with
  | true => exact absurd huse (h rfl)
  | false => rfl

/-- In every history of calls the registry keeps its promise at each call if and
    only if each call is proper. -/
theorem promised_iff_proper (cs : List (Call σ η)) (p : PollHandle σ η) :
    Run step Promised new cs p ↔ Run step Proper new cs p := by
  have hgiven : ∀ {ok : PollHandle σ η → Call σ η → Prop} {cs p}, Run step ok new cs p → p.Given := by
    intro ok cs p hrun
    refine hrun.invariant (fun src hsrc => absurd rfl hsrc) fun q c q' hq _ hs => ?_
    cases hs
    exact hq.call c
  have hentered : ∀ {cs} {p : PollHandle σ η}, Run step Proper new cs p → p.Entered := by
    intro cs p hrun
    refine hrun.invariant (fun src token hsrc => by cases hsrc) fun q c q' hq hok hs => ?_
    cases hs
    exact hq.call hok
  constructor
  · intro hrun
    exact hrun.restrict fun cs q c q' hq hok _ => hok.proper (hgiven hq)
  · intro hrun
    exact hrun.restrict fun cs q c q' hq hok _ => hok.promised (hentered hq)

/-- Two sources are registered under one token. Both calls succeed, the events of
    the first source reach the handler of the second, and when the second is
    deregistered they reach no handler. -/
theorem handler_replaced :
    let first := (new : PollHandle ℕ ℕ).register 0 5 .readableOnly 10 true
    let second := first.2.register 1 5 .readableOnly 11 true
    let third := second.2.deregister 1 5 true
    first.2.polled 0 = some 5 ∧ second.1 = true ∧ second.2.polled 0 = some 5 ∧
      second.2.dispatchEvent ⟨5, true, false⟩ = some 11 ∧
      third.2.polled 0 = some 5 ∧ third.2.dispatchEvent ⟨5, true, false⟩ = none := by
  decide

end PollHandle

end EventLoop
