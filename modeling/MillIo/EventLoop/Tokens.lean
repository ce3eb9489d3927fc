-- SUMMARY: The tokens that servers and clients register on one event loop, and when they stay apart.
import MillIo.EventLoop.Registry

/-!
# Tokens of servers and clients

The callers of `TcpServer::start` and `TcpClient::start` choose tokens, `RpcServer`
always takes `Token(0)` and `RpcClient` always `Token(usize::MAX - 1)`. An accepted
connection takes its id, which every server counts from one on. The waker of the
poller has `Token(0)`.
-/

namespace EventLoop

open Interleaving

/-- What is registered on the loop: the listener of a server, the connections that a
    server has accepted one after the other, or a client. Every registration brings
    a handler of its own, which goes by the same name. -/
inductive Source
  | listener (server : ℕ)
  | connection (server serial : ℕ)
  | client (client : ℕ)
  deriving DecidableEq

def Source.interest : Source → Interest
  | listener _ => .readableOnly
  | connection _ _ => .readableWritable
  | client _ => .readableWritable

def Source.entry (src : Source) : HandlerEntry Source := ⟨src, src.interest⟩

/-- A server that has been started, with the number of its accepted connections. -/
structure Server where
  nextConnId : UInt64
  accepted : ℕ

structure Loop where
  poll : PollHandle Source Source
  servers : List Server
  clients : ℕ

def wakerToken : Token := 0

/-- The token that the RPC server registers its listener under. -/
def rpcListenerToken : Token := 0

/-- `usize::MAX - 1`. -/
def rpcClientToken : Token := 0xFFFFFFFFFFFFFFFE

/-- A call that registers or deregisters is accepted by the poller or not. -/
inductive Op
  | startServer (token : Token) (accepted : Bool)
  | startClient (token : Token) (accepted : Bool)
  /-- A server accepts a connection. -/
  | accept (server : ℕ) (accepted : Bool)
  /-- The server disposes of a connection. -/
  | closeConnection (server serial : ℕ) (accepted : Bool)
  /-- `TcpClientHandler::disconnect`. -/
  | clientDisconnects (client : ℕ) (accepted : Bool)
  /-- `TcpClient::disconnect`: the stream is dropped, and with it its registration
      with the poller. -/
  | dropClient (client : ℕ)
  deriving DecidableEq

/-- `RpcServerBuilder::build`. -/
def Op.buildRpcServer (accepted : Bool) : Op := .startServer rpcListenerToken accepted

/-- `RpcClient::connect`. -/
def Op.connectRpcClient (accepted : Bool) : Op := .startClient rpcClientToken accepted

namespace Loop

def new : Loop := ⟨.new, [], 0⟩

/-- Dropping a source takes it out of the poller and leaves the registry alone. -/
def forget (p : PollHandle Source Source) (src : Source) : PollHandle Source Source :=
  { p with polled := Function.update p.polled src none, given := Function.update p.given src none }

/-- A source is registered with the handler of its name. -/
def register (l : Loop) (src : Source) (token : Token) (accepted : Bool) :
    PollHandle Source Source :=
  (l.poll.register src token src.interest src accepted).2

def step (l : Loop) : Op → Option Loop
  | .startServer token accepted =>
    some { l with
      poll := l.register (.listener l.servers.length) token accepted
      servers := l.servers ++ [⟨1, 0⟩] }
  | .startClient token accepted =>
    some { l with
      poll := l.register (.client l.clients) token accepted
      clients := l.clients + 1 }
  | .accept server accepted =>
    l.servers[server]?.map fun srv =>
      { l with
        poll := l.register (.connection server srv.accepted) srv.nextConnId accepted
        servers := l.servers.set server ⟨srv.nextConnId + 1, srv.accepted + 1⟩ }
  | .closeConnection server serial accepted =>
    let src := Source.connection server serial
    (l.poll.polled src).map fun token =>
      { l with poll := (l.poll.deregister src token accepted).2 }
  | .clientDisconnects client accepted =>
    let src := Source.client client
    -- the handler deregisters the token of its connection id, which is always one
    (l.poll.polled src).map fun _ =>
      { l with poll := forget (l.poll.deregister src 1 accepted).2 src }
  | .dropClient client => some { l with poll := forget l.poll (.client client) }

/-- The tokens of the registered sources differ from each other and from the token
    of the waker, and the events of each source reach its own handler. -/
structure Separate (l : Loop) : Prop where
  waker : ∀ src, l.poll.polled src ≠ some wakerToken
  distinct : ∀ src src' token,
    l.poll.polled src = some token → l.poll.polled src' = some token → src = src'
  dispatched : ∀ src event, l.poll.polled src = some event.token →
    l.poll.dispatchEvent event = src.entry.select event

/-- A listener or a client is started, or a connection accepted, under a token that
    is neither that of the waker nor in use. A client does not disconnect itself
    while another source is registered under `Token(1)`. -/
def Apart (l : Loop) : Op → Prop
  | .startServer token accepted => accepted = true → token ≠ wakerToken ∧ ¬ l.poll.InUse token
  | .startClient token accepted => accepted = true → token ≠ wakerToken ∧ ¬ l.poll.InUse token
  | .accept server accepted => accepted = true →
    ∀ srv, l.servers[server]? = some srv →
      srv.nextConnId ≠ wakerToken ∧ ¬ l.poll.InUse srv.nextConnId
  | .closeConnection _ _ _ => True
  | .clientDisconnects client accepted => accepted = true →
    ∀ src, src ≠ .client client → l.poll.polled src ≠ some 1
  | .dropClient _ => True

/-! ## What is registered -/

/-- Only what has been started or accepted is registered, each with its own
    handler. -/
structure Named (l : Loop) : Prop where
  given : ∀ src, l.poll.polled src ≠ none → l.poll.given src = some src.entry
  listener : ∀ k, l.poll.polled (.listener k) ≠ none → k < l.servers.length
  connection : ∀ k n, l.poll.polled (.connection k n) ≠ none →
    ∃ srv, l.servers[k]? = some srv ∧ n < srv.accepted
  client : ∀ k, l.poll.polled (.client k) ≠ none → k < l.clients

section

variable {l : Loop} {src src' : Source} {token : Token} {accepted : Bool}

theorem polled_register_of_ne (h : src' ≠ src) :
    (l.register src token accepted).polled src' = l.poll.polled src' := by
  cases accepted with
  | false => rfl
  | true => exact Function.update_of_ne h ..

theorem polled_register_self : (l.register src token true).polled src = some token :=
  Function.update_self ..

theorem given_register (h : ∀ src, l.poll.polled src ≠ none → l.poll.given src = some src.entry)
    (hsrc : (l.register src token accepted).polled src' ≠ none) :
    (l.register src token accepted).given src' = some src'.entry := by
  cases accepted with
  | false => exact h src' hsrc
  | true =>
    by_cases heq : src' = src
    · subst heq
      exact Function.update_self ..
    · rw [polled_register_of_ne heq] at hsrc
      exact (Function.update_of_ne heq ..).trans (h src' hsrc)

/-- Deregistering and dropping a source only take registrations away. -/
structure Shrinks (p p' : PollHandle Source Source) : Prop where
  polled : ∀ src token, p'.polled src = some token → p.polled src = some token
  given : ∀ src, p'.polled src ≠ none → p'.given src = p.given src

theorem shrinks_deregister (p : PollHandle Source Source) (src : Source) (token : Token)
    (accepted : Bool) : Shrinks p (p.deregister src token accepted).2 := by
  cases accepted with
  | false => exact ⟨fun _ _ => id, fun _ _ => rfl⟩
  | true =>
    constructor
    · intro src' t h
      by_cases heq : src' = src
      · subst heq
        simp [PollHandle.deregister] at h
      · simpa [PollHandle.deregister, Function.update_of_ne heq] using h
    · intro src' h
      by_cases heq : src' = src
      · subst heq
        simp [PollHandle.deregister] at h
      · simp [PollHandle.deregister, Function.update_of_ne heq]

theorem shrinks_forget (p : PollHandle Source Source) (src : Source) :
    Shrinks p (forget p src) := by
  constructor
  · intro src' t h
    by_cases heq : src' = src
    · subst heq
      simp [forget] at h
    · simpa [forget, Function.update_of_ne heq] using h
  · intro src' h
    by_cases heq : src' = src
    · subst heq
      simp [forget] at h
    · simp [forget, Function.update_of_ne heq]

theorem Shrinks.trans {p p' p'' : PollHandle Source Source} (h : Shrinks p p')
    (h' : Shrinks p' p'') : Shrinks p p'' := by
  constructor
  · exact fun src t ht => h.polled src t (h'.polled src t ht)
  · intro src hsrc
    obtain ⟨t, ht⟩ := Option.ne_none_iff_exists'.1 hsrc
    have hmid : p'.polled src ≠ none := by simp [h'.polled src t ht]
    exact (h'.given src hsrc).trans (h.given src hmid)

theorem Named.shrink {p : PollHandle Source Source} (h : Named l) (hs : Shrinks l.poll p) :
    Named { l with poll := p } := by
  have hpolled : ∀ src, p.polled src ≠ none → l.poll.polled src ≠ none := by
    intro src hsrc
    obtain ⟨t, ht⟩ := Option.ne_none_iff_exists'.1 hsrc
    simp [hs.polled src t ht]
  exact ⟨fun src hsrc => (hs.given src hsrc).trans (h.given src (hpolled src hsrc)),
    fun k hk => h.listener k (hpolled _ hk), fun k n hk => h.connection k n (hpolled _ hk),
    fun k hk => h.client k (hpolled _ hk)⟩

theorem Named.step {op : Op} {u : Loop} (h : Named l) (hs : l.step op = some u) : Named u := by
  cases op with
  | startServer token accepted =>
    cases hs
    refine ⟨fun src => given_register h.given, fun k hk => ?_, fun k n hk => ?_, fun k hk => ?_⟩
    · by_cases heq : k = l.servers.length
      · simp [heq]
      · rw [polled_register_of_ne (by simpa using heq)] at hk
        have hlt := h.listener k hk
        simp only [List.length_append, List.length_singleton]
        omega
    · rw [polled_register_of_ne (by simp)] at hk
      obtain ⟨srv, hsrv, hlt⟩ := h.connection k n hk
      obtain ⟨hk, -⟩ := List.getElem?_eq_some_iff.1 hsrv
      exact ⟨srv, by rwa [List.getElem?_append_left hk], hlt⟩
    · rw [polled_register_of_ne (by simp)] at hk
      exact h.client k hk
  | startClient token accepted =>
    cases hs
    refine ⟨fun src => given_register h.given, fun k hk => ?_, fun k n hk => ?_, fun k hk => ?_⟩
    · rw [polled_register_of_ne (by simp)] at hk
      exact h.listener k hk
    · rw [polled_register_of_ne (by simp)] at hk
      exact h.connection k n hk
    · by_cases heq : k = l.clients
      · simp [heq]
      · rw [polled_register_of_ne (by simpa using heq)] at hk
        exact Nat.lt_succ_of_lt (h.client k hk)
  | accept server accepted =>
    obtain ⟨srv, hsrv, rfl⟩ := Option.map_eq_some_iff.1 hs
    obtain ⟨hlt, -⟩ := List.getElem?_eq_some_iff.1 hsrv
    refine ⟨fun src => given_register h.given, fun k hk => ?_, fun k n hk => ?_, fun k hk => ?_⟩
    · rw [polled_register_of_ne (by simp)] at hk
      simpa using h.listener k hk
    · by_cases heq : k = server
      · subst heq
        refine ⟨⟨srv.nextConnId + 1, srv.accepted + 1⟩, by simp [hlt], ?_⟩
        by_cases hn : n = srv.accepted
        · simp [hn]
        · rw [polled_register_of_ne (by simpa using hn)] at hk
          obtain ⟨srv', hsrv', hlt'⟩ := h.connection k n hk
          rw [hsrv] at hsrv'
          cases hsrv'
          exact Nat.lt_succ_of_lt hlt'
      · rw [polled_register_of_ne (by simp [heq])] at hk
        obtain ⟨srv', hsrv', hlt'⟩ := h.connection k n hk
        exact ⟨srv', by rwa [List.getElem?_set_ne (Ne.symm heq)], hlt'⟩
    · rw [polled_register_of_ne (by simp)] at hk
      exact h.client k hk
  | closeConnection server serial accepted =>
    obtain ⟨token, -, rfl⟩ := Option.map_eq_some_iff.1 hs
    exact h.shrink (shrinks_deregister _ _ _ _)
  | clientDisconnects client accepted =>
    obtain ⟨token, -, rfl⟩ := Option.map_eq_some_iff.1 hs
    exact h.shrink ((shrinks_deregister _ _ _ _).trans (shrinks_forget _ _))
  | dropClient client =>
    cases hs
    exact h.shrink (shrinks_forget _ _)

/-! ## Registrations that stay apart -/

/-- What the tokens and the registry of a loop satisfy as long as every step keeps
    them apart. -/
structure Orderly (p : PollHandle Source Source) : Prop where
  entered : p.Entered
  waker : ∀ src, p.polled src ≠ some wakerToken
  distinct : ∀ src src' token,
    p.polled src = some token → p.polled src' = some token → src = src'

theorem Orderly.separate (h : Orderly l.poll) (hnamed : Named l) : Separate l := by
  refine ⟨h.waker, h.distinct, fun src event hpolled => ?_⟩
  rw [PollHandle.dispatchEvent, h.entered src _ hpolled, hnamed.given src (by simp [hpolled])]
  rfl

theorem Orderly.register (h : Orderly l.poll)
    (hfree : accepted = true → token ≠ wakerToken ∧ ¬ l.poll.InUse token) :
    Orderly (l.register src token accepted) := by
  have hentered : (l.register src token accepted).Entered :=
    PollHandle.Entered.call (c := .register src token src.interest src accepted) h.entered
      fun haccepted => (hfree haccepted).2
  cases accepted with
  | false => exact h
  | true =>
    obtain ⟨hwaker, huse⟩ := hfree rfl
    refine ⟨hentered, fun src' hsrc' => ?_, fun src₁ src₂ t h₁ h₂ => ?_⟩
    · by_cases heq : src' = src
      · subst heq
        rw [polled_register_self] at hsrc'
        exact hwaker (Option.some.inj hsrc')
      · rw [polled_register_of_ne heq] at hsrc'
        exact h.waker src' hsrc'
    · by_cases heq₁ : src₁ = src <;> by_cases heq₂ : src₂ = src
      · rw [heq₁, heq₂]
      · rw [heq₁, polled_register_self] at h₁
        rw [polled_register_of_ne heq₂] at h₂
        cases h₁
        exact absurd ⟨src₂, h₂⟩ huse
      · rw [heq₂, polled_register_self] at h₂
        rw [polled_register_of_ne heq₁] at h₁
        cases h₂
        exact absurd ⟨src₁, h₁⟩ huse
      · rw [polled_register_of_ne heq₁] at h₁
        rw [polled_register_of_ne heq₂] at h₂
        exact h.distinct src₁ src₂ t h₁ h₂

theorem Orderly.shrink {p p' : PollHandle Source Source} (h : Orderly p) (hs : Shrinks p p')
    (hentered : p'.Entered) : Orderly p' :=
  ⟨hentered, fun src hsrc => h.waker src (hs.polled src _ hsrc),
    fun src₁ src₂ t h₁ h₂ => h.distinct src₁ src₂ t (hs.polled _ _ h₁) (hs.polled _ _ h₂)⟩

theorem Orderly.deregister {p : PollHandle Source Source} (h : Orderly p)
    (hother : accepted = true → ∀ src', src' ≠ src → p.polled src' ≠ some token) :
    Orderly (p.deregister src token accepted).2 :=
  h.shrink (shrinks_deregister _ _ _ _)
    (PollHandle.Entered.call (c := .deregister src token accepted) h.entered hother)

theorem Orderly.forget {p : PollHandle Source Source} (h : Orderly p) (src : Source) :
    Orderly (forget p src) := by
  have hshrinks := shrinks_forget p src
  refine h.shrink hshrinks fun src' t hsrc' => ?_
  rw [hshrinks.given src' (by simp [hsrc'])]
  exact h.entered src' t (hshrinks.polled src' t hsrc')

theorem Orderly.step {op : Op} {u : Loop} (h : Orderly l.poll) (hapart : Apart l op)
    (hs : l.step op = some u) : Orderly u.poll := by
  cases op with
  | startServer token accepted =>
    cases hs
    exact h.register hapart
  | startClient token accepted =>
    cases hs
    exact h.register hapart
  | accept server accepted =>
    obtain ⟨srv, hsrv, rfl⟩ := Option.map_eq_some_iff.1 hs
    exact h.register fun haccepted => hapart haccepted srv hsrv
  | closeConnection server serial accepted =>
    obtain ⟨token, htoken, rfl⟩ := Option.map_eq_some_iff.1 hs
    exact h.deregister fun _ src' hne hsrc' => hne (h.distinct _ _ _ hsrc' htoken)
  | clientDisconnects client accepted =>
    obtain ⟨token, -, rfl⟩ := Option.map_eq_some_iff.1 hs
    exact (h.deregister hapart).forget _
  | dropClient client =>
    cases hs
    exact h.forget _

/-! ## Steps that do not keep them apart -/

theorem free_of_separate {u : Loop} (hpoll : u.poll = l.register src token true)
    (hnew : l.poll.polled src = none) (h : Separate u) :
    token ≠ wakerToken ∧ ¬ l.poll.InUse token := by
  have hself : u.poll.polled src = some token := by
    rw [hpoll]
    exact polled_register_self
  refine ⟨?_, ?_⟩
  · rintro rfl
    exact h.waker src hself
  · rintro ⟨src', hsrc'⟩
    have hne : src' ≠ src := by
      rintro rfl
      rw [hnew] at hsrc'
      cases hsrc'
    have hother : u.poll.polled src' = some token := by
      rw [hpoll, polled_register_of_ne hne]
      exact hsrc'
    exact hne (h.distinct src' src token hother hself)

theorem Separate.apart {op : Op} {u : Loop} (hnamed : Named l) (hs : l.step op = some u)
    (h : Separate u) : Apart l op := by
  cases op with
  | startServer token accepted =>
    rintro rfl
    cases hs
    refine free_of_separate rfl ?_ h
    by_contra hpolled
    exact absurd (hnamed.listener _ hpolled) (Nat.lt_irrefl _)
  | startClient token accepted =>
    rintro rfl
    cases hs
    refine free_of_separate rfl ?_ h
    by_contra hpolled
    exact absurd (hnamed.client _ hpolled) (Nat.lt_irrefl _)
  | accept server accepted =>
    rintro rfl srv hsrv
    obtain ⟨srv', hsrv', rfl⟩ := Option.map_eq_some_iff.1 hs
    rw [hsrv] at hsrv'
    cases hsrv'
    refine free_of_separate rfl ?_ h
    by_contra hpolled
    obtain ⟨srv', hsrv', hlt⟩ := hnamed.connection _ _ hpolled
    rw [hsrv] at hsrv'
    cases hsrv'
    exact absurd hlt (Nat.lt_irrefl _)
  | closeConnection server serial accepted => trivial
  | clientDisconnects client accepted =>
    rintro rfl src hne hpolled
    obtain ⟨token, -, rfl⟩ := Option.map_eq_some_iff.1 hs
    -- the entry under the token is gone, and the source is still registered
    have hstill : (Loop.forget (l.poll.deregister (.client client) 1 true).2
        (.client client)).polled src = some 1 := by
      simpa [Loop.forget, PollHandle.deregister, Function.update_of_ne hne] using hpolled
    have hdispatch := h.dispatched src ⟨1, true, true⟩ hstill
    rw [PollHandle.select_all] at hdispatch
    simp [PollHandle.dispatchEvent, Loop.forget, PollHandle.deregister] at hdispatch
  | dropClient client => trivial

end

/-- Every step of the run leads to a loop whose tokens are separate. -/
def StaysSeparate (l : Loop) (op : Op) : Prop := ∀ u, l.step op = some u → Separate u

/-- In every history the tokens of all registered sources are separate after each
    step, and all events reach the handlers of their sources, if and only if each
    step keeps them apart. -/
theorem separate_iff_apart (ops : List Op) (l : Loop) :
    Run step StaysSeparate new ops l ↔ Run step Apart new ops l := by
  have hnamed : ∀ {ok : Loop → Op → Prop} {ops l}, Run step ok new ops l → Named l := by
    intro ok ops l hrun
    refine hrun.invariant ⟨?_, ?_, ?_, ?_⟩ fun _ _ _ hl _ hs => hl.step hs
    · exact fun src hsrc => absurd rfl hsrc
    · exact fun k hk => absurd rfl hk
    · exact fun k n hk => absurd rfl hk
    · exact fun k hk => absurd rfl hk
  have horderly : ∀ {ops l}, Run step Apart new ops l → Orderly l.poll := by
    intro ops l hrun
    refine hrun.invariant (I := fun l => Orderly l.poll) ⟨?_, ?_, ?_⟩
      fun _ _ _ hl hok hs => hl.step hok hs
    · exact fun src t hsrc => by cases hsrc
    · exact fun src hsrc => by cases hsrc
    · exact fun src src' t hsrc => by cases hsrc
  constructor
  · intro hrun
    exact hrun.restrict fun _ l op u hl hok hs => (hok u hs).apart (hnamed hl) hs
  · intro hrun
    refine hrun.restrict fun _ l op u hl hok hs u' hs' => ?_
    exact ((horderly hl).step hok hs').separate ((hnamed hl).step hs')

/-- The listener is given `Token(1)`, which is also the first connection's. And two
    RPC clients are connected on one loop. -/
theorem tokens_collide :
    (∃ l, Run step Unrestricted new [.startServer 1 true, .accept 0 true] l ∧
      l.poll.polled (.listener 0) = some 1 ∧ l.poll.polled (.connection 0 0) = some 1 ∧
      l.poll.dispatchEvent ⟨1, true, false⟩ = some (.connection 0 0)) ∧
    ∃ l, Run step Unrestricted new [.connectRpcClient true, .connectRpcClient true] l ∧
      l.poll.polled (.client 0) = l.poll.polled (.client 1) ∧
      l.poll.dispatchEvent ⟨rpcClientToken, true, false⟩ = some (.client 1) :=
  ⟨Run.exists_of_exec (by decide +kernel), Run.exists_of_exec (by decide +kernel)⟩

end Loop

end EventLoop
