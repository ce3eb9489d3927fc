-- SUMMARY: One RPC server and any number of clients that come and go: each connection goes through a run of the transport, so no client gets to see what another one does.
import MillIo.Rpc.EndToEnd

/-!
# Many clients

The connections of a server share its handler with the buffers of all of them, and the
dispatchers, whose answers are left open. Each connection has its two byte streams and its
client to itself. To one connection the others are events that touch other buffers.
-/

open Interleaving Protocol

/-- The handler of the server, and for each connection there has been its client, the streams
    and the frames in between, until it is closed. The server in them is not up to date. -/
structure Clients where
  server : RpcServerHandler
  ends : List (Option Transport.State)

namespace Clients

inductive Step
  /-- A client has connected, and `on_connect` is run. -/
  | connect
  /-- A step of one connection. -/
  | within (k : ℕ) (a : Transport.Step)
  /-- `on_disconnect` is run. -/
  | disconnect (k : ℕ)

/-- The connections draw their ids from 1 on. -/
def setup (p : Setup) (k : ℕ) : Setup := { p with connId := UInt64.ofNat (k + 1) }

/-- The connection with the server as it is now. -/
def seen (server : RpcServerHandler) (x : Transport.State) : Transport.State :=
  { x with shared := { x.shared with server } }

/-- What happens on other connections happens there. -/
def isOther : Transport.Step → Bool
  | .env (.other _ _) => true
  | _ => false

def step (p : Setup) (s : Clients) : Step → Option Clients
  | .connect =>
    let x := Transport.initial (setup p s.ends.length) s.server
    some ⟨x.shared.server, s.ends ++ [some x]⟩
  | .within k a =>
    if isOther a then none
    else s.ends[k]?.join.bind fun x =>
      ((Transport.system (setup p k)).step (seen s.server x) a).map fun y =>
        ⟨y.shared.server, s.ends.set k (some y)⟩
  | .disconnect k => s.ends[k]?.join.map fun _ =>
    ⟨s.server.onDisconnect (setup p k).connId, s.ends.set k none⟩

/-- A server without connections. -/
def initial : Clients := ⟨⟨fun _ => none⟩, []⟩

/-- The channels take all that is written, the payloads fit, and no timeout expires. -/
def Lossless (p : Setup) (s : Clients) : Step → Prop
  | .within k a => ∀ x ∈ s.ends[k]?.join, Transport.Lossless (setup p k) (seen s.server x) a
  | _ => True

instance (p : Setup) : DecidableRel (Lossless p)
  | _, .connect => .isTrue trivial
  | s, .within k a => inferInstanceAs (Decidable (∀ x ∈ s.ends[k]?.join,
      Transport.Lossless (setup p k) (seen s.server x) a))
  | _, .disconnect _ => .isTrue trivial

def Step.within? (k : ℕ) : Step → Option Transport.Step
  | .within j a => if j = k then some a else none
  | _ => none

/-- The calls that the client of a connection makes, with their ids. -/
def invoked (k : ℕ) (as : List Step) : List Invocation :=
  Transport.invoked (as.filterMap (Step.within? k))

/-! ## Steps -/

variable {p : Setup} {s u : Clients} {as : List Step} {b : Step} {x : Transport.State} {j k : ℕ}

inductive Steps (p : Setup) (s : Clients) : Step → Clients → Prop
  | connect : Steps p s .connect
      ⟨s.server.onConnect (setup p s.ends.length).connId,
        s.ends ++ [some (Transport.initial (setup p s.ends.length) s.server)]⟩
  | within (k : ℕ) (a : Transport.Step) (x y : Transport.State) : isOther a = false →
      s.ends[k]? = some (some x) → (Transport.system (setup p k)).step (seen s.server x) a = some y →
      Steps p s (.within k a) ⟨y.shared.server, s.ends.set k (some y)⟩
  | disconnect (k : ℕ) (x : Transport.State) : s.ends[k]? = some (some x) →
      Steps p s (.disconnect k) ⟨s.server.onDisconnect (setup p k).connId, s.ends.set k none⟩

theorem steps_of_step (h : step p s b = some u) : Steps p s b u := by
  cases b with
  | connect =>
    cases h
    exact .connect
  | within k a =>
    simp only [step] at h
    split at h
    · cases h
    · rename_i hother
      obtain ⟨x, hx, h⟩ := Option.bind_eq_some_iff.1 h
      obtain ⟨y, hy, rfl⟩ := Option.map_eq_some_iff.1 h
      exact .within k a x y (eq_false_of_ne_true hother) (Option.join_eq_some_iff.1 hx) hy
  | disconnect k =>
    obtain ⟨x, hx, rfl⟩ := Option.map_eq_some_iff.1 h
    exact .disconnect k x (Option.join_eq_some_iff.1 hx)

/-- A step of a connection is to the server `on_data` of that connection, or nothing. -/
theorem server_of_step {a : Transport.Step} {y : Transport.State}
    (h : (Transport.system p).step x a = some y) (ha : isOther a = false) :
    y.shared.server = x.shared.server ∨
      ∃ bytes, y.shared.server = x.shared.server.onEvent p.connId (.data bytes) := by
  rcases Transport.step_cases h with ⟨e, z, ts, rfl, he, rfl⟩ | ⟨o, c', t, t', l, l', rfl, hts, hact, rfl⟩
  · cases he with
    | serverData n => exact .inr ⟨_, rfl⟩
    | other => cases ha
    | _ => exact .inl rfl
  · exact .inl rfl

theorem connId_ne (hj : j < 2 ^ 64 - 1) (hk : k < 2 ^ 64 - 1) (hne : j ≠ k) :
    (setup p j).connId ≠ (setup p k).connId := by
  intro h
  have hnat := congrArg UInt64.toNat h
  simp only [setup, UInt64.toNat_ofNat'] at hnat
  omega

/-- An event of one connection is one of the others to another connection. -/
theorem other_step (hne : (setup p j).connId ≠ (setup p k).connId) (server : RpcServerHandler)
    (x : Transport.State) (event : ConnectionEvent) :
    (Transport.system (setup p k)).step (seen server x) (.env (.other (setup p j).connId event)) =
      some (seen (server.onEvent (setup p j).connId event) x) := by
  refine Machine.step_env_iff.2 ⟨_, Transport.env_of_enters (.other _ event hne), ?_⟩
  simp [seen]

/-! ## Runs -/

/-- No step has been one of a connection that there has not been, and each connection that is
    open has gone through a run of the transport with the calls of its client. -/
structure Apart (p : Setup) (as : List Step) (s : Clients) : Prop where
  unborn : ∀ k, s.ends.length ≤ k → as.filterMap (Step.within? k) = []
  alone : ∀ k x, s.ends[k]? = some (some x) → ∃ server bs,
    Transport.invocations bs = Transport.invocations (as.filterMap (Step.within? k)) ∧
    Run (Transport.system (setup p k)).step (Transport.Lossless (setup p k))
      (Transport.initial (setup p k) server) bs (seen s.server x)

/-- The connection `k` is as it was, and another one has had an event. -/
theorem Apart.other (h : Apart p as s) (hx : s.ends[k]? = some (some x))
    (hb : Step.within? k b = none) (hne : (setup p j).connId ≠ (setup p k).connId)
    (event : ConnectionEvent) : ∃ server bs,
      Transport.invocations bs =
        Transport.invocations ((as ++ [b]).filterMap (Step.within? k)) ∧
      Run (Transport.system (setup p k)).step (Transport.Lossless (setup p k))
        (Transport.initial (setup p k) server) bs
        (seen (s.server.onEvent (setup p j).connId event) x) := by
  obtain ⟨server, bs, hcalls, hbs⟩ := h.alone k x hx
  have hlossless : Transport.Lossless (setup p k) (seen s.server x)
      (.env (.other (setup p j).connId event)) := trivial
  refine ⟨server, _, ?_, hbs.snoc hlossless (other_step hne s.server x event)⟩
  rw [List.filterMap_append, List.filterMap_cons_none hb, List.filterMap_nil, List.append_nil, ← hcalls]
  simp [Transport.invocations]

/-- The server is as it was to the connection `k`. -/
theorem Apart.same (h : Apart p as s) (hx : s.ends[k]? = some (some x))
    (hb : Step.within? k b = none) : ∃ server bs,
      Transport.invocations bs =
        Transport.invocations ((as ++ [b]).filterMap (Step.within? k)) ∧
      Run (Transport.system (setup p k)).step (Transport.Lossless (setup p k))
        (Transport.initial (setup p k) server) bs (seen s.server x) := by
  obtain ⟨server, bs, hcalls, hbs⟩ := h.alone k x hx
  refine ⟨server, bs, ?_, hbs⟩
  rw [List.filterMap_append, List.filterMap_cons_none hb, List.filterMap_nil, List.append_nil, hcalls]

theorem Apart.step (h : Apart p as s) (hok : Lossless p s b) (hs : step p s b = some u)
    (hfew : u.ends.length < 2 ^ 64) : Apart p (as ++ [b]) u := by
  have hbound : ∀ {i : ℕ} {o : Option Transport.State}, u.ends[i]? = some o → i < 2 ^ 64 - 1 := by
    intro i o hi
    have hlt := (List.getElem?_eq_some_iff.1 hi).1
    omega
  cases steps_of_step hs with
  | connect =>
    refine ⟨fun k hk => ?_, fun k x hx => ?_⟩
    · rw [List.filterMap_append]
      exact List.append_eq_nil_iff.2 ⟨h.unborn k (by simp at hk; omega), rfl⟩
    · have hk := hbound hx
      rcases Nat.lt_trichotomy k s.ends.length with hold | rfl | hnew
      · rw [List.getElem?_append_left hold] at hx
        exact h.other hx rfl (connId_ne (by simp at hfew; omega) hk (by omega)) .connect
      · obtain rfl : Transport.initial (setup p s.ends.length) s.server = x := by simpa using hx
        refine ⟨s.server, [], ?_, .refl⟩
        rw [List.filterMap_append, h.unborn _ (Nat.le_refl _)]
        rfl
      · rw [List.getElem?_append_right hnew.le, List.getElem?_singleton, if_neg (by omega)] at hx
        cases hx
  | within j a x y hother hx hy =>
    have hj : j < s.ends.length := (List.getElem?_eq_some_iff.1 hx).1
    refine ⟨fun k hk => ?_, fun k z hz => ?_⟩
    · simp only [List.length_set] at hk
      rw [List.filterMap_append, h.unborn k hk]
      simp [Step.within?, Nat.ne_of_lt (hj.trans_le hk)]
    · have hk := hbound hz
      obtain rfl | hne := eq_or_ne j k
      · obtain rfl : y = z := by
          rw [List.getElem?_set_self hj] at hz
          exact Option.some.inj (Option.some.inj hz)
        obtain ⟨server, bs, hcalls, hbs⟩ := h.alone j x hx
        refine ⟨server, bs ++ [a], ?_, hbs.snoc (hok x (Option.join_eq_some_iff.2 hx)) hy⟩
        simp only [Transport.invocations, List.filterMap_append] at hcalls ⊢
        simp [hcalls, Step.within?]
      · rw [List.getElem?_set_ne hne] at hz
        have hb : Step.within? k (.within j a) = none := if_neg hne
        rcases server_of_step hy hother with hsame | ⟨bytes, hdata⟩
        · simp only [hsame]
          exact h.same hz hb
        · simp only [hdata]
          exact h.other hz hb (connId_ne (by simp at hfew; omega) hk hne) (.data bytes)
  | disconnect j x hx =>
    have hj : j < s.ends.length := (List.getElem?_eq_some_iff.1 hx).1
    refine ⟨fun k hk => ?_, fun k z hz => ?_⟩
    · simp only [List.length_set] at hk
      rw [List.filterMap_append]
      exact List.append_eq_nil_iff.2 ⟨h.unborn k hk, rfl⟩
    · have hk := hbound hz
      obtain rfl | hne := eq_or_ne j k
      · rw [List.getElem?_set_self hj] at hz
        cases hz
      · rw [List.getElem?_set_ne hne] at hz
        exact h.other hz rfl (connId_ne (by simp at hfew; omega) hk hne) .disconnect

theorem length_le_of_step (hs : step p s b = some u) : s.ends.length ≤ u.ends.length := by
  cases steps_of_step hs with
  | connect => simp
  | within | disconnect => simp

theorem apart_of_run (h : Run (step p) (Lossless p) initial as s) (hfew : s.ends.length < 2 ^ 64) :
    Apart p as s := by
  induction h with
  | refl => exact ⟨fun _ _ => rfl, fun k x hx => by simp [initial] at hx⟩
  | snoc _ ha hs ih => exact (ih ((length_le_of_step hs).trans_lt hfew)).step ha hs hfew

/-- Each connection that is open has gone through a run of its transport. -/
theorem transport_of_run (h : Run (step p) (Lossless p) initial as s) (hfew : s.ends.length < 2 ^ 64)
    (hx : s.ends[k]? = some (some x)) : ∃ server bs, Transport.invoked bs = invoked k as ∧
      Run (Transport.system (setup p k)).step (Transport.Lossless (setup p k))
        (Transport.initial (setup p k) server) bs (seen s.server x) := by
  obtain ⟨server, bs, hcalls, hbs⟩ := (apart_of_run h hfew).alone k x hx
  refine ⟨server, bs, ?_, hbs⟩
  unfold invoked Transport.invoked
  rw [hcalls]

/-- Two clients call at the same time with the same request id; a part of the first request is
    in its buffer when the second one arrives, and the second client leaves. -/
def twoClients : List Step :=
  let request := (Frame.request 1 0 1 [7] false).encode.length
  let reply := (Frame.response 1 [9]).encode.length
  [.connect, .connect, .within 0 (.env (.call ⟨0, 1, [7]⟩)), .within 1 (.env (.call ⟨0, 1, [8]⟩)),
    .within 0 (.act 0 .go), .within 1 (.act 0 .go), .within 0 (.act 0 .sent), .within 1 (.act 0 .sent),
    .within 0 (.env (.serverData 5)), .within 1 (.env (.serverData request)),
    .within 0 (.env (.serverData (request - 5))), .within 1 (.env (.serverFrame (.ok [6]))),
    .within 0 (.env (.serverFrame (.ok [9]))), .disconnect 1, .within 0 (.env (.clientData reply)),
    .within 0 (.env .clientFrame), .within 0 (.act 0 (.lock false))]

/-- One of the connections goes on. -/
def Advances (p : Setup) (s u : Clients) : Prop :=
  ∃ k x y, s.ends[k]? = some (some x) ∧ Transport.Advances (setup p k) (seen s.server x) y ∧
    u = ⟨y.shared.server, s.ends.set k (some y)⟩

/-- What brings in nothing new is a step of its own connection. -/
theorem isOther_of_internal {a : Transport.Step} (h : Transport.Internal a) : isOther a = false := by
  cases a with
  | env e => cases e <;> first | rfl | exact h.elim
  | act i o => rfl

theorem Advances.step (h : Advances p s u) : ∃ k a, Transport.Internal a ∧
    Lossless p s (.within k a) ∧ step p s (.within k a) = some u := by
  obtain ⟨k, x, y, hx, ⟨a, hinternal, -, hok, hy, -⟩, rfl⟩ := h
  refine ⟨k, a, hinternal, fun z hz => ?_, ?_⟩
  · rw [hx, Option.join_some, Option.mem_def, Option.some.injEq] at hz
    rwa [← hz]
  · simp only [step, isOther_of_internal hinternal, Bool.false_eq_true, if_false, hx, Option.join_some,
      Option.bind_some, hy, Option.map_some]

/-- What is left to do on the connections. -/
def ranks (s : Clients) : Multiset (ℕ × ℕ × ℕ × ℕ × ℕ × ℕ) :=
  ↑(s.ends.filterMap fun o => o.map Transport.rank)

theorem Advances.nearer (h : Advances p s u) :
    Relation.CutExpand Transport.Nearer (ranks u) (ranks s) := by
  obtain ⟨k, x, y, hx, hy, rfl⟩ := h
  exact cutExpand_set hx rfl rfl hy.nearer

/-- A run has come to `s`, with these calls on the connections that are open. -/
def Reached (p : Setup) (calls : ℕ → List Invocation) (s : Clients) : Prop :=
  ∃ as, Run (step p) (Lossless p) initial as s ∧ (∀ k, invoked k as = calls k) ∧ s.ends.length < 2 ^ 64

theorem Reached.advance {calls : ℕ → List Invocation} (h : Reached p calls s) (hadv : Advances p s u) :
    Reached p calls u := by
  obtain ⟨as, hrun, hcalls, hfew⟩ := h
  obtain ⟨k, a, hinternal, hok, hs⟩ := hadv.step
  refine ⟨as ++ [.within k a], hrun.snoc hok hs, fun j => ?_, ?_⟩
  · rw [← hcalls j]
    unfold invoked
    rw [List.filterMap_append]
    obtain rfl | hne := eq_or_ne k j
    · have hwithin : Step.within? k (.within k a) = some a := if_pos rfl
      rw [List.filterMap_cons_some hwithin, List.filterMap_nil]
      exact Transport.invoked_concat_of_internal hinternal
    · have hwithin : Step.within? j (.within k a) = none := if_neg hne
      rw [List.filterMap_cons_none hwithin, List.filterMap_nil, List.append_nil]
  · obtain ⟨j, x, y, hx, hy, rfl⟩ := hadv
    simpa using hfew

theorem complete_of_stopped (hcodec : p.RoundTrips) (hfits : p.NotFoundFits)
    {calls : ℕ → List Invocation} (h : Reached p calls s) (hle : (calls k).length ≤ 2 ^ 64)
    (hstop : ∀ u, ¬ Advances p s u) (hx : s.ends[k]? = some (some x)) :
    Transport.Faithful (setup p k) (calls k) (seen s.server x) ∧
      Transport.Complete (calls k) (seen s.server x) := by
  obtain ⟨as, hrun, hcalls, hfew⟩ := h
  obtain ⟨server, bs, hinvoked, hbs⟩ := transport_of_run hrun hfew hx
  rw [← hcalls, ← hinvoked, Transport.length_invoked hbs] at hle
  rw [← hcalls, ← hinvoked]
  have hcodecHere : (setup p k).RoundTrips := hcodec
  have hfitsHere : (setup p k).NotFoundFits := hfits
  refine ⟨Transport.faithful_of_run hcodecHere hbs hle, ?_⟩
  exact Transport.complete_of_stopped hcodecHere hfitsHere ⟨bs, hbs, rfl, hle⟩
    fun y hy => hstop _ ⟨k, x, y, hx, hy, rfl⟩

theorem length_invoked_le : (invoked k as).length ≤ as.length := by
  unfold invoked Transport.invoked Transport.invocations
  rw [List.length_mapIdx]
  exact (List.length_filterMap_le _ _).trans (List.length_filterMap_le _ _)

end Clients
