-- SUMMARY: When the bytes of one connection reach `on_data` in the order in which the socket received them.
import MillIo.Connection.Io
import Mathlib.Data.List.Perm.Basic

/-!
# The order of the bytes

Successive events of a connection go to different workers, and the stream is not
locked between the read and the call of `on_data`. The bytes stay in order as long as
each call is made by the worker whose bytes were read first.
-/

namespace Io

open Interleaving

variable {β : Type*} {k : Source} {workers : ℕ} {x y : Io β} {s u : State β} {a : Step β}
  {as : List (Step β)}

/-- About to call `on_data`, while another worker holds bytes that were read
    earlier. -/
def Thread.overtakes (x : Io β) (t : Thread) : Bool :=
  match t.phase with
  | .calling _ => x.held.head?.map Prod.fst ≠ t.worker
  | _ => false

/-- No worker calls `on_data` while another one holds bytes that were read earlier. -/
def InTurn : State β → Step β → Prop :=
  Machine.ThreadSteps fun s t _ => t.overtakes s.shared = false

instance : DecidableRel (InTurn : State β → Step β → Prop) := by
  unfold InTurn
  infer_instance

/-! ## What the workers hold -/

theorem heldBy_spec {i : ℕ} {held rest : List (ℕ × List β)} {bytes : List β}
    (h : heldBy i held = some (bytes, rest)) :
    ∃ pre post, held = pre ++ (i, bytes) :: post ∧ rest = pre ++ post := by
  induction held generalizing rest with
  | nil => cases h
  | cons c held ih =>
    obtain ⟨j, bytes'⟩ := c
    simp only [heldBy] at h
    split at h
    · rename_i hj
      cases h
      exact ⟨[], held, by rw [hj]; rfl, rfl⟩
    · obtain ⟨⟨b, r⟩, hr, heq⟩ := Option.map_eq_some_iff.1 h
      cases heq
      obtain ⟨pre, post, rfl, rfl⟩ := ih hr
      exact ⟨(j, bytes') :: pre, post, rfl, rfl⟩

/-- The worker whose turn it is holds the oldest bytes. -/
theorem heldBy_of_head {i : ℕ} {held rest : List (ℕ × List β)} {bytes : List β}
    (h : heldBy i held = some (bytes, rest)) (hhead : held.head?.map Prod.fst = some i) :
    held = (i, bytes) :: rest := by
  cases held with
  | nil => cases h
  | cons c held =>
    obtain ⟨j, bytes'⟩ := c
    cases hhead
    rw [heldBy, if_pos rfl] at h
    cases h
    rfl

/-- The worker that has read and not yet called `on_data`. -/
def Thread.caller (t : Thread) : Option ℕ :=
  match t.phase with
  | .calling _ => t.worker
  | _ => none

/-- Every worker that has read holds bytes, and no other thread does. -/
def Callers (s : State β) : Prop :=
  (s.shared.held.map Prod.fst).Perm (s.threads.filterMap Thread.caller)

theorem callers_enters {e : Input β} {ts : List Thread} (h : Callers s)
    (he : Enters k s.shared e y ts) : Callers ⟨y, s.threads ++ ts⟩ := by
  have hkeep : y.held = s.shared.held → ts.filterMap Thread.caller = [] → Callers ⟨y, s.threads ++ ts⟩ := by
    intro hheld hts
    unfold Callers
    rw [hheld, List.filterMap_append, hts, List.append_nil]
    exact h
  cases he <;> exact hkeep rfl rfl

theorem caller_handleEvent (k : Source) (e : Readiness) (worker : Option ℕ) :
    Thread.caller ⟨worker, handleEvent k e⟩ = none := by
  cases k <;> cases e with | mk readable writable => cases readable <;> cases writable <;> rfl

theorem caller_afterRead (writable : Bool) (worker : Option ℕ) :
    Thread.caller ⟨worker, afterRead writable⟩ = none := by
  cases writable <;> rfl

theorem callers_act {l l' : List Thread} {t : Thread} {o : Choice} {x' : Io β} {p' : Phase}
    (h : Callers ⟨x, l ++ t :: l'⟩) (hact : Acts k x t.worker t.phase o x' p') :
    Callers ⟨x', l ++ ⟨t.worker, p'⟩ :: l'⟩ := by
  obtain ⟨worker, p⟩ := t
  simp only at hact
  have hkeep : x'.held = x.held → Thread.caller ⟨worker, p⟩ = none →
      Thread.caller ⟨worker, p'⟩ = none → Callers ⟨x', l ++ ⟨worker, p'⟩ :: l'⟩ := by
    intro hheld hbefore hafter
    unfold Callers at h ⊢
    simp only [List.filterMap_append, List.filterMap_cons, hbefore] at h
    simp only [List.filterMap_append, List.filterMap_cons, hafter, hheld]
    exact h
  cases hact with
  | data writable i n hworker =>
    subst hworker
    unfold Callers at h ⊢
    simp only [List.filterMap_append, List.filterMap_cons, Thread.caller] at h ⊢
    rw [List.map_append]
    exact (List.perm_append_singleton _ _).trans ((h.cons i).trans List.perm_middle.symm)
  | call writable i bytes rest hworker hheld =>
    subst hworker
    obtain ⟨pre, post, heq, rfl⟩ := heldBy_spec hheld
    unfold Callers at h ⊢
    simp only [List.filterMap_append, List.filterMap_cons, Thread.caller, heq, List.map_append,
      List.map_cons] at h ⊢
    exact (List.perm_middle.symm.trans (h.trans List.perm_middle)).cons_inv
  | found e => exact hkeep rfl rfl (caller_handleEvent k e worker)
  | gone writable => exact hkeep rfl rfl (caller_afterRead writable worker)
  | wouldBlock writable => exact hkeep rfl rfl (caller_afterRead writable worker)
  | acceptError writable => exact hkeep rfl rfl (caller_afterRead writable worker)
  | handled writable => exact hkeep rfl rfl (caller_afterRead writable worker)
  | unlisted writable => exact hkeep rfl rfl (caller_afterRead writable worker)
  | drop writable => exact hkeep rfl rfl (caller_afterRead writable worker)
  | deregisterError writable => exact hkeep rfl rfl (caller_afterRead writable worker)
  | leave writable => exact hkeep rfl rfl (caller_afterRead writable worker)
  | enter => exact hkeep rfl rfl (by cases k <;> rfl)
  | connectError => exact hkeep rfl rfl (by cases k <;> rfl)
  | _ => exact hkeep rfl rfl rfl

theorem callers_of_run {ok : State β → Step β → Prop}
    (h : Run (system β k).step ok (initial β k workers) as s) : Callers s := by
  refine h.invariant ?_ fun t a u ht _ hs => ?_
  · have hidle : (initial β k workers).threads.filterMap Thread.caller = [] := by
      rw [List.filterMap_eq_nil_iff]
      intro t ht
      rcases List.mem_append.1 ht with ht | ht
      · obtain ⟨i, -, rfl⟩ := List.mem_map.1 ht
        rfl
      · rw [List.mem_singleton.1 ht]
        rfl
    unfold Callers
    rw [hidle]
    exact .nil
  · rcases step_cases hs with ⟨e, y, ts, rfl, he, rfl⟩ | ⟨o, x', t₁, p', l, l', rfl, hts, hact, rfl⟩
    · exact callers_enters ht he
    · obtain ⟨x, ts⟩ := t
      subst hts
      exact callers_act ht hact

/-! ## The order of the calls -/

/-- What has been passed on, what the workers hold and what has not been read make
    up, in this order, what the socket has received. -/
def InOrder (x : Io β) : Prop :=
  x.delivered ++ (x.held.map Prod.snd).flatten ++ x.unread = x.received

theorem inOrder_enters {e : Input β} {ts : List Thread} (h : InOrder x) (he : Enters k x e y ts) :
    InOrder y := by
  cases he with
  | arrive items hclosed =>
    unfold InOrder at h ⊢
    rw [← h]
    simp
  | _ => exact h

theorem inOrder_act {worker : Option ℕ} {p p' : Phase} {o : Choice} (h : InOrder x)
    (hk : k ≠ .listener) (hturn : Thread.overtakes x ⟨worker, p⟩ = false)
    (hact : Acts k x worker p o y p') : InOrder y := by
  cases hact with
  | data writable i n hworker =>
    unfold InOrder at h ⊢
    rw [← h]
    simp
  | call writable i bytes rest hworker hheld =>
    have hhead : x.held.head?.map Prod.fst = some i := by
      simpa [Thread.overtakes, hworker] using hturn
    unfold InOrder at h ⊢
    rw [← h, heldBy_of_head hheld hhead]
    simp
  | accept writable c rest hlistener => exact absurd hlistener hk
  | _ => exact h

theorem inOrder_of_run (hk : k ≠ .listener)
    (h : Run (system β k).step InTurn (initial β k workers) as s) : InOrder s.shared := by
  have hinitial : InOrder (initial β k workers).shared := rfl
  refine h.invariant (I := fun s => InOrder s.shared) hinitial fun t a u ht hok hs => ?_
  rcases step_cases hs with ⟨e, y, ts, rfl, he, rfl⟩ | ⟨o, x', t₁, p', l, l', rfl, hts, hact, rfl⟩
  · exact inOrder_enters ht he
  · obtain ⟨x, ts⟩ := t
    subst hts
    exact inOrder_act ht hk (Machine.threadSteps_at.1 hok) hact

/-! ## One worker -/

/-- The workers are those of the pool. -/
theorem workers_of_run {ok : State β → Step β → Prop}
    (h : Run (system β k).step ok (initial β k workers) as s) :
    s.threads.filterMap Thread.worker = List.range workers := by
  refine h.invariant (I := fun s => s.threads.filterMap Thread.worker = List.range workers) ?_
    fun t a u ht _ hs => ?_
  · simp [initial, List.filterMap_map]
  · rcases step_cases hs with ⟨e, y, ts, rfl, he, rfl⟩ | ⟨o, x', t₁, p', l, l', rfl, hts, hact, rfl⟩
    · rw [List.filterMap_append, ht]
      cases he <;> exact List.append_nil _
    · rw [hts] at ht
      simpa only [List.filterMap_append, List.filterMap_cons] using ht

theorem callers_sublist_workers (ts : List Thread) :
    (ts.filterMap Thread.caller).Sublist (ts.filterMap Thread.worker) := by
  induction ts with
  | nil => exact .slnil
  | cons t ts ih =>
    obtain ⟨worker, p⟩ := t
    cases worker with
    | none =>
      have hcaller : Thread.caller ⟨none, p⟩ = none := by cases p <;> rfl
      simpa only [List.filterMap_cons, hcaller] using ih
    | some i =>
      have hcaller : Thread.caller ⟨some i, p⟩ = none ∨ Thread.caller ⟨some i, p⟩ = some i := by
        cases p <;> simp [Thread.caller]
      rcases hcaller with hcaller | hcaller
      · simp only [List.filterMap_cons, hcaller]
        exact ih.cons i
      · simp only [List.filterMap_cons, hcaller]
        exact ih.cons_cons i

/-- A pool of one worker takes turns. -/
theorem inTurn_of_one_worker (hworkers : workers ≤ 1)
    (h : Run (system β k).step Unrestricted (initial β k workers) as s) :
    Run (system β k).step InTurn (initial β k workers) as s := by
  refine h.restrict fun as t a u ht _ hs => ?_
  rcases step_cases hs with ⟨e, y, ts, rfl, he, rfl⟩ | ⟨o, x', t₁, p', l, l', rfl, hts, hact, rfl⟩
  · trivial
  · have hlength : t.shared.held.length ≤ 1 := by
      have hle := (callers_sublist_workers t.threads).length_le
      rw [workers_of_run ht, List.length_range, ← (callers_of_run ht).length_eq, List.length_map] at hle
      exact hle.trans hworkers
    obtain ⟨x, ts⟩ := t
    subst hts
    refine Machine.threadSteps_at.2 ?_
    obtain ⟨worker, p⟩ := t₁
    simp only at hact hlength
    cases hact with
    | call writable i bytes rest hworker hheld =>
      obtain ⟨pre, post, heq, -⟩ := heldBy_spec hheld
      rw [heq] at hlength
      have hnil : pre = [] := by
        cases pre with
        | nil => rfl
        | cons c pre => simp at hlength
      simp [Thread.overtakes, heq, hnil, hworker]
    | _ => rfl

/-! ## The bytes that `on_data` gets -/

/-- The slices passed to `on_data` are a beginning of what the socket received, in
    every run in which no worker overtakes another one, and so in every run of a pool
    with one worker. -/
theorem delivered_in_order (hk : k ≠ .listener)
    (h : Run (system β k).step Unrestricted (initial β k workers) as s) :
    (Run (system β k).step InTurn (initial β k workers) as s →
      s.shared.delivered <+: s.shared.received) ∧
    (workers ≤ 1 → Run (system β k).step InTurn (initial β k workers) as s) := by
  refine ⟨fun hturn => ?_, fun hworkers => inTurn_of_one_worker hworkers h⟩
  have horder := inOrder_of_run hk hturn
  unfold InOrder at horder
  rw [List.append_assoc] at horder
  exact ⟨_, horder⟩

/-- Two chunks of a server connection, handled one after the other by two workers. -/
def twoChunks : List (Step UInt8) :=
  [.act 2 .go, .act 2 .go, .env (.arrive [1]), .env (.poll false), .env .dispatch,
    .act 0 .go, .act 0 .go, .act 0 (.data 1), .act 0 .go, .act 0 .go,
    .env (.arrive [2]), .env (.poll false), .env .dispatch,
    .act 1 .go, .act 1 .go, .act 1 (.data 1), .act 1 .go]

theorem delivered_in_order_two_chunks :
    ∃ s, Run (system UInt8 .server).step InTurn (initial UInt8 .server 2) twoChunks s ∧
      s.shared.delivered = [1, 2] ∧ s.shared.delivered <+: s.shared.received := by
  obtain ⟨s, hrun, hdelivered⟩ :
      ∃ s, Run (system UInt8 .server).step InTurn (initial UInt8 .server 2) twoChunks s ∧
        s.shared.delivered = [1, 2] := Run.exists_of_exec (by decide +kernel)
  exact ⟨s, hrun, hdelivered, (delivered_in_order (by decide) hrun.unrestricted).1 hrun⟩

/-- The second worker reads behind the first one and calls `on_data` before it. -/
theorem delivered_out_of_order :
    ∃ s, Run (system UInt8 .server).step Unrestricted (initial UInt8 .server 2)
        [.act 2 .go, .act 2 .go, .env (.arrive [1]), .env (.poll false), .env .dispatch,
          .act 0 .go, .act 0 .go, .act 0 (.data 1),
          .env (.arrive [2]), .env (.poll false), .env .dispatch,
          .act 1 .go, .act 1 .go, .act 1 (.data 1), .act 1 .go] s ∧
      s.shared.delivered = [2] ∧ s.shared.received = [1, 2] ∧
      ¬ s.shared.delivered <+: s.shared.received :=
  Run.exists_of_exec (by decide +kernel)

end Io
