-- SUMMARY: When the connection counter of the server is exact, and when it enforces `max_connections`.
import MillIo.Server.Entries
import Mathlib.Algebra.Order.Ring.Nat

/-!
# The connection counter

The counter and the map change in separate steps. Between the two steps a thread
accounts for the difference: an accept routine that has counted its connection and
not inserted it, or whoever has removed an entry and not yet decremented the
counter.
-/

namespace Server

open Interleaving

/-! ## What threads account for -/

/-- One between the increment of the counter and the insertion into the map. -/
def Accept.counted : Accept → ℕ
  | .drawing _ => 1
  | .registering _ _ => 1
  | .backingOut _ => 1
  | .inserting _ _ => 1
  | _ => 0

def Thread.counted : Thread → ℕ
  | .accept t => t.counted
  | _ => 0

/-- One between the removal from the map and the decrement of the counter. -/
def Thread.uncounting : Thread → ℕ
  | .accept (.deregistering _) => 1
  | .accept (.uncounting _ removed) => removed.toNat
  | .handle _ _ _ .uncounting => 1
  | _ => 0

/-- The entries of the map and the steps between a change of the map and the change
    of the counter. -/
def due (s : State) : ℕ := s.shared.connections.card +
  Machine.total Thread.counted s.threads + Machine.total Thread.uncounting s.threads

def Exact (s : State) : Prop := s.shared.connectionCount = UInt64.ofNat (due s)

instance : DecidablePred Exact := fun _ => inferInstanceAs (Decidable (_ = _))

/-- `close_connection` removes an entry, a new connection takes the place of one whose id
    has come round, or a failed `on_connect` decrements the counter for an entry that it
    has not removed. -/
def Thread.unpaired (s : TcpServer) : Thread → Bool
  | .close id .removing => decide (id ∈ s.connections)
  | .accept (.inserting id _) => decide (id ∈ s.connections)
  | .accept (.uncounting _ removed) => !removed
  | _ => false

def Paired : State → Step → Prop :=
  Machine.ThreadSteps fun s t _ => t.unpaired s.shared = false

instance : DecidableRel Paired := by unfold Paired; infer_instance

/-! ## One step -/

section

variable {s s' : TcpServer} {t t' : Thread} {l l' : List Thread} {o : Choice} {id : ℕ}

theorem card_insert (h : id ∉ s.connections) :
    (s.insert id).connections.card = s.connections.card + 1 :=
  Finset.card_insert_of_notMem h

theorem card_remove (exit : Exit) (h : id ∈ s.connections) :
    (s.remove id exit).connections.card + 1 = s.connections.card :=
  Finset.card_erase_add_one h

@[simp] theorem uncounting_afterRead {isReadable isWritable ended : Bool} :
    (Thread.handle id isReadable isWritable (.afterRead isWritable ended)).uncounting = 0 := by
  cases isWritable <;> rfl

/-- What the shared state and one thread say the counter should be. -/
def share (s : TcpServer) (t : Thread) : ℕ := s.connections.card + t.counted + t.uncounting

/-- What a step does to the counter and to what it should be. -/
inductive Shift (s : TcpServer) (t : Thread) (s' : TcpServer) (t' : Thread) : Bool → Prop
  | none : s'.connectionCounter = s.connectionCounter → share s' t' = share s t →
      Shift s t s' t' false
  | up : s'.connectionCounter = s.connectionCounter + 1 → share s' t' = share s t + 1 →
      Shift s t s' t' false
  | down : s'.connectionCounter = s.connectionCounter - 1 → share s' t' + 1 = share s t →
      Shift s t s' t' false
  /-- An entry is removed or replaced, and stays counted. -/
  | leak : s'.connectionCounter = s.connectionCounter → share s' t' + 1 = share s t →
      Shift s t s' t' true
  /-- The counter is decremented for an entry that another thread has removed. -/
  | again : s'.connectionCounter = s.connectionCounter - 1 → share s' t' = share s t →
      Shift s t s' t' true

theorem shift_act (h : Acts s t o s' t') : Shift s t s' t' (t.unpaired s) := by
  cases h with
  | accept t t' o s' h =>
    cases h with
    | count | exchange => exact .up rfl rfl
    | backedOut => exact .down rfl rfl
    | insert id peer =>
      by_cases hmem : id ∈ s.connections
      · have hsame : (s.insert id).connections = s.connections := Finset.insert_eq_of_mem hmem
        simp only [Thread.unpaired, hmem, decide_true]
        refine .leak rfl ?_
        simp [share, hsame, Thread.counted, Accept.counted, Thread.uncounting]
      · have hcard := card_insert hmem
        simp only [Thread.unpaired, hmem, decide_false]
        refine .none rfl ?_
        simp [share, hcard, Thread.counted, Accept.counted, Thread.uncounting]
    | remove id hmem =>
      have hcard := card_remove .onConnectFailed hmem
      refine .none rfl ?_
      simp only [share, Thread.counted, Accept.counted, Thread.uncounting]
      omega
    | uncount id removed =>
      cases removed with
      | true => exact .down rfl rfl
      | false => exact .again rfl rfl
    | listen | stop | reject | load | retry | draw | register | backOut | establish
      | connect | connected | fail | gone | deregister | refused => exact .none rfl rfl
  | handle id isReadable isWritable t t' o s' h =>
    cases h with
    | found =>
      cases isReadable with
      | true => exact .none rfl rfl
      | false => exact .none rfl (congrArg (s.connections.card + 0 + ·) uncounting_afterRead)
    | nothing | handled => exact .none rfl (congrArg (s.connections.card + 0 + ·) uncounting_afterRead)
    | gone | close => exact .none rfl (congrArg (s.connections.card + 0 + ·) uncounting_afterRead)
    | remove hmem =>
      have hcard := card_remove .disconnect hmem
      exact .none rfl hcard
    | uncount => exact .down rfl rfl
    | missing | read | ended | data | failed | deregister | refused | disconnect | writable
      | written => exact .none rfl rfl
  | close id t t' o s' h =>
    cases h with
    | remove hmem =>
      have hcard := card_remove .closeConnection hmem
      simp only [Thread.unpaired, hmem, decide_true]
      exact .leak rfl hcard
    | gone hmem =>
      simp only [Thread.unpaired, hmem, decide_false]
      exact .none rfl rfl
    | deregister | refused | disconnect | close => exact .none rfl rfl

end

/-! ## The counter is exact -/

theorem due_env {s : State} (input : Input) :
    due ⟨s.shared, s.threads ++ [input.thread]⟩ = due s := by
  have hcounted : input.thread.counted = 0 := by cases input <;> rfl
  have huncounting : input.thread.uncounting = 0 := by cases input <;> rfl
  simp [due, hcounted, huncounting]

theorem due_act {s s' : TcpServer} {t t' : Thread} {l l' : List Thread} :
    due ⟨s', l ++ t' :: l'⟩ + share s t = due ⟨s, l ++ t :: l'⟩ + share s' t' := by
  simp only [due, share, Machine.total_append, Machine.total_cons]
  omega

/-- The counter stays exact at a step if and only if the step is paired. -/
theorem Exact.step {s u : State} {a : Step} (h : Exact s)
    (hs : system.step s a = some u) : Exact u ↔ Paired s a := by
  rcases step_cases hs with ⟨input, rfl, rfl⟩ | ⟨o, s', t, t', l, l', rfl, hts, hact, rfl⟩
  · rw [Exact, due_env]
    exact iff_of_true h trivial
  · obtain ⟨s, ts⟩ := s
    subst hts
    have hdue : due ⟨s', l ++ t' :: l'⟩ + share s t = due ⟨s, l ++ t :: l'⟩ + share s' t' := due_act
    have hshift : Shift s t s' t' (t.unpaired s) := shift_act hact
    have hcounter : s.connectionCounter = UInt64.ofNat (due ⟨s, l ++ t :: l'⟩) := h
    rw [Paired, Machine.threadSteps_at]
    change s'.connectionCounter = _ ↔ _
    generalize t.unpaired s = unpaired at hshift ⊢
    cases hshift with
    | none heq hshare =>
      rw [show due ⟨s', l ++ t' :: l'⟩ = due ⟨s, l ++ t :: l'⟩ by omega]
      exact iff_of_true (heq.trans hcounter) rfl
    | up heq hshare =>
      rw [show due ⟨s', l ++ t' :: l'⟩ = due ⟨s, l ++ t :: l'⟩ + 1 by omega, UInt64.ofNat_add]
      exact iff_of_true (heq.trans (congrArg (· + 1) hcounter)) rfl
    | down heq hshare =>
      rw [show due ⟨s, l ++ t :: l'⟩ = due ⟨s', l ++ t' :: l'⟩ + 1 by omega, UInt64.ofNat_add]
        at hcounter
      refine iff_of_true ?_ rfl
      grind
    | leak heq hshare =>
      rw [show due ⟨s, l ++ t :: l'⟩ = due ⟨s', l ++ t' :: l'⟩ + 1 by omega, UInt64.ofNat_add]
        at hcounter
      refine iff_of_false (fun hexact => ?_) nofun
      grind
    | again heq hshare =>
      rw [show due ⟨s', l ++ t' :: l'⟩ = due ⟨s, l ++ t :: l'⟩ by omega]
      refine iff_of_false (fun hexact => ?_) nofun
      grind

/-- In every run of every server, the counter is exact in all states if and only if
    all removals and decrements are paired and no entry is replaced. -/
theorem exact_iff_paired {max : Option UInt64} {as : List Step} {s : State}
    (h : Run system.step Unrestricted (initial max) as s) :
    (∀ bs cs v, bs ++ cs = as → Run system.step Unrestricted (initial max) bs v → Exact v) ↔
      Run system.step Paired (initial max) as s := by
  apply h.always_iff
  · rfl
  · exact fun bs t a u _ ht hs => ht.step hs

/-- A connection is accepted and closed by `close_connection`: all is done, and it is
    counted for ever. -/
theorem closed_stays_counted :
    ∃ s, Run system.step Unrestricted (initial none)
        [.env .listener, .act 0 (.accepted "peer"), .act 0 .go, .act 0 .go, .act 0 .go,
          .act 0 .go, .act 0 .go, .act 0 .go, .act 0 .go, .act 0 .wouldBlock,
          .env (.closeConnection 1), .act 1 .go, .act 1 .go, .act 1 .go, .act 1 .go] s ∧
      s.threads = [.accept .returned, .close 1 .returned] ∧ s.shared.connections = ∅ ∧
      s.shared.connectionCount = 1 ∧ ¬ Exact s :=
  Run.exists_of_exec (by decide +kernel)

/-- One connection is accepted and closed by its peer. -/
def acceptedAndEnded : List Step :=
  [.env .listener, .act 0 (.accepted "peer"), .act 0 .go, .act 0 .go, .act 0 .go, .act 0 .go,
    .act 0 .go, .act 0 .go, .act 0 .go, .env (.event 1 true false), .act 1 .go,
    .act 1 .endOfStream, .act 1 .go, .act 1 .go]

theorem exact_iff_paired_ended :
    ∃ s, Run system.step Unrestricted (initial none) acceptedAndEnded s ∧
      ((∀ bs cs v, bs ++ cs = acceptedAndEnded →
        Run system.step Unrestricted (initial none) bs v → Exact v) ↔
      Run system.step Paired (initial none) acceptedAndEnded s) := by
  obtain ⟨s, hrun, -⟩ : ∃ s, Run system.step Paired (initial none) acceptedAndEnded s ∧
      s.shared.uncounted = [1] := Run.exists_of_exec (by decide +kernel)
  exact ⟨s, hrun.unrestricted, exact_iff_paired hrun.unrestricted⟩

/-! ## The limit -/

/-- The connections that have passed the limit check and have not been removed. -/
def live (s : State) : ℕ :=
  s.shared.connections.card + Machine.total Thread.counted s.threads

/-- The thread is about to decrement the counter. -/
def Thread.decrements : Thread → Bool
  | .accept (.backingOut _) => true
  | .accept (.uncounting _ _) => true
  | .handle _ _ _ .uncounting => true
  | _ => false

/-- `on_connect` has failed for a connection that `disconnect` has removed, and so
    decremented the counter for, already. -/
def Thread.twice (s : TcpServer) : Thread → Bool
  | .accept (.removing id) => decide ((id, Exit.disconnect) ∈ s.left)
  | _ => false

def Once : State → Step → Prop := Machine.ThreadSteps fun s t _ => t.twice s.shared = false

instance : DecidableRel Once := by unfold Once; infer_instance

/-- One if the routine is about to decrement the counter for an entry that
    `close_connection` has removed. -/
def Thread.unremoved : Thread → ℕ
  | .accept (.uncounting _ removed) => (!removed).toNat
  | _ => 0

/-- The id that the routine has inserted, until `on_connect` succeeds or its removal
    is undone. -/
def Thread.inserted : Thread → Option ℕ
  | .accept (.establishing id _) => some id
  | .accept (.connecting id) => some id
  | .accept (.inOnConnect id) => some id
  | .accept (.removing id) => some id
  | _ => none

/-- Every connection is accounted for in the counter: those that `close_connection`
    has removed, `leaked`, still count, and so do those, `lost` in number, whose id has come
    round and that have been replaced. -/
structure Backed (max : UInt64) (leaked : Finset ℕ) (lost : ℕ) (s : State) : Prop where
  config : s.shared.maxConnections = some max
  limit : s.shared.connectionCounter ≤ max
  comparing : ∀ t ∈ s.threads, ∀ peer current, t = .accept (.comparing peer current) →
    current < max
  counter : s.shared.connectionCounter.toNat =
    due s + Machine.total Thread.unremoved s.threads + leaked.card + lost
  inserted : ∀ t ∈ s.threads, ∀ id, t.inserted = some id →
    id ∈ s.shared.connections ∨ (id, Exit.disconnect) ∈ s.shared.left ∨ id ∈ leaked

section

variable {max : UInt64} {leaked leaked' : Finset ℕ} {lost lost' : ℕ} {s s' : TcpServer}
  {t t' : Thread} {l l' : List Thread} {o : Choice}

/-- Only the exchange of the limit check increments the counter. -/
theorem lt_of_up (h : Backed max leaked lost ⟨s, l ++ t :: l'⟩) (hact : Acts s t o s' t')
    (hup : s'.connectionCounter = s.connectionCounter + 1) : s.connectionCounter < max := by
  have hsame : s.connectionCounter ≠ s.connectionCounter + 1 := by grind
  have hsub : s.connectionCounter - 1 ≠ s.connectionCounter + 1 := by grind
  cases hact with
  | accept t t' o s' hact =>
    cases hact with
    | count peer hnone =>
      have hconfig := h.config
      rw [hnone] at hconfig
      cases hconfig
    | exchange peer => exact h.comparing _ (by simp) peer _ rfl
    | backedOut | uncount => exact absurd hup hsub
    | _ => exact absurd hup hsame
  | handle id isReadable isWritable t t' o s' hact =>
    cases hact with
    | uncount => exact absurd hup hsub
    | _ => exact absurd hup hsame
  | close id t t' o s' hact => cases hact <;> exact absurd hup hsame

/-- The counter and all that it stands for change together. -/
def Tracks (s : TcpServer) (t : Thread) (gone : ℕ) (s' : TcpServer) (t' : Thread) (gone' : ℕ)
    (max : UInt64) : Prop :=
  (s'.connectionCounter = s.connectionCounter ∧
    share s' t' + t'.unremoved + gone' = share s t + t.unremoved + gone) ∨
  (s'.connectionCounter = s.connectionCounter + 1 ∧ s.connectionCounter < max ∧
    share s' t' + t'.unremoved + gone' = share s t + t.unremoved + gone + 1) ∨
  (s'.connectionCounter = s.connectionCounter - 1 ∧
    share s' t' + t'.unremoved + gone' + 1 = share s t + t.unremoved + gone)

theorem Backed.count (h : Backed max leaked lost ⟨s, l ++ t :: l'⟩)
    (htracks : Tracks s t (leaked.card + lost) s' t' (leaked'.card + lost') max) :
    s'.connectionCounter ≤ max ∧ s'.connectionCounter.toNat = due ⟨s', l ++ t' :: l'⟩ +
      Machine.total Thread.unremoved (l ++ t' :: l') + leaked'.card + lost' := by
  have hcounter : s.connectionCounter.toNat = due ⟨s, l ++ t :: l'⟩ +
      Machine.total Thread.unremoved (l ++ t :: l') + leaked.card + lost := h.counter
  have hlimit : s.connectionCounter.toNat ≤ max.toNat := UInt64.le_iff_toNat_le.1 h.limit
  have hdue : due ⟨s', l ++ t' :: l'⟩ + share s t = due ⟨s, l ++ t :: l'⟩ + share s' t' := due_act
  simp only [Machine.total_append, Machine.total_cons] at hcounter ⊢
  rw [UInt64.le_iff_toNat_le]
  rcases htracks with ⟨heq, hshare⟩ | ⟨heq, hlt, hshare⟩ | ⟨heq, hshare⟩
  · rw [heq]
    exact ⟨hlimit, by omega⟩
  · have hmax := UInt64.lt_iff_toNat_lt.1 hlt
    have hbound := UInt64.toNat_lt max
    have hsucc : s'.connectionCounter.toNat = s.connectionCounter.toNat + 1 := by
      rw [heq, UInt64.toNat_add]
      exact Nat.mod_eq_of_lt (by simp; omega)
    exact ⟨by omega, by omega⟩
  · have hpos : 1 ≤ s.connectionCounter.toNat := by
      have hshared : share s t ≤ due ⟨s, l ++ t :: l'⟩ := by
        simp only [share, due, Machine.total_append, Machine.total_cons]
        omega
      omega
    have hpred : s'.connectionCounter.toNat = s.connectionCounter.toNat - 1 := by
      rw [heq]
      exact UInt64.toNat_sub_of_le _ _ (UInt64.le_iff_toNat_le.2 hpos)
    exact ⟨by omega, by omega⟩

theorem Backed.tracks (h : Backed max leaked lost ⟨s, l ++ t :: l'⟩) (hact : Acts s t o s' t')
    (hshift : Shift s t s' t' false) (hunremoved : t'.unremoved = t.unremoved) :
    Tracks s t (leaked.card + lost) s' t' (leaked.card + lost) max := by
  cases hshift with
  | none heq hshare => exact .inl ⟨heq, by omega⟩
  | up heq hshare => exact .inr (.inl ⟨heq, lt_of_up h hact heq, by omega⟩)
  | down heq hshare => exact .inr (.inr ⟨heq, by omega⟩)

/-- The step of a thread that changes neither what has leaked nor what is left to
    undo. -/
theorem Backed.move (h : Backed max leaked lost ⟨s, l ++ t :: l'⟩) (hact : Acts s t o s' t')
    (hshift : Shift s t s' t' false) (hunremoved : t'.unremoved = t.unremoved)
    (hconfig : s'.maxConnections = s.maxConnections)
    (hcomparing : ∀ peer current, t' = .accept (.comparing peer current) → current < max)
    (hleft : ∀ x ∈ s.left, x ∈ s'.left)
    (hinserted : ∀ i, t'.inserted = some i → t.inserted = some i ∨ i ∈ s'.connections)
    (hkeep : ∀ i, (∃ t'' ∈ l ++ t' :: l', t''.inserted = some i) → i ∈ s.connections →
      i ∈ s'.connections ∨ (i, Exit.disconnect) ∈ s'.left) :
    Backed max leaked lost ⟨s', l ++ t' :: l'⟩ := by
  obtain ⟨hlimit, hcounter⟩ := h.count (h.tracks hact hshift hunremoved)
  obtain ⟨-, hcomparingRest⟩ := Machine.forall_threads_at.1 h.comparing
  obtain ⟨hown, hrest⟩ := Machine.forall_threads_at.1 h.inserted
  have hlift : ∀ i, (∃ t'' ∈ l ++ t' :: l', t''.inserted = some i) →
      (i ∈ s.connections ∨ (i, Exit.disconnect) ∈ s.left ∨ i ∈ leaked) →
      i ∈ s'.connections ∨ (i, Exit.disconnect) ∈ s'.left ∨ i ∈ leaked := by
    rintro i hi (hmem | hdisconnected | hleaked)
    · exact (hkeep i hi hmem).imp_right .inl
    · exact .inr (.inl (hleft _ hdisconnected))
    · exact .inr (.inr hleaked)
  refine ⟨hconfig.trans h.config, hlimit, Machine.forall_threads_at.2 ⟨hcomparing, hcomparingRest⟩,
    hcounter, Machine.forall_threads_at.2 ⟨fun i hi => ?_, fun t'' ht'' i hi => ?_⟩⟩
  · rcases hinserted i hi with hbefore | hmem
    · exact hlift i ⟨t', by simp, hi⟩ (hown i hbefore)
    · exact .inl hmem
  · refine hlift i ⟨t'', ?_, hi⟩ (hrest t'' ht'' i hi)
    exact List.mem_append.2 ((List.mem_append.1 ht'').imp_right (List.mem_cons_of_mem _))

/-- The step leaves the map and the removals alone. -/
theorem Backed.quiet (h : Backed max leaked lost ⟨s, l ++ t :: l'⟩) (hact : Acts s t o s' t')
    (hshift : Shift s t s' t' false) (hunremoved : t'.unremoved = t.unremoved)
    (hconfig : s'.maxConnections = s.maxConnections) (hconnections : s'.connections = s.connections)
    (hleft : s'.left = s.left)
    (hcomparing : ∀ peer current, t' = .accept (.comparing peer current) → current < max)
    (hinserted : ∀ i, t'.inserted = some i → t.inserted = some i) :
    Backed max leaked lost ⟨s', l ++ t' :: l'⟩ :=
  h.move hact hshift hunremoved hconfig hcomparing (fun _ hx => hleft ▸ hx)
    (fun i hi => .inl (hinserted i hi)) fun _ _ hmem => .inl (hconnections ▸ hmem)

theorem Thread.inserted_eq_none {t : Thread} (h : t.inBody = 0) : t.inserted = none := by
  cases t with
  | accept t => cases t <;> first | rfl | cases h
  | handle => rfl
  | close => rfl

@[simp] theorem unremoved_handle {id : ℕ} {isReadable isWritable : Bool} {t : Handle} :
    (Thread.handle id isReadable isWritable t).unremoved = 0 := rfl

@[simp] theorem inserted_handle {id : ℕ} {isReadable isWritable : Bool} {t : Handle} :
    (Thread.handle id isReadable isWritable t).inserted = none := rfl

/-- A step that changes what is counted without an entry: what is left to show is where
    the inserted connections are. -/
theorem Backed.exchange (h : Backed max leaked lost ⟨s, l ++ t :: l'⟩)
    (htracks : Tracks s t (leaked.card + lost) s' t' (leaked'.card + lost') max)
    (hconfig : s'.maxConnections = s.maxConnections)
    (hcomparing : ∀ peer current, t' ≠ .accept (.comparing peer current))
    (hinserted : ∀ i, t'.inserted = some i → i ∈ s'.connections)
    (hothers : ∀ t'' ∈ l ++ l', ∀ i, t''.inserted = some i →
      i ∈ s'.connections ∨ (i, Exit.disconnect) ∈ s'.left ∨ i ∈ leaked') :
    Backed max leaked' lost' ⟨s', l ++ t' :: l'⟩ := by
  obtain ⟨hlimit, hcounter⟩ := h.count htracks
  obtain ⟨-, hcomparingRest⟩ := Machine.forall_threads_at.1 h.comparing
  refine ⟨hconfig.trans h.config, hlimit, Machine.forall_threads_at.2 ⟨?_, hcomparingRest⟩,
    hcounter, Machine.forall_threads_at.2 ⟨fun i hi => .inl (hinserted i hi), hothers⟩⟩
  exact fun peer current heq => absurd heq (hcomparing peer current)

/-- The removal after a failing `on_connect` finds no entry, so `close_connection` has
    removed it: it is no longer leaked, but left to undo. -/
theorem Backed.gone {id : ℕ} (h : Backed max leaked lost ⟨s, l ++ .accept (.removing id) :: l'⟩)
    (hmem : id ∉ s.connections) (honce : (id, Exit.disconnect) ∉ s.left)
    (hothers : ∀ t'' ∈ l ++ l', t''.inserted = none) :
    Backed max (leaked.erase id) lost ⟨s, l ++ .accept (.uncounting id false) :: l'⟩ := by
  obtain ⟨hown, -⟩ := Machine.forall_threads_at.1 h.inserted
  have hleaked : id ∈ leaked := by
    rcases hown id rfl with hlisted | hdisconnected | hleaked
    · exact absurd hlisted hmem
    · exact absurd hdisconnected honce
    · exact hleaked
  have hcard : (leaked.erase id).card + 1 = leaked.card := Finset.card_erase_add_one hleaked
  have htracks : Tracks s (.accept (.removing id)) (leaked.card + lost) s
      (.accept (.uncounting id false)) ((leaked.erase id).card + lost) max := by
    refine .inl ⟨rfl, ?_⟩
    simp only [share, Thread.counted, Accept.counted, Thread.uncounting, Thread.unremoved,
      Bool.not_false, Bool.toNat_true, Bool.toNat_false]
    omega
  refine h.exchange htracks rfl nofun nofun fun t'' ht'' i hi => ?_
  rw [hothers t'' ht''] at hi
  cases hi

/-- The decrement after such a removal. -/
theorem Backed.uncount {id : ℕ}
    (h : Backed max leaked lost ⟨s, l ++ .accept (.uncounting id false) :: l'⟩) :
    Backed max leaked lost ⟨(s.fetchSub id).unlock, l ++ .accept .listening :: l'⟩ := by
  have htracks : Tracks s (.accept (.uncounting id false)) (leaked.card + lost)
      (s.fetchSub id).unlock (.accept .listening) (leaked.card + lost) max := by
    refine .inr (.inr ⟨rfl, ?_⟩)
    simp only [share, Thread.counted, Accept.counted, Thread.uncounting, Thread.unremoved,
      TcpServer.fetchSub, TcpServer.unlock, Bool.not_false, Bool.toNat_true, Bool.toNat_false]
    omega
  exact h.exchange htracks rfl nofun nofun (Machine.forall_threads_at.1 h.inserted).2

/-- `close_connection` removes an entry, and the connection stays counted. -/
theorem Backed.leak {id : ℕ} (h : Backed max leaked lost ⟨s, l ++ .close id .removing :: l'⟩)
    (hmem : id ∈ s.connections) : ∃ lost', Backed max (insert id leaked) lost'
      ⟨s.remove id .closeConnection, l ++ .close id .deregistering :: l'⟩ := by
  have hcard : (s.remove id .closeConnection).connections.card + 1 = s.connections.card :=
    card_remove _ hmem
  obtain ⟨lost', hlost⟩ : ∃ lost', (insert id leaked).card + lost' = leaked.card + lost + 1 := by
    have hle := Finset.card_insert_le id leaked
    exact ⟨leaked.card + lost + 1 - (insert id leaked).card, by omega⟩
  have htracks : Tracks s (.close id .removing) (leaked.card + lost) (s.remove id .closeConnection)
      (.close id .deregistering) ((insert id leaked).card + lost') max := by
    refine .inl ⟨rfl, ?_⟩
    simp only [share, Thread.counted, Thread.uncounting, Thread.unremoved]
    omega
  refine ⟨lost', h.exchange htracks rfl nofun nofun fun t'' ht'' i hi => ?_⟩
  rcases (Machine.forall_threads_at.1 h.inserted).2 t'' ht'' i hi with
    hlisted | hdisconnected | hleaked
  · by_cases heq : i = id
    · exact .inr (.inr (heq ▸ Finset.mem_insert_self _ _))
    · exact .inl (Finset.mem_erase_of_ne_of_mem heq hlisted)
  · exact .inr (.inl (List.mem_append_left _ hdisconnected))
  · exact .inr (.inr (Finset.mem_insert_of_mem hleaked))

/-- A connection takes the place of one whose id has come round, which stays counted. -/
theorem Backed.replace {id : ℕ} {peer : SocketAddr}
    (h : Backed max leaked lost ⟨s, l ++ .accept (.inserting id peer) :: l'⟩)
    (hmem : id ∈ s.connections) :
    Backed max leaked (lost + 1) ⟨s.insert id, l ++ .accept (.establishing id peer) :: l'⟩ := by
  have hsame : (s.insert id).connections = s.connections := Finset.insert_eq_of_mem hmem
  have htracks : Tracks s (.accept (.inserting id peer)) (leaked.card + lost) (s.insert id)
      (.accept (.establishing id peer)) (leaked.card + (lost + 1)) max := by
    refine .inl ⟨rfl, ?_⟩
    simp only [share, hsame, Thread.counted, Accept.counted, Thread.uncounting, Thread.unremoved]
    omega
  refine h.exchange htracks rfl nofun (fun i hi => ?_) fun t'' ht'' i hi => ?_
  · cases hi
    exact Finset.mem_insert_self _ _
  · rw [hsame]
    exact (Machine.forall_threads_at.1 h.inserted).2 t'' ht'' i hi

theorem Backed.act (h : Backed max leaked lost ⟨s, l ++ t :: l'⟩)
    (hexclusive : Exclusive ⟨s, l ++ t :: l'⟩) (honce : t.twice s = false)
    (hact : Acts s t o s' t') : ∃ leaked' lost', Backed max leaked' lost' ⟨s', l ++ t' :: l'⟩ := by
  have hshift := shift_act hact
  have hothers : t.inBody = 1 → ∀ t'' ∈ l ++ l', t''.inserted = none := fun hin t'' ht'' =>
    Thread.inserted_eq_none (hexclusive.others hin ht'')
  cases hact with
  | accept t t' o s' hacts =>
    have hacts' := Acts.accept t t' o s' hacts
    cases hacts with
    | load peer max' hmax hlt =>
      refine ⟨leaked, lost, h.quiet hacts' hshift rfl rfl rfl rfl ?_ nofun⟩
      intro peer' current heq
      cases heq
      rw [h.config] at hmax
      cases hmax
      exact hlt
    | insert id peer =>
      by_cases hmem : id ∈ s.connections
      · exact ⟨leaked, lost + 1, h.replace hmem⟩
      · simp only [Thread.unpaired, hmem, decide_false] at hshift
        refine ⟨leaked, lost, h.move hacts' hshift rfl rfl nofun (fun _ hx => hx) ?_ ?_⟩
        · intro i hi
          cases hi
          exact .inr (Finset.mem_insert_self _ _)
        · exact fun i _ hmem => .inl (Finset.mem_insert_of_mem hmem)
    | establish | connect | fail =>
      exact ⟨leaked, lost, h.quiet hacts' hshift rfl rfl rfl rfl nofun fun _ => id⟩
    | remove id hmem =>
      refine ⟨leaked, lost, h.move hacts' hshift rfl rfl nofun (fun _ => List.mem_append_left _) nofun ?_⟩
      rintro i ⟨t'', ht'', hi⟩
      have hnone : ∀ t'' ∈ l ++ Thread.accept (.deregistering id) :: l', t''.inserted = none :=
        Machine.forall_threads_at.2 ⟨rfl, hothers rfl⟩
      rw [hnone t'' ht''] at hi
      cases hi
    | gone id hmem =>
      exact ⟨leaked.erase id, lost, h.gone hmem (of_decide_eq_false honce) (hothers rfl)⟩
    | uncount id removed =>
      cases removed with
      | true =>
        exact ⟨leaked, lost, h.quiet hacts' hshift rfl rfl rfl rfl nofun nofun⟩
      | false => exact ⟨leaked, lost, h.uncount⟩
    | listen | stop | reject | count | exchange | retry | draw | register | backOut | backedOut
      | connected | deregister | refused =>
      exact ⟨leaked, lost, h.quiet hacts' hshift rfl rfl rfl rfl nofun nofun⟩
  | handle id isReadable isWritable t t' o s' hacts =>
    have hacts' := Acts.handle id isReadable isWritable t t' o s' hacts
    cases hacts with
    | remove hmem =>
      refine ⟨leaked, lost, h.move hacts' hshift rfl rfl nofun (fun _ => List.mem_append_left _) nofun ?_⟩
      intro i _ hi
      by_cases heq : i = id
      · exact .inr (List.mem_append_right _ (by rw [heq]; exact List.mem_singleton_self _))
      · exact .inl (Finset.mem_erase_of_ne_of_mem heq hi)
    | _ => exact ⟨leaked, lost, h.quiet hacts' hshift rfl rfl rfl rfl nofun nofun⟩
  | close id t t' o s' hacts =>
    have hacts' := Acts.close id t t' o s' hacts
    cases hacts with
    | remove hmem => exact ⟨insert id leaked, h.leak hmem⟩
    | gone hmem =>
      simp only [Thread.unpaired, hmem, decide_false] at hshift
      exact ⟨leaked, lost, h.quiet hacts' hshift rfl rfl rfl rfl nofun nofun⟩
    | deregister | refused | disconnect | close =>
      exact ⟨leaked, lost, h.quiet hacts' hshift rfl rfl rfl rfl nofun nofun⟩

end

theorem backed_of_run {max : UInt64} {as : List Step} {s : State}
    (h : Run system.step Once (initial (some max)) as s) :
    ∃ leaked lost, Backed max leaked lost s := by
  refine invariant_of_run (I := fun s => ∃ leaked lost, Backed max leaked lost s)
    (J := Exclusive) h (fun as t ht => exclusive_of_run ht) ?_ ?_ ?_
  · exact ⟨∅, 0, rfl, UInt64.le_iff_toNat_le.2 (Nat.zero_le _), nofun, rfl, nofun⟩
  · rintro t input - ⟨leaked, lost, ht⟩
    have hinserted : input.thread.inserted = none := by cases input <;> rfl
    have hcomparing : ∀ peer current, input.thread ≠ .accept (.comparing peer current) := by
      cases input <;> nofun
    have hunremoved : input.thread.unremoved = 0 := by cases input <;> rfl
    refine ⟨leaked, lost, ht.config, ht.limit, ?_, ?_, ?_⟩
    · intro t' ht' peer current heq
      rcases List.mem_append.1 ht' with ht' | ht'
      · exact ht.comparing t' ht' peer current heq
      · rw [List.mem_singleton.1 ht'] at heq
        exact absurd heq (hcomparing peer current)
    · simpa [due_env, hunremoved] using ht.counter
    · intro t' ht' i hi
      rcases List.mem_append.1 ht' with ht' | ht'
      · exact ht.inserted t' ht' i hi
      · rw [List.mem_singleton.1 ht', hinserted] at hi
        cases hi
  · rintro s l l' t o s' t' hexclusive ⟨leaked, lost, hs⟩ honce hact
    exact hs.act hexclusive (Machine.threadSteps_at.1 honce) hact

/-- In every run in which no connection is removed by `disconnect` and then again
    because of its failed `on_connect`, at most `max` connections are live at any
    time, and the counter is never decremented below zero. -/
theorem limit_of_once {max : UInt64} {as : List Step} {s : State}
    (h : Run system.step Once (initial (some max)) as s) :
    live s ≤ max.toNat ∧ s.shared.connectionCount ≤ max ∧
      ∀ t ∈ s.threads, t.decrements → s.shared.connectionCount ≠ 0 := by
  obtain ⟨leaked, lost, hs⟩ := backed_of_run h
  have hlimit : s.shared.connectionCounter.toNat ≤ max.toNat := UInt64.le_iff_toNat_le.1 hs.limit
  have hcounter := hs.counter
  simp only [due] at hcounter
  refine ⟨?_, hs.limit, fun t ht hdecrements hzero => ?_⟩
  · simp only [live]
    omega
  · have hpos : 1 ≤ t.counted + t.uncounting + t.unremoved := by
      cases t with
      | accept t =>
        cases t with
        | backingOut => exact le_rfl
        | uncounting id removed => cases removed <;> exact le_rfl
        | _ => cases hdecrements
      | handle id isReadable isWritable t =>
        cases t with
        | uncounting => exact le_rfl
        | _ => cases hdecrements
      | close => cases hdecrements
    have hcounted := Machine.le_total (w := Thread.counted) ht
    have huncounting := Machine.le_total (w := Thread.uncounting) ht
    have hunremoved := Machine.le_total (w := Thread.unremoved) ht
    have hcount : s.shared.connectionCounter.toNat = 0 := congrArg UInt64.toNat hzero
    omega

/-- One connection is accepted under a limit of one, and ends. -/
def acceptedUnderLimit : List Step :=
  [.env .listener, .act 0 (.accepted "peer"), .act 0 .go, .act 0 .go, .act 0 .go, .act 0 .go,
    .act 0 .go, .act 0 .go, .act 0 .go, .act 0 .go, .env (.event 1 true false), .act 1 .go,
    .act 1 .endOfStream, .act 1 .go]

theorem limit_of_once_ended :
    ∃ s, Run system.step Once (initial (some 1)) acceptedUnderLimit s ∧
      live s ≤ (1 : UInt64).toNat ∧ s.shared.connectionCount ≤ 1 ∧
      ∀ t ∈ s.threads, t.decrements → s.shared.connectionCount ≠ 0 := by
  obtain ⟨s, hrun, -⟩ : ∃ s, Run system.step Once (initial (some 1)) acceptedUnderLimit s ∧
      s.shared.connectionCount = 1 := Run.exists_of_exec (by decide +kernel)
  exact ⟨s, hrun, limit_of_once hrun⟩

/-- The peer closes the connection while `on_connect` runs, which then fails: the
    counter is decremented twice, and the next client is rejected though there is
    no connection. -/
theorem counter_below_zero :
    ∃ s, Run system.step Unrestricted (initial (some 1))
        [.env .listener, .act 0 (.accepted "peer"), .act 0 .go, .act 0 .go, .act 0 .go,
          .act 0 .go, .act 0 .go, .act 0 .go, .act 0 .go, .env (.event 1 true false),
          .act 1 .go, .act 1 .endOfStream, .act 1 .go, .act 1 .go, .act 1 .go, .act 1 .go,
          .act 1 .go, .act 0 (.failed "refused"), .act 0 .go, .act 0 .go,
          .act 0 (.accepted "other"), .act 0 .go] s ∧
      live s = 0 ∧ s.shared.connectionCount = 0 - 1 ∧ ¬ s.shared.connectionCount ≤ 1 ∧
      (none, .maxConnectionsReached "other") ∈ s.shared.errors :=
  Run.exists_of_exec (by decide +kernel)

end Server
