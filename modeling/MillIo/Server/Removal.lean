-- SUMMARY: A connection whose handler has run into the end of the stream or an error is removed from the server, and under which conditions.
import MillIo.Server.Entries
import Mathlib.Algebra.Order.Ring.Nat

/-!
# Connections that end

`disconnect` does nothing for a connection that is not in the map, so what counts is
who has inserted it and who has removed it by then. Whoever removes an entry still
owes the decrement of the counter and the deregistration.
-/

namespace Server

open Interleaving

/-! ## What threads owe -/

def Thread.toUncount (id : ℕ) : Thread → Bool
  | .handle i _ _ .uncounting => i == id
  | .accept (.deregistering i) => i == id
  | .accept (.uncounting i _) => i == id
  | _ => false

def Thread.toDeregister (id : ℕ) : Thread → Bool
  | .handle i _ _ .uncounting => i == id
  | .handle i _ _ .deregistering => i == id
  | .accept (.deregistering i) => i == id
  | _ => false

/-- One if the handler has removed the entry and still owes something. -/
def Thread.leaving (id : ℕ) : Thread → ℕ
  | .handle i _ _ .uncounting => if i = id then 1 else 0
  | .handle i _ _ .deregistering => if i = id then 1 else 0
  | _ => 0

/-- The handler has been looked up, and its read is not done. -/
def Thread.found (id : ℕ) : Thread → Bool
  | .handle i _ _ .reading => i == id
  | .handle i _ _ .data => i == id
  | .handle i _ _ .inOnData => i == id
  | .handle i _ _ .removing => i == id
  | _ => false

/-- The handler has run into the end of the stream or an error, and its `disconnect`
    owes nothing. -/
def Thread.ended (id : ℕ) : Thread → Bool
  | .handle i _ _ .disconnecting => i == id
  | .handle i _ _ .closing => i == id
  | .handle i _ _ (.writable ended) => i == id && ended
  | .handle i _ _ (.inOnWritable ended) => i == id && ended
  | .handle i _ _ (.returned ended) => i == id && ended
  | _ => false

/-- The accept routine has registered the connection and not inserted it. -/
def Thread.inserting (id : ℕ) : Thread → Bool
  | .accept (.inserting i _) => i == id
  | _ => false

/-- The accept routine has drawn the id and not finished with the connection. -/
def Thread.accepting (id : ℕ) : Thread → Bool
  | .accept (.registering i _) => i == id
  | .accept (.backingOut i) => i == id
  | .accept (.inserting i _) => i == id
  | .accept (.establishing i _) => i == id
  | .accept (.connecting i) => i == id
  | .accept (.inOnConnect i) => i == id
  | .accept (.removing i) => i == id
  | .accept (.deregistering i) => i == id
  | .accept (.uncounting i _) => i == id
  | _ => false

/-! ## The condition -/

/-- The connection is in the map, if it will ever be, when a handler is about to
    remove it, and no other handler is about to deregister it; deregistrations
    succeed; and nothing is removed by `close_connection`. -/
def Thread.Settled (s : State) : Thread → Choice → Prop
  | .handle id _ _ .removing, _ =>
    ∀ t ∈ s.threads, t.inserting id = false ∧ t.leaving id = 0
  | .handle _ _ _ .deregistering, o => o = .go
  | .accept (.deregistering _), o => o = .go
  | .close id .removing, _ => id ∉ s.shared.connections
  | _, _ => True

instance (s : State) (t : Thread) (o : Choice) : Decidable (t.Settled s o) := by
  cases t with
  | accept phase => cases phase <;> (dsimp only [Thread.Settled]; infer_instance)
  | handle i isReadable isWritable phase =>
    cases phase <;> (dsimp only [Thread.Settled]; infer_instance)
  | close i phase => cases phase <;> (dsimp only [Thread.Settled]; infer_instance)

def Settling : State → Step → Prop :=
  Machine.ThreadSteps fun s t o => t.DrawsNew s.shared ∧ t.Settled s o

instance : DecidableRel Settling := by unfold Settling; infer_instance

theorem Settling.numbered {s : State} {a : Step} (h : Settling s a) : Numbered s a := by
  cases a with
  | env input => trivial
  | act i o => exact fun t ht => (h t ht).1

/-! ## One step -/

section

variable {s s' : TcpServer} {t t' : Thread} {l l' : List Thread} {o : Choice} {id : ℕ}

theorem toUncount_act (hsettled : t.Settled ⟨s, l ++ t :: l'⟩ o) (h : Acts s t o s' t')
    (hid : t.toUncount id = true) : id ∈ s'.uncounted ∨ t'.toUncount id = true := by
  cases h with
  | accept t t' o s' h =>
    cases h with
    | deregister => exact .inr hid
    | refused => cases hsettled
    | uncount i removed =>
      rw [← beq_iff_eq.1 hid]
      exact .inl (List.mem_append_right _ (List.mem_singleton_self _))
    | _ => cases hid
  | handle i isReadable isWritable t t' o s' h =>
    cases h with
    | uncount =>
      rw [← beq_iff_eq.1 hid]
      exact .inl (List.mem_append_right _ (List.mem_singleton_self _))
    | _ => cases hid
  | close => cases hid

theorem toDeregister_act (hsettled : t.Settled ⟨s, l ++ t :: l'⟩ o) (h : Acts s t o s' t')
    (hid : t.toDeregister id = true) : id ∉ s'.registry ∨ t'.toDeregister id = true := by
  cases h with
  | accept t t' o s' h =>
    cases h with
    | deregister i =>
      rw [← beq_iff_eq.1 hid]
      exact .inl (Finset.notMem_erase _ _)
    | refused => cases hsettled
    | _ => cases hid
  | handle i isReadable isWritable t t' o s' h =>
    cases h with
    | uncount => exact .inr hid
    | deregister =>
      rw [← beq_iff_eq.1 hid]
      exact .inl (Finset.notMem_erase _ _)
    | refused o hne => exact absurd hsettled hne
    | _ => cases hid
  | close => cases hid

/-- Who removes an entry owes the rest. -/
theorem owes_of_leaves (hsettled : t.Settled ⟨s, l ++ t :: l'⟩ o) (h : Acts s t o s' t')
    {exit : Exit} (hleaves : t.leaves s = some (id, exit)) :
    t'.toUncount id = true ∧ t'.toDeregister id = true := by
  cases h with
  | accept t t' o s' h =>
    cases h with
    | remove i hmem =>
      simp only [Thread.leaves, if_pos hmem, Option.some.injEq, Prod.mk.injEq] at hleaves
      exact ⟨beq_iff_eq.2 hleaves.1, beq_iff_eq.2 hleaves.1⟩
    | gone i hmem =>
      simp only [Thread.leaves, if_neg hmem] at hleaves
      cases hleaves
    | _ => cases hleaves
  | handle i isReadable isWritable t t' o s' h =>
    cases h with
    | remove hmem =>
      simp only [Thread.leaves, if_pos hmem, Option.some.injEq, Prod.mk.injEq] at hleaves
      exact ⟨beq_iff_eq.2 hleaves.1, beq_iff_eq.2 hleaves.1⟩
    | gone hmem =>
      simp only [Thread.leaves, if_neg hmem] at hleaves
      cases hleaves
    | _ => cases hleaves
  | close i t t' o s' h =>
    cases h with
    | remove hmem => exact absurd hmem hsettled
    | gone hmem =>
      simp only [Thread.leaves, if_neg hmem] at hleaves
      cases hleaves
    | _ => cases hleaves

theorem mem_uncounted_act (h : Acts s t o s' t') (hid : id ∈ s.uncounted) : id ∈ s'.uncounted := by
  cases h with
  | accept t t' o s' h =>
    cases h with
    | backedOut | uncount => exact List.mem_append_left _ hid
    | _ => exact hid
  | handle i isReadable isWritable t t' o s' h =>
    cases h with
    | uncount => exact List.mem_append_left _ hid
    | _ => exact hid
  | close i t t' o s' h => cases h <;> exact hid

/-- A connection is registered before it is inserted. -/
theorem registry_act (h : Acts s t o s' t') (hid : id ∈ s'.registry) :
    id ∈ s.registry ∨ (t.unlisted id = 1 ∧ t'.inserting id = true) := by
  cases h with
  | accept t t' o s' h =>
    cases h with
    | register i peer =>
      rcases Finset.mem_insert.1 hid with rfl | hid
      · exact .inr ⟨if_pos rfl, beq_self_eq_true _⟩
      · exact .inl hid
    | deregister => exact .inl (Finset.mem_of_mem_erase hid)
    | _ => exact .inl hid
  | handle i isReadable isWritable t t' o s' h =>
    cases h with
    | deregister => exact .inl (Finset.mem_of_mem_erase hid)
    | _ => exact .inl hid
  | close i t t' o s' h =>
    cases h with
    | deregister => exact .inl (Finset.mem_of_mem_erase hid)
    | _ => exact .inl hid

theorem inserting_act (h : Acts s t o s' t') (hid : t.inserting id = true) :
    t'.inserting id = true ∨ id ∈ s'.connections := by
  cases h with
  | accept t t' o s' h =>
    cases h with
    | insert i peer =>
      rw [← beq_iff_eq.1 hid]
      exact .inr (Finset.mem_insert_self _ _)
    | _ => cases hid
  | handle => cases hid
  | close => cases hid

theorem found_act (h : Acts s t o s' t') (hid : t'.found id = true) :
    t.found id = true ∨ id ∈ s.registry := by
  cases h with
  | accept => cases hid
  | handle i isReadable isWritable t t' o s' h =>
    cases h with
    | found hmem =>
      cases isReadable with
      | true => exact .inr (beq_iff_eq.1 hid ▸ hmem)
      | false => cases isWritable <;> cases hid
    | nothing | handled | gone | close => cases isWritable <;> cases hid
    | read | ended | data | failed => exact .inl hid
    | _ => cases hid
  | close => cases hid

theorem leaving_act (h : Acts s t o s' t') (id : ℕ) :
    t'.leaving id ≤ t.leaving id ∨
      (id ∈ s.connections ∧ t.leaving id = 0 ∧ t'.leaving id = 1 ∧ s'.Left id) := by
  cases h with
  | accept => exact .inl (Nat.zero_le _)
  | handle i isReadable isWritable t t' o s' h =>
    have hacts := Acts.handle i isReadable isWritable t t' o s' h
    cases h with
    | found => cases isReadable <;> cases isWritable <;> exact .inl (Nat.zero_le _)
    | nothing | handled | gone | close => cases isWritable <;> exact .inl (Nat.zero_le _)
    | remove hmem =>
      by_cases heq : i = id
      · subst heq
        have hleaves : (Thread.handle i isReadable isWritable .removing).leaves s =
            some (i, .disconnect) := if_pos hmem
        exact .inr ⟨hmem, rfl, if_pos rfl, left_of_leaves hacts hleaves⟩
      · exact .inl (if_neg heq).le
    | uncount => exact .inl le_rfl
    | _ => exact .inl (Nat.zero_le _)
  | close => exact .inl (Nat.zero_le _)

/-- A handler is done with its `disconnect` when it has deregistered the connection, or
    when it has not found it. -/
theorem ended_act (hsettled : t.Settled ⟨s, l ++ t :: l'⟩ o) (h : Acts s t o s' t')
    (hid : t'.ended id = true) : t'.leaving id = 0 ∧
      (t.ended id = true ∨ t.leaving id = 1 ∨
        (t.found id = true ∧ id ∉ s.connections ∧
          ∀ t' ∈ l ++ t :: l', t'.inserting id = false ∧ t'.leaving id = 0)) := by
  cases h with
  | accept => cases hid
  | handle i isReadable isWritable t t' o s' h =>
    cases h with
    | found => cases isReadable <;> cases isWritable <;> simp [Thread.ended, Handle.afterRead] at hid
    | nothing | handled => cases isWritable <;> simp [Thread.ended, Handle.afterRead] at hid
    | missing => simp [Thread.ended] at hid
    | gone hmem =>
      have heq : i = id := by
        cases isWritable <;> simpa [Thread.ended, Handle.afterRead] using hid
      subst heq
      exact ⟨by cases isWritable <;> rfl, .inr (.inr ⟨beq_self_eq_true _, hmem, hsettled⟩)⟩
    | deregister => exact ⟨rfl, .inr (.inl (if_pos (beq_iff_eq.1 hid)))⟩
    | refused o hne => exact absurd hsettled hne
    | disconnect => exact ⟨rfl, .inl hid⟩
    | close =>
      refine ⟨by cases isWritable <;> rfl, .inl ?_⟩
      cases isWritable <;> simpa [Thread.ended, Handle.afterRead] using hid
    | writable | written => exact ⟨rfl, .inl hid⟩
    | read | ended | data | failed | remove | uncount => cases hid
  | close => cases hid

end

/-! ## Whole runs -/

/-- The connection has been registered: it is about to be inserted, or is in the map,
    or has left it. -/
def Registered (s : State) (id : ℕ) : Prop :=
  (∃ t ∈ s.threads, t.inserting id = true) ∨ s.shared.Known id

structure Owing (s : State) : Prop where
  uncounted : ∀ id, s.shared.Left id →
    id ∈ s.shared.uncounted ∨ ∃ t ∈ s.threads, t.toUncount id = true
  deregistered : ∀ id, s.shared.Left id →
    id ∉ s.shared.registry ∨ ∃ t ∈ s.threads, t.toDeregister id = true
  registered : ∀ id ∈ s.shared.registry, Registered s id
  found : ∀ t ∈ s.threads, ∀ id, t.found id = true → Registered s id
  leaving : ∀ t ∈ s.threads, ∀ id, t.leaving id = 1 → s.shared.Left id
  single : ∀ id, Machine.total (Thread.leaving id) s.threads ≤ 1
  ended : ∀ t ∈ s.threads, ∀ id, t.ended id = true →
    s.shared.Left id ∧ Machine.total (Thread.leaving id) s.threads = 0

section

variable {s s' : TcpServer} {t t' : Thread} {l l' : List Thread} {o : Choice} {id : ℕ}

theorem Thread.leaving_le (t : Thread) (id : ℕ) : t.leaving id ≤ 1 := by
  unfold Thread.leaving
  split
  · split <;> omega
  · split <;> omega
  · omega

theorem Registered.act (h : Registered ⟨s, l ++ t :: l'⟩ id) (hact : Acts s t o s' t') :
    Registered ⟨s', l ++ t' :: l'⟩ id := by
  rcases h with hinserting | hknown
  · rcases Machine.exists_threads_at.1 hinserting with hown | hrest
    · rcases inserting_act hact hown with hstill | hmem
      · exact .inl (Machine.exists_threads_at.2 (.inl hstill))
      · exact .inr (.inl hmem)
    · exact .inl (Machine.exists_threads_at.2 (.inr hrest))
  · exact .inr (Known.act hknown hact)

/-- A connection that leaves had not left before. -/
theorem left_cases (hact : Acts s t o s' t') (h : s'.Left id) :
    s.Left id ∨ ∃ exit, t.leaves s = some (id, exit) := by
  simp only [TcpServer.Left, left_act hact, List.map_append, List.mem_append] at h
  refine h.imp_right fun hnew => ?_
  obtain ⟨⟨i, exit⟩, hleaves, rfl⟩ := List.mem_map.1 hnew
  exact ⟨exit, Option.mem_toList.1 hleaves⟩

/-- What has left and is not owed any more stays so. -/
theorem total_leaving_act (hplaced : Placed ⟨s, l ++ t :: l'⟩) (hact : Acts s t o s' t')
    (hleft : s.Left id) (hzero : Machine.total (Thread.leaving id) (l ++ t :: l') = 0) :
    Machine.total (Thread.leaving id) (l ++ t' :: l') = 0 := by
  simp only [Machine.total_append, Machine.total_cons] at hzero ⊢
  rcases leaving_act hact id with hle | ⟨hmem, -, -, -⟩
  · omega
  · exact absurd hmem (hplaced.not_listed hleft).1

theorem uncounted_or_owed_act (h : Owing ⟨s, l ++ t :: l'⟩)
    (hsettled : t.Settled ⟨s, l ++ t :: l'⟩ o) (hact : Acts s t o s' t') (hleft : s'.Left id) :
    id ∈ s'.uncounted ∨ ∃ t'' ∈ l ++ t' :: l', t''.toUncount id = true := by
  rw [Machine.exists_threads_at]
  rcases left_cases hact hleft with hold | ⟨exit, hleaves⟩
  · rcases h.uncounted id hold with hmem | howed
    · exact .inl (mem_uncounted_act hact hmem)
    · rcases Machine.exists_threads_at.1 howed with hown | hrest
      · exact (toUncount_act hsettled hact hown).imp_right .inl
      · exact .inr (.inr hrest)
  · exact .inr (.inl (owes_of_leaves hsettled hact hleaves).1)

theorem deregistered_or_owed_act (h : Owing ⟨s, l ++ t :: l'⟩) (hplaced : Placed ⟨s, l ++ t :: l'⟩)
    (hsettled : t.Settled ⟨s, l ++ t :: l'⟩ o) (hact : Acts s t o s' t') (hleft : s'.Left id) :
    id ∉ s'.registry ∨ ∃ t'' ∈ l ++ t' :: l', t''.toDeregister id = true := by
  rw [Machine.exists_threads_at]
  rcases left_cases hact hleft with hold | ⟨exit, hleaves⟩
  · rcases h.deregistered id hold with hnot | howed
    · refine .inl fun hmem => ?_
      rcases registry_act hact hmem with hbefore | ⟨hunlisted, -⟩
      · exact hnot hbefore
      · exact (hplaced.new (by simp) hunlisted).2 hold
    · rcases Machine.exists_threads_at.1 howed with hown | hrest
      · exact (toDeregister_act hsettled hact hown).imp_right .inl
      · exact .inr (.inr hrest)
  · exact .inr (.inl (owes_of_leaves hsettled hact hleaves).2)

theorem total_leaving_le_act (h : Owing ⟨s, l ++ t :: l'⟩) (hplaced : Placed ⟨s, l ++ t :: l'⟩)
    (hact : Acts s t o s' t') : Machine.total (Thread.leaving id) (l ++ t' :: l') ≤ 1 := by
  have hone := h.single id
  simp only [Machine.total_append, Machine.total_cons] at hone ⊢
  rcases leaving_act hact id with hle | ⟨hmem, -, hnew, -⟩
  · omega
  · -- no other thread has taken the entry out of the map
    have hnone : Machine.total (Thread.leaving id) (l ++ t :: l') = 0 := by
      refine Machine.total_eq_zero fun t'' ht'' => ?_
      have hle := t''.leaving_le id
      have hnot : t''.leaving id ≠ 1 := fun hone =>
        (hplaced.not_listed (h.leaving t'' ht'' id hone)).1 hmem
      omega
    simp only [Machine.total_append, Machine.total_cons] at hnone
    omega

/-- A handler that is at its end leaves nothing owed for its connection. -/
theorem left_of_ended_act (h : Owing ⟨s, l ++ t :: l'⟩) (hplaced : Placed ⟨s, l ++ t :: l'⟩)
    (hsettled : t.Settled ⟨s, l ++ t :: l'⟩ o) (hact : Acts s t o s' t')
    (hended : t'.ended id = true) :
    s'.Left id ∧ Machine.total (Thread.leaving id) (l ++ t' :: l') = 0 := by
  obtain ⟨hout, hbefore | hown | ⟨hread, hmem, hothers⟩⟩ := ended_act hsettled hact hended
  · obtain ⟨hleft, hzero⟩ := (Machine.forall_threads_at.1 h.ended).1 id hbefore
    exact ⟨Left.act hleft hact, total_leaving_act hplaced hact hleft hzero⟩
  · have hleft : s.Left id := (Machine.forall_threads_at.1 h.leaving).1 id hown
    have hone := h.single id
    simp only [Machine.total_append, Machine.total_cons] at hone ⊢
    exact ⟨Left.act hleft hact, by omega⟩
  · have hleft : s.Left id := by
      rcases (Machine.forall_threads_at.1 h.found).1 id hread with
        ⟨t'', ht'', hinserting⟩ | hlisted | hleft
      · rw [(hothers t'' ht'').1] at hinserting
        cases hinserting
      · exact absurd hlisted hmem
      · exact hleft
    have hzero : Machine.total (Thread.leaving id) (l ++ t :: l') = 0 :=
      Machine.total_eq_zero fun t'' ht'' => (hothers t'' ht'').2
    exact ⟨Left.act hleft hact, total_leaving_act hplaced hact hleft hzero⟩

theorem Owing.act (h : Owing ⟨s, l ++ t :: l'⟩) (hplaced : Placed ⟨s, l ++ t :: l'⟩)
    (hsettled : t.Settled ⟨s, l ++ t :: l'⟩ o) (hact : Acts s t o s' t') :
    Owing ⟨s', l ++ t' :: l'⟩ := by
  obtain ⟨hfound, hfoundRest⟩ := Machine.forall_threads_at.1 h.found
  obtain ⟨hleaving, hleavingRest⟩ := Machine.forall_threads_at.1 h.leaving
  obtain ⟨-, hendedRest⟩ := Machine.forall_threads_at.1 h.ended
  refine ⟨fun i hi => uncounted_or_owed_act h hsettled hact hi,
    fun i hi => deregistered_or_owed_act h hplaced hsettled hact hi, fun i hi => ?_,
    Machine.forall_threads_at.2 ⟨fun i hi => ?_, fun t'' ht'' i hi => ?_⟩,
    Machine.forall_threads_at.2 ⟨fun i hi => ?_, fun t'' ht'' i hi => ?_⟩,
    fun i => total_leaving_le_act h hplaced hact,
    Machine.forall_threads_at.2 ⟨fun i hi => left_of_ended_act h hplaced hsettled hact hi,
      fun t'' ht'' i hi => ?_⟩⟩
  · rcases registry_act hact hi with hbefore | ⟨-, hinserting⟩
    · exact (h.registered i hbefore).act hact
    · exact .inl (Machine.exists_threads_at.2 (.inl hinserting))
  · rcases found_act hact hi with hbefore | hmem
    · exact (hfound i hbefore).act hact
    · exact (h.registered i hmem).act hact
  · exact (hfoundRest t'' ht'' i hi).act hact
  · rcases leaving_act hact i with hle | ⟨-, -, -, hleft⟩
    · have hone := t.leaving_le i
      exact Left.act (hleaving i (by omega)) hact
    · exact hleft
  · exact Left.act (hleavingRest t'' ht'' i hi) hact
  · obtain ⟨hleft, hzero⟩ := hendedRest t'' ht'' i hi
    exact ⟨Left.act hleft hact, total_leaving_act hplaced hact hleft hzero⟩

end

theorem Owing.env {s : State} (h : Owing s) (input : Input) :
    Owing ⟨s.shared, s.threads ++ [input.thread]⟩ := by
  have hnew : ∀ {P : Thread → Prop}, (∀ t ∈ s.threads, P t) → P input.thread →
      ∀ t ∈ s.threads ++ [input.thread], P t := by
    intro P hold hinput t ht
    rcases List.mem_append.1 ht with ht | ht
    · exact hold t ht
    · rwa [List.mem_singleton.1 ht]
  have hlift : ∀ {P : Thread → Prop}, (∃ t ∈ s.threads, P t) →
      ∃ t ∈ s.threads ++ [input.thread], P t := by
    rintro P ⟨t, ht, hP⟩
    exact ⟨t, List.mem_append_left _ ht, hP⟩
  have hleaving : ∀ id, input.thread.leaving id = 0 := by
    intro id
    cases input <;> rfl
  have htotal : ∀ id, Machine.total (Thread.leaving id) (s.threads ++ [input.thread]) =
      Machine.total (Thread.leaving id) s.threads := by
    intro id
    simp [hleaving]
  refine ⟨fun id hid => (h.uncounted id hid).imp_right hlift,
    fun id hid => (h.deregistered id hid).imp_right hlift,
    fun id hid => (h.registered id hid).imp_left hlift,
    hnew (fun t ht id hid => (h.found t ht id hid).imp_left hlift) ?_, hnew h.leaving ?_,
    fun id => ?_, hnew (fun t ht id hid => ?_) ?_⟩
  · intro id hid
    cases input <;> cases hid
  · intro id hid
    rw [hleaving] at hid
    cases hid
  · rw [htotal]
    exact h.single id
  · rw [htotal]
    exact h.ended t ht id hid
  · intro id hid
    cases input <;> cases hid

theorem owing_of_run {max : Option UInt64} {as : List Step} {s : State}
    (h : Run system.step Settling (initial max) as s) : Owing s := by
  refine invariant_of_run (I := Owing) (J := Placed) h
    (fun as t ht => placed_of_run ht fun _ _ => Settling.numbered) ?_ ?_ ?_
  · exact ⟨nofun, nofun, nofun, nofun, nofun, fun _ => Nat.zero_le _, nofun⟩
  · exact fun t input _ ht => ht.env input
  · exact fun s l l' t o s' t' hplaced hs hok hact =>
      hs.act hplaced (Machine.threadSteps_at.1 hok).2 hact

theorem accepting_of_owes {t : Thread} {id : ℕ}
    (h : t.toUncount id = true ∨ t.toDeregister id = true) (hleaving : t.leaving id = 0) :
    t.accepting id = true := by
  cases t with
  | accept t => cases t <;> rcases h with h | h <;> first | exact h | cases h
  | handle i isReadable isWritable t =>
    cases t <;> rcases h with h | h <;>
      first | cases h | simp [Thread.leaving, beq_iff_eq.1 h] at hleaving
  | close => rcases h with h | h <;> cases h

/-- In every run whose steps meet the condition, a connection whose handler has run
    into the end of the stream, a read error or a failed `on_data` is, once that call
    and the accept routine are done with it, neither in the map nor in the registry,
    and the counter has been decremented for it. -/
theorem ended_is_removed {max : Option UInt64} {as : List Step} {s : State}
    (h : Run system.step Settling (initial max) as s) {id : ℕ} {isReadable isWritable : Bool}
    (ht : .handle id isReadable isWritable (.returned true) ∈ s.threads)
    (haccept : ∀ t ∈ s.threads, t.accepting id = false) :
    id ∉ s.shared.connections ∧ id ∉ s.shared.registry ∧ id ∈ s.shared.uncounted := by
  have howing := owing_of_run h
  obtain ⟨hleft, hzero⟩ := howing.ended _ ht id (by simp [Thread.ended])
  have hnot : ∀ t ∈ s.threads, ¬ (t.toUncount id = true ∨ t.toDeregister id = true) := by
    intro t ht howes
    have hleaving : t.leaving id = 0 := by
      have hle := Machine.le_total (w := Thread.leaving id) ht
      omega
    have htrue := accepting_of_owes howes hleaving
    rw [haccept t ht] at htrue
    cases htrue
  refine ⟨((placed_of_run h fun _ _ => Settling.numbered).not_listed hleft).1, ?_, ?_⟩
  · apply (howing.deregistered id hleft).resolve_right
    rintro ⟨t, ht, howes⟩
    exact hnot t ht (.inr howes)
  · apply (howing.uncounted id hleft).resolve_right
    rintro ⟨t, ht, howes⟩
    exact hnot t ht (.inl howes)

/-- A connection is accepted and ends. -/
def listedAndEnded : List Step :=
  [.env .listener, .act 0 (.accepted "peer"), .act 0 .go, .act 0 .go, .act 0 .go, .act 0 .go,
    .act 0 .go, .act 0 .go, .act 0 .go, .env (.event 1 true false), .act 1 .go,
    .act 1 .endOfStream, .act 1 .go, .act 1 .go, .act 1 .go, .act 1 .go, .act 1 .go]

theorem ended_is_removed_listed :
    ∃ s, Run system.step Settling (initial none) listedAndEnded s ∧
      1 ∉ s.shared.connections ∧ 1 ∉ s.shared.registry ∧ 1 ∈ s.shared.uncounted := by
  obtain ⟨s, hrun, ht, haccept⟩ :
      ∃ s, Run system.step Settling (initial none) listedAndEnded s ∧
        .handle 1 true false (.returned true) ∈ s.threads ∧
        ∀ t ∈ s.threads, t.accepting 1 = false := Run.exists_of_exec (by decide +kernel)
  exact ⟨s, hrun, ended_is_removed hrun ht haccept⟩

/-- The peer closes the connection between its registration and its insertion into the
    map: the handler finds nothing to remove, and the entry that is then inserted
    stays. -/
theorem ended_stays :
    ∃ s, Run system.step Unrestricted (initial none)
        [.env .listener, .act 0 (.accepted "peer"), .act 0 .go, .act 0 .go, .act 0 .go,
          .env (.event 1 true false), .act 1 .go, .act 1 .endOfStream, .act 1 .go,
          .act 0 .go, .act 0 .go, .act 0 .go, .act 0 .go, .act 0 .wouldBlock] s ∧
      s.threads = [.accept .returned, .handle 1 true false (.returned true)] ∧
      1 ∈ s.shared.connections ∧ 1 ∈ s.shared.registry ∧ 1 ∉ s.shared.uncounted ∧
      s.shared.connectionCount = 1 :=
  Run.exists_of_exec (by decide +kernel)

end Server
