-- SUMMARY: Each connection is listed in the map of the server at most once, and one accept routine at a time has the lock of the listener.
import MillIo.Server.Lifecycle

/-!
# The entries of the connection map

An id goes one way: from the accept routine that has drawn it into the map, and
from there to the connections that have left. It is in at most one of these places
at any time.
-/

namespace Server

open Interleaving

/-! ## The lock of the listener -/

def Accept.inBody : Accept → ℕ
  | .listening => 0
  | .returned => 0
  | _ => 1

def Thread.inBody : Thread → ℕ
  | .accept t => t.inBody
  | _ => 0

/-- The lock is held by the one accept routine that is in the body of its loop. -/
def Exclusive (s : State) : Prop :=
  Machine.total Thread.inBody s.threads = s.shared.listenerLocked.toNat

section

variable {s s' : TcpServer} {t t' : Thread} {l l' : List Thread} {o : Choice}

/-- A thread takes the lock when nobody has it and gives it back, or leaves it
    alone. -/
theorem lock_act (h : Acts s t o s' t') :
    t'.inBody + s.listenerLocked.toNat = t.inBody + s'.listenerLocked.toNat ∨
      (t.inBody = 1 ∧ t'.inBody = 0 ∧ s'.listenerLocked = false) := by
  cases h with
  | accept t t' o s' h =>
    cases h with
    | listen peer hfree => exact .inl (by simp [Thread.inBody, Accept.inBody, hfree])
    | reject | backedOut | connected | uncount => exact .inr ⟨rfl, rfl, rfl⟩
    | stop | load | count | exchange | retry | draw | register | backOut | insert | establish
      | connect | fail | remove | gone | deregister | refused => exact .inl rfl
  | handle id isReadable isWritable t t' o s' h => cases h <;> exact .inl rfl
  | close id t t' o s' h => cases h <;> exact .inl rfl

theorem Exclusive.act (h : Exclusive ⟨s, l ++ t :: l'⟩) (hact : Acts s t o s' t') :
    Exclusive ⟨s', l ++ t' :: l'⟩ := by
  have htotal : Machine.total Thread.inBody (l ++ t :: l') = s.listenerLocked.toNat := h
  have hle := Bool.toNat_le s.listenerLocked
  simp only [Machine.total_append, Machine.total_cons] at htotal
  simp only [Exclusive, Machine.total_append, Machine.total_cons]
  rcases lock_act hact with heq | ⟨hin, hout, hfree⟩
  · omega
  · rw [hfree, Bool.toNat_false]
    omega

end

theorem Input.inBody_thread (input : Input) : input.thread.inBody = 0 := by
  cases input <;> rfl

theorem exclusive_of_run {max : Option UInt64} {ok : State → Step → Prop} {as : List Step}
    {s : State} (h : Run system.step ok (initial max) as s) : Exclusive s := by
  refine invariant_of_run (I := Exclusive) (J := fun _ => True) h (fun _ _ _ => trivial) rfl ?_ ?_
  · intro t input _ ht
    simpa [Exclusive, Input.inBody_thread] using ht
  · exact fun s l l' t o s' t' _ hs _ hact => hs.act hact

/-- No other thread is in the body of the accept loop. -/
theorem Exclusive.others {s : TcpServer} {t t' : Thread} {l l' : List Thread}
    (h : Exclusive ⟨s, l ++ t :: l'⟩) (ht : t.inBody = 1) (ht' : t' ∈ l ++ l') : t'.inBody = 0 := by
  have htotal : Machine.total Thread.inBody (l ++ t :: l') = s.listenerLocked.toNat := h
  have hle := Bool.toNat_le s.listenerLocked
  have hmem := Machine.le_total (w := Thread.inBody) ht'
  simp only [Machine.total_append, Machine.total_cons] at htotal hmem
  omega

/-! ## The places of an id -/

/-- One if the routine has drawn the id and may still insert it. -/
def Accept.unlisted (id : ℕ) : Accept → ℕ
  | .registering i _ => if i = id then 1 else 0
  | .inserting i _ => if i = id then 1 else 0
  | _ => 0

def Thread.unlisted (id : ℕ) : Thread → ℕ
  | .accept t => t.unlisted id
  | _ => 0

/-- How often the id is in the map or has left it. -/
def TcpServer.listed (s : TcpServer) (id : ℕ) : ℕ :=
  (if id ∈ s.connections then 1 else 0) + (s.left.map Prod.fst).count id

/-- What the next step of the thread takes out of the map. -/
def Thread.leaves (s : TcpServer) : Thread → Option (ℕ × Exit)
  | .accept (.removing id) => if id ∈ s.connections then some (id, .onConnectFailed) else none
  | .handle id _ _ .removing => if id ∈ s.connections then some (id, .disconnect) else none
  | .close id .removing => if id ∈ s.connections then some (id, .closeConnection) else none
  | _ => none

/-- The id has left the map. -/
def TcpServer.Left (s : TcpServer) (id : ℕ) : Prop := id ∈ s.left.map Prod.fst

instance (s : TcpServer) : DecidablePred s.Left :=
  fun id => inferInstanceAs (Decidable (id ∈ s.left.map Prod.fst))

/-- The connection is in the map or has left it. -/
def TcpServer.Known (s : TcpServer) (id : ℕ) : Prop := id ∈ s.connections ∨ s.Left id

/-- The counter of ids has not come round when the thread draws from it. -/
def Thread.DrawsNew (s : TcpServer) : Thread → Prop
  | .accept (.drawing _) => s.nextConnId < 2 ^ 64
  | _ => True

instance (s : TcpServer) (t : Thread) : Decidable (t.DrawsNew s) := by
  unfold Thread.DrawsNew
  split <;> infer_instance

/-- Fewer than 2^64 ids are drawn, so an id stands for one connection. -/
def Numbered : State → Step → Prop := Machine.ThreadSteps fun s t _ => t.DrawsNew s.shared

instance : DecidableRel Numbered := by unfold Numbered; infer_instance

structure Placed (s : State) : Prop where
  once : ∀ id, Machine.total (Thread.unlisted id) s.threads + s.shared.listed id ≤ 1
  drawn : ∀ id, s.shared.nextConnId ≤ id →
    Machine.total (Thread.unlisted id) s.threads + s.shared.listed id = 0

section

variable {s s' : TcpServer} {t t' : Thread} {l l' : List Thread} {o : Choice} {id : ℕ}

theorem left_act (h : Acts s t o s' t') : s'.left = s.left ++ (t.leaves s).toList := by
  cases h with
  | accept t t' o s' h =>
    cases h with
    | remove id hmem => simp [TcpServer.remove, Thread.leaves, hmem]
    | gone id hmem => simp [Thread.leaves, hmem]
    | _ => exact (List.append_nil _).symm
  | handle id isReadable isWritable t t' o s' h =>
    cases h with
    | remove hmem => simp [TcpServer.remove, Thread.leaves, hmem]
    | gone hmem => simp [Thread.leaves, hmem]
    | _ => exact (List.append_nil _).symm
  | close id t t' o s' h =>
    cases h with
    | remove hmem => simp [TcpServer.remove, Thread.leaves, hmem]
    | gone hmem => simp [Thread.leaves, hmem]
    | _ => exact (List.append_nil _).symm

theorem mem_remove (exit : Exit) {i : ℕ} (h : i ∈ s.connections) :
    i ∈ (s.remove id exit).connections ∨ i = id := by
  by_cases heq : i = id
  · exact .inr heq
  · exact .inl (Finset.mem_erase_of_ne_of_mem heq h)

/-- An entry stays in the map or leaves it. -/
theorem mem_connections_act (h : Acts s t o s' t') {i : ℕ} (hmem : i ∈ s.connections) :
    i ∈ s'.connections ∨ ∃ exit, t.leaves s = some (i, exit) := by
  cases h with
  | accept t t' o s' h =>
    cases h with
    | insert id peer => exact .inl (Finset.mem_insert_of_mem hmem)
    | remove id hid =>
      refine (mem_remove .onConnectFailed hmem).imp_right fun heq => ⟨.onConnectFailed, ?_⟩
      rw [heq]
      exact if_pos hid
    | _ => exact .inl hmem
  | handle id isReadable isWritable t t' o s' h =>
    cases h with
    | remove hid =>
      refine (mem_remove .disconnect hmem).imp_right fun heq => ⟨.disconnect, ?_⟩
      rw [heq]
      exact if_pos hid
    | _ => exact .inl hmem
  | close id t t' o s' h =>
    cases h with
    | remove hid =>
      refine (mem_remove .closeConnection hmem).imp_right fun heq => ⟨.closeConnection, ?_⟩
      rw [heq]
      exact if_pos hid
    | _ => exact .inl hmem

theorem left_of_leaves {i : ℕ} {exit : Exit} (h : Acts s t o s' t')
    (hleaves : t.leaves s = some (i, exit)) : s'.Left i := by
  simp [TcpServer.Left, left_act h, hleaves]

theorem Left.act {i : ℕ} (h : s.Left i) (hact : Acts s t o s' t') : s'.Left i := by
  simp only [TcpServer.Left, left_act hact, List.map_append]
  exact List.mem_append_left _ h

theorem Known.act (h : s.Known id) (hact : Acts s t o s' t') : s'.Known id := by
  rcases h with hmem | hleft
  · exact (mem_connections_act hact hmem).imp_right fun ⟨_, hleaves⟩ => left_of_leaves hact hleaves
  · exact .inr (Left.act hleft hact)

theorem listed_insert_le : (s.insert id).listed id ≤ s.listed id + 1 := by
  simp only [TcpServer.listed, TcpServer.insert, Finset.mem_insert_self, if_true]
  omega

theorem listed_insert_of_ne {i : ℕ} (h : i ≠ id) : (s.insert id).listed i = s.listed i := by
  simp [TcpServer.listed, TcpServer.insert, h]

theorem listed_remove (exit : Exit) (h : id ∈ s.connections) (i : ℕ) :
    (s.remove id exit).listed i = s.listed i := by
  by_cases heq : i = id
  · subst heq
    simp only [TcpServer.listed, TcpServer.remove, Finset.notMem_erase, h, if_true, if_false,
      List.map_append, List.map_singleton, List.count_append, List.count_singleton_self]
    omega
  · simp [TcpServer.listed, TcpServer.remove, heq, Ne.symm heq]

/-- A step draws the next id or moves ids along. -/
theorem listed_act (hnew : t.DrawsNew s) (h : Acts s t o s' t') :
    (s'.nextConnId = s.nextConnId ∧
      ∀ id, t'.unlisted id + s'.listed id ≤ t.unlisted id + s.listed id) ∨
    (s'.nextConnId = s.nextConnId + 1 ∧ ∀ id, t'.unlisted id + s'.listed id =
      t.unlisted id + s.listed id + if s.nextConnId = id then 1 else 0) := by
  cases h with
  | accept t t' o s' h =>
    cases h with
    | draw peer o errors =>
      refine .inr ⟨rfl, fun id => ?_⟩
      simp only [Thread.unlisted, Accept.unlisted, TcpServer.listed, Nat.mod_eq_of_lt hnew]
      omega
    | backOut id peer o errors =>
      exact .inl ⟨rfl, fun i => Nat.add_le_add_right (Nat.zero_le _) _⟩
    | insert id peer =>
      refine .inl ⟨rfl, fun i => ?_⟩
      simp only [Thread.unlisted, Accept.unlisted]
      by_cases heq : i = id
      · subst heq
        have hle : (s.insert i).listed i ≤ s.listed i + 1 := listed_insert_le
        simp only [if_true]
        omega
      · rw [listed_insert_of_ne heq]
        omega
    | remove id hmem => exact .inl ⟨rfl, fun i => Nat.add_le_add_left (listed_remove _ hmem i).le _⟩
    | listen | stop | reject | load | count | exchange | retry | register | backedOut | establish
      | connect | connected | fail | gone | deregister | refused | uncount =>
      exact .inl ⟨rfl, fun _ => le_rfl⟩
  | handle id isReadable isWritable t t' o s' h =>
    cases h with
    | remove hmem => exact .inl ⟨rfl, fun i => Nat.add_le_add_left (listed_remove _ hmem i).le _⟩
    | _ => exact .inl ⟨rfl, fun _ => le_rfl⟩
  | close id t t' o s' h =>
    cases h with
    | remove hmem => exact .inl ⟨rfl, fun i => Nat.add_le_add_left (listed_remove _ hmem i).le _⟩
    | _ => exact .inl ⟨rfl, fun _ => le_rfl⟩

theorem Placed.act (h : Placed ⟨s, l ++ t :: l'⟩) (hnew : t.DrawsNew s) (hact : Acts s t o s' t') :
    Placed ⟨s', l ++ t' :: l'⟩ := by
  have honce := h.once
  have hdrawn := h.drawn
  simp only [Machine.total_append, Machine.total_cons] at honce hdrawn
  rcases listed_act hnew hact with ⟨hnext, hle⟩ | ⟨hnext, heq⟩
  · constructor
    · intro id
      have hid := hle id
      have hone := honce id
      simp only [Machine.total_append, Machine.total_cons]
      omega
    · intro id hge
      have hid := hle id
      have hzero := hdrawn id (hnext ▸ hge)
      simp only [Machine.total_append, Machine.total_cons]
      omega
  · constructor
    · intro id
      have hid := heq id
      have hone := honce id
      simp only [Machine.total_append, Machine.total_cons]
      split at hid
      · rename_i hself
        have hzero := hdrawn id hself.le
        omega
      · omega
    · intro id hge
      have hid := heq id
      change s'.nextConnId ≤ id at hge
      have hzero := hdrawn id (show s.nextConnId ≤ id by omega)
      simp only [Machine.total_append, Machine.total_cons]
      rw [if_neg (by omega)] at hid
      omega

end

theorem Input.unlisted_thread (input : Input) (id : ℕ) : input.thread.unlisted id = 0 := by
  cases input <;> rfl

theorem placed_of_run {max : Option UInt64} {ok : State → Step → Prop} {as : List Step}
    {s : State} (h : Run system.step ok (initial max) as s) (hok : ∀ s a, ok s a → Numbered s a) :
    Placed s := by
  refine invariant_of_run (I := Placed) (J := fun _ => True) h (fun _ _ _ => trivial)
    ⟨fun _ => Nat.zero_le _, fun _ _ => rfl⟩ ?_ ?_
  · intro t input _ ht
    constructor
    · intro id
      simpa [Input.unlisted_thread] using ht.once id
    · intro id hge
      simpa [Input.unlisted_thread] using ht.drawn id hge
  · exact fun s l l' t o s' t' _ hs ha hact =>
      hs.act (Machine.threadSteps_at.1 (hok _ _ ha)) hact

section

variable {s : State} {id : ℕ}

/-- An id that has left is not in the map, and no routine may still insert it. -/
theorem Placed.not_listed (h : Placed s) (hleft : s.shared.Left id) :
    id ∉ s.shared.connections ∧ ∀ t ∈ s.threads, t.unlisted id = 0 := by
  have honce := h.once id
  have hcount : 0 < (s.shared.left.map Prod.fst).count id := List.count_pos_iff.2 hleft
  simp only [TcpServer.listed] at honce
  constructor
  · intro hmem
    rw [if_pos hmem] at honce
    omega
  · intro t ht
    have hle := Machine.le_total (w := Thread.unlisted id) ht
    omega

/-- An id that a routine may still insert is new to the map. -/
theorem Placed.new {t : Thread} (h : Placed s) (ht : t ∈ s.threads) (hid : t.unlisted id = 1) :
    id ∉ s.shared.connections ∧ ¬ s.shared.Left id := by
  have honce := h.once id
  have hle := Machine.le_total (w := Thread.unlisted id) ht
  simp only [TcpServer.listed] at honce
  constructor
  · intro hmem
    rw [if_pos hmem] at honce
    omega
  · intro hleft
    have hcount : 0 < (s.shared.left.map Prod.fst).count id := List.count_pos_iff.2 hleft
    omega

/-- No connection leaves twice. -/
theorem Placed.count_left_le (h : Placed s) (id : ℕ) :
    (s.shared.left.map Prod.fst).count id ≤ 1 := by
  have honce := h.once id
  simp only [TcpServer.listed] at honce
  omega

theorem Placed.not_left_of_next (h : Placed s) (hge : s.shared.nextConnId ≤ id) :
    ¬ s.shared.Left id := by
  have hzero := h.drawn id hge
  intro hleft
  have hcount : 0 < (s.shared.left.map Prod.fst).count id := List.count_pos_iff.2 hleft
  simp only [TcpServer.listed] at hzero
  omega

end

end Server
