-- SUMMARY: `RpcServerBuilder` of `mill-rpc/src/server.rs`: the ids that services get, and the service map that `build` makes of them.
import Mathlib.Data.List.Nodup
import Mathlib.Data.List.Range
import Mathlib.Logic.Function.Basic

/-!
# The services of an RPC server

`service` numbers the services that it registers, `service_with_id` registers one under
an id of the caller's, and neither looks at what the other does. `build` inserts all of
them into one map. A `u16` that overflows goes round, or the addition panics, as the
program has been compiled; `overflowed` says that it has come to that.
-/

/-! ## Maps that are filled entry by entry -/

section

variable {κ ν : Type*} [DecidableEq κ]

/-- `HashMap::insert` for one entry after the other. -/
def insertAll (entries : List (κ × ν)) : κ → Option ν :=
  entries.foldl (fun map entry => Function.update map entry.1 (some entry.2)) fun _ => none

theorem insertAll_concat (entries : List (κ × ν)) (k : κ) (v : ν) :
    insertAll (entries ++ [(k, v)]) = Function.update (insertAll entries) k (some v) := by
  simp [insertAll]

/-- Entries with distinct keys are all found. -/
theorem insertAll_of_mem {entries : List (κ × ν)} (hnodup : (entries.map Prod.fst).Nodup)
    {entry : κ × ν} (hmem : entry ∈ entries) : insertAll entries entry.1 = some entry.2 := by
  induction entries using List.reverseRecOn with
  | nil => cases hmem
  | append_singleton entries last ih =>
    obtain ⟨k, v⟩ := last
    rw [insertAll_concat]
    rw [List.map_append, List.nodup_append] at hnodup
    obtain ⟨hentries, -, hlast⟩ := hnodup
    rcases List.mem_append.1 hmem with hmem | hmem
    · have hne : entry.1 ≠ k := hlast entry.1 (List.mem_map_of_mem hmem) k (by simp)
      rw [Function.update_of_ne hne]
      exact ih hentries hmem
    · rw [List.mem_singleton.1 hmem, Function.update_self]

end

variable {δ : Type*}

/-- A call of the builder that registers a dispatcher. -/
inductive Registration (δ : Type*)
  | service (svc : δ)
  | serviceWithId (id : UInt16) (svc : δ)
  deriving DecidableEq

structure RpcServerBuilder (δ : Type*) where
  services : List (UInt16 × δ)
  nextServiceId : UInt16
  overflowed : Bool

namespace RpcServerBuilder

def new : RpcServerBuilder δ := ⟨[], 0, false⟩

def service (b : RpcServerBuilder δ) (svc : δ) : RpcServerBuilder δ where
  services := b.services ++ [(b.nextServiceId, svc)]
  nextServiceId := b.nextServiceId + 1
  overflowed := b.overflowed || b.nextServiceId == 65535

def serviceWithId (b : RpcServerBuilder δ) (id : UInt16) (svc : δ) : RpcServerBuilder δ :=
  { b with services := b.services ++ [(id, svc)] }

def register (b : RpcServerBuilder δ) : Registration δ → RpcServerBuilder δ
  | .service svc => b.service svc
  | .serviceWithId id svc => b.serviceWithId id svc

/-- The builder after the calls. -/
def registered (calls : List (Registration δ)) : RpcServerBuilder δ := calls.foldl register new

/-- The service map of the server that `build` starts. -/
def build (b : RpcServerBuilder δ) : UInt16 → Option δ := insertAll b.services

end RpcServerBuilder

namespace Registration

open RpcServerBuilder (registered)

def isAutomatic : Registration δ → Bool
  | service _ => true
  | serviceWithId _ _ => false

def explicitId : Registration δ → Option UInt16
  | service _ => none
  | serviceWithId id _ => some id

/-- How many ids are assigned automatically. -/
def automatic (calls : List (Registration δ)) : ℕ := calls.countP isAutomatic

def explicitIds (calls : List (Registration δ)) : List UInt16 := calls.filterMap explicitId

/-- The entry is the one that the call is to make. -/
def Owns : Registration δ → UInt16 × δ → Prop
  | service svc, entry => entry.2 = svc
  | serviceWithId id svc, entry => entry = (id, svc)

/-- Every call has registered its dispatcher, no two of them under one id, and the map
    has each dispatcher under its own id. The counter of ids has not overflowed. -/
structure Reachable (calls : List (Registration δ)) : Prop where
  complete : List.Forall₂ Owns calls (registered calls).services
  distinct : ((registered calls).services.map Prod.fst).Nodup
  found : ∀ entry ∈ (registered calls).services, (registered calls).build entry.1 = some entry.2
  counter : (registered calls).overflowed = false

/-! ## What the calls make -/

theorem registered_concat (calls : List (Registration δ)) (call : Registration δ) :
    registered (calls ++ [call]) = (registered calls).register call := by
  simp [RpcServerBuilder.registered]

theorem owns_registered (calls : List (Registration δ)) :
    List.Forall₂ Owns calls (registered calls).services := by
  induction calls using List.reverseRecOn with
  | nil => exact .nil
  | append_singleton calls call ih =>
    rw [registered_concat]
    cases call with
    | service svc => exact List.rel_append ih (.cons rfl .nil)
    | serviceWithId id svc => exact List.rel_append ih (.cons rfl .nil)

/-- The counter counts modulo `2 ^ 16`. -/
theorem nextServiceId_registered (calls : List (Registration δ)) :
    (registered calls).nextServiceId = UInt16.ofNat (automatic calls) := by
  induction calls using List.reverseRecOn with
  | nil => rfl
  | append_singleton calls call ih =>
    rw [registered_concat]
    cases call with
    | service svc =>
      rw [RpcServerBuilder.register, RpcServerBuilder.service, ih]
      simp [automatic, isAutomatic, UInt16.ofNat_add]
    | serviceWithId id svc =>
      rw [RpcServerBuilder.register, RpcServerBuilder.serviceWithId, ih]
      simp [automatic, isAutomatic]

theorem overflowed_registered (calls : List (Registration δ)) :
    (registered calls).overflowed = true ↔ 65536 ≤ automatic calls := by
  induction calls using List.reverseRecOn with
  | nil => simp [RpcServerBuilder.registered, RpcServerBuilder.new, automatic]
  | append_singleton calls call ih =>
    rw [registered_concat]
    cases call with
    | service svc =>
      have hlast : (UInt16.ofNat (automatic calls) = 65535) ↔ automatic calls % 65536 = 65535 := by
        rw [← UInt16.toNat_inj, UInt16.toNat_ofNat']
        rfl
      have hcount : automatic (calls ++ [service svc]) = automatic calls + 1 := by
        simp [automatic, isAutomatic]
      rw [RpcServerBuilder.register, RpcServerBuilder.service, nextServiceId_registered,
        Bool.or_eq_true, beq_iff_eq, ih, hlast, hcount]
      omega
    | serviceWithId id svc =>
      have hcount : automatic (calls ++ [serviceWithId id svc]) = automatic calls := by
        simp [automatic, isAutomatic]
      rw [RpcServerBuilder.register, RpcServerBuilder.serviceWithId, ih, hcount]

/-- The ids are those of the counter and the explicit ones. -/
theorem perm_ids (calls : List (Registration δ)) :
    ((registered calls).services.map Prod.fst).Perm
      ((List.range (automatic calls)).map UInt16.ofNat ++ explicitIds calls) := by
  induction calls using List.reverseRecOn with
  | nil => exact .nil
  | append_singleton calls call ih =>
    rw [registered_concat]
    cases call with
    | service svc =>
      have hcount : automatic (calls ++ [service svc]) = automatic calls + 1 := by
        simp [automatic, isAutomatic]
      have hids : explicitIds (calls ++ [service svc]) = explicitIds calls := by
        simp [explicitIds, explicitId]
      rw [hcount, hids, List.range_succ, RpcServerBuilder.register, RpcServerBuilder.service]
      simp only [List.map_append, List.map_cons, List.map_nil, nextServiceId_registered,
        List.append_assoc]
      exact (ih.append_right _).trans (by
        rw [List.append_assoc]
        exact List.perm_append_comm.append_left _)
    | serviceWithId id svc =>
      have hcount : automatic (calls ++ [serviceWithId id svc]) = automatic calls := by
        simp [automatic, isAutomatic]
      have hids : explicitIds (calls ++ [serviceWithId id svc]) = explicitIds calls ++ [id] := by
        simp [explicitIds, explicitId]
      rw [hcount, hids, RpcServerBuilder.register, RpcServerBuilder.serviceWithId]
      simp only [List.map_append, List.map_cons, List.map_nil, ← List.append_assoc]
      exact ih.append_right _

/-- The ids of the counter are distinct as long as it has not gone round. -/
theorem nodup_range {n : ℕ} (h : n ≤ 65536) : ((List.range n).map UInt16.ofNat).Nodup := by
  refine List.nodup_range.map_on fun i hi j hj heq => ?_
  rw [List.mem_range] at hi hj
  rw [← UInt16.toNat_inj, UInt16.toNat_ofNat', UInt16.toNat_ofNat'] at heq
  omega

theorem mem_range_iff {n : ℕ} (id : UInt16) :
    id ∈ (List.range n).map UInt16.ofNat ↔ id.toNat < n := by
  rw [List.mem_map]
  constructor
  · rintro ⟨i, hi, rfl⟩
    rw [List.mem_range] at hi
    rw [UInt16.toNat_ofNat']
    exact (Nat.mod_le _ _).trans_lt hi
  · intro hid
    exact ⟨id.toNat, List.mem_range.2 hid, UInt16.ofNat_toNat⟩

theorem nodup_ids_iff {calls : List (Registration δ)} (h : (explicitIds calls).Nodup)
    (hcount : automatic calls ≤ 65536) :
    ((registered calls).services.map Prod.fst).Nodup ↔
      ∀ id ∈ explicitIds calls, automatic calls ≤ id.toNat := by
  rw [(perm_ids calls).nodup_iff, List.nodup_append]
  constructor
  · rintro ⟨-, -, hne⟩ id hid
    by_contra hlt
    exact hne id ((mem_range_iff id).2 (Nat.lt_of_not_le hlt)) id hid rfl
  · intro hle
    refine ⟨nodup_range hcount, h, ?_⟩
    rintro id hrange _ hid rfl
    exact absurd ((mem_range_iff id).1 hrange) (Nat.not_lt.2 (hle id hid))

/-- For all calls whose explicit ids are distinct: every service is reachable under its
    own id if and only if fewer than `2 ^ 16` ids are assigned automatically and no explicit
    id is smaller than their number. -/
theorem reachable_iff {calls : List (Registration δ)} (h : (explicitIds calls).Nodup) :
    Reachable calls ↔
      automatic calls < 65536 ∧ ∀ id ∈ explicitIds calls, automatic calls ≤ id.toNat := by
  have hcounter : (registered calls).overflowed = false ↔ automatic calls < 65536 := by
    rw [← Bool.not_eq_true, overflowed_registered, Nat.not_le]
  constructor
  · intro hreachable
    have hcount := hcounter.1 hreachable.counter
    exact ⟨hcount, (nodup_ids_iff h hcount.le).1 hreachable.distinct⟩
  · rintro ⟨hcount, hids⟩
    have hdistinct := (nodup_ids_iff h hcount.le).2 hids
    exact ⟨owns_registered calls, hdistinct, fun _ => insertAll_of_mem hdistinct, hcounter.2 hcount⟩

theorem reachable_iff_three : Reachable [service "math", serviceWithId 7 "echo", service "text"] ↔
    automatic [service "math", serviceWithId 7 "echo", service "text"] < 65536 ∧
      ∀ id ∈ explicitIds [service "math", serviceWithId 7 "echo", service "text"],
        automatic [service "math", serviceWithId 7 "echo", service "text"] ≤ id.toNat :=
  reachable_iff (by decide)

theorem automatic_replicate (n : ℕ) (svc : δ) : automatic (List.replicate n (service svc)) = n := by
  rw [automatic, List.countP_replicate]
  exact if_pos rfl

/-- The first service that gets an id automatically replaces the one that has been
    registered under 0. And the counter overflows with the last of `2 ^ 16` services. -/
theorem service_replaced :
    ((registered [serviceWithId 0 "echo", service "math"]).build 0 = some "math" ∧
      (registered [serviceWithId 0 "echo", service "math"]).services = [(0, "echo"), (0, "math")] ∧
      ¬ Reachable [serviceWithId 0 "echo", service "math"]) ∧
    (registered (List.replicate 65536 (service "math"))).overflowed = true := by
  refine ⟨⟨rfl, rfl, fun hreachable => ?_⟩, ?_⟩
  · have hfound := hreachable.found (0, "echo") (by decide)
    revert hfound
    decide
  · rw [overflowed_registered, automatic_replicate]

end Registration
