-- SUMMARY: `Codec` of `mill-rpc-core/src/codec.rs` on the types that `service!` generates: unit structs, structs and newtypes.
import MillIo.Rpc.Error
import Mathlib.Data.List.Basic

/-!
# The codec

How `bincode` writes a value is a parameter, of which only the round trip is used. Its own
layout is an instance: a unit struct is nothing, a struct is its fields one after the other
in the order of its definition, and a newtype is what it holds.
-/

variable {τ ν : Type*}

/-- A generated type. -/
inductive TypeDef (τ : Type*)
  | unit
  | struct (fields : List (String × τ))
  | newtype (ty : τ)
  deriving DecidableEq

/-- The types of what a value holds. -/
def TypeDef.types : TypeDef τ → List τ
  | unit => []
  | struct fields => fields.map Prod.snd
  | newtype ty => [ty]

/-- A value of a generated type. -/
inductive Data (ν : Type*)
  | unit
  | struct (fields : List (String × ν))
  | newtype (value : ν)
  deriving DecidableEq

namespace Data

/-- `x.name`. -/
def field (name : String) : Data ν → Option ν
  | struct fields => fields.lookup name
  | _ => none

/-- `x.0`. -/
def inner : Data ν → Option ν
  | newtype value => some value
  | _ => none

/-- The fields of a struct have values of their types, in the order of the definition. -/
inductive Of (HasType : τ → ν → Prop) : TypeDef τ → Data ν → Prop
  | unit : Of HasType .unit .unit
  | struct (fields : List (String × τ)) (x : List (String × ν)) :
      List.Forall₂ (fun field entry => entry.1 = field.1 ∧ HasType field.2 entry.2) fields x →
      Of HasType (.struct fields) (.struct x)
  | newtype (ty : τ) (value : ν) : HasType ty value → Of HasType (.newtype ty) (.newtype value)

end Data

/-- `bincode::serialize` and `bincode::deserialize` at each generated type. -/
structure Codec (τ ν : Type*) where
  write : TypeDef τ → Data ν → Except String (List UInt8)
  read : TypeDef τ → List UInt8 → Except String (Data ν)

namespace Codec

variable (c : Codec τ ν)

/-- `Codec::serialize`. -/
def serialize (ty : TypeDef τ) (value : Data ν) : Except RpcError (List UInt8) :=
  (c.write ty value).mapError fun e => .codecError s!"serialize: {e}"

/-- `Codec::deserialize`. -/
def deserialize (ty : TypeDef τ) (data : List UInt8) : Except RpcError (Data ν) :=
  (c.read ty data).mapError fun e => .codecError s!"deserialize: {e}"

/-- Every value of the type is written, and is read back. -/
def RoundTrips (HasType : τ → ν → Prop) (ty : TypeDef τ) : Prop :=
  ∀ value, value.Of HasType ty → ∃ bs, c.write ty value = .ok bs ∧ c.read ty bs = .ok value

variable {c} {HasType : τ → ν → Prop}

theorem deserialize_serialize {ty : TypeDef τ} {value : Data ν} (hround : c.RoundTrips HasType ty)
    (hvalue : value.Of HasType ty) :
    ∃ bs, c.serialize ty value = .ok bs ∧ c.deserialize ty bs = .ok value := by
  obtain ⟨bs, hwrite, hread⟩ := hround value hvalue
  refine ⟨bs, ?_, ?_⟩
  · rw [serialize, hwrite]
    rfl
  · rw [deserialize, hread]
    rfl

/-- In a list with distinct keys every entry is found. -/
theorem lookup_of_mem {κ ω : Type*} [BEq κ] [LawfulBEq κ] {x : List (κ × ω)}
    (hnodup : (x.map Prod.fst).Nodup) {e : κ × ω} (hmem : e ∈ x) :
    x.lookup e.1 = some e.2 := by
  induction x with
  | nil => cases hmem
  | cons first x ih =>
    obtain ⟨key, value⟩ := first
    rw [List.map_cons, List.nodup_cons] at hnodup
    rcases List.mem_cons.1 hmem with rfl | hrest
    · simp
    · have hkey : e.1 ∈ x.map Prod.fst := List.mem_map_of_mem hrest
      have hne : e.1 ≠ key := fun heq => hnodup.1 (heq ▸ hkey)
      rw [List.lookup_cons, beq_false_of_ne hne]
      exact ih hnodup.2 hrest

end Codec

/-! ## The layout of `bincode` -/

/-- The bytes of a value of a type in `τ`, and the value at the front of bytes with what is
    behind it. -/
structure Layout (τ ν : Type*) where
  write : τ → ν → Except String (List UInt8)
  read : τ → List UInt8 → Except String (ν × List UInt8)

namespace Layout

variable (l : Layout τ ν)

def writeFields : List (String × τ) → List (String × ν) → Except String (List UInt8)
  | (_, ty) :: fields, (_, value) :: x => do
    let bs ← l.write ty value
    let rest ← writeFields fields x
    .ok (bs ++ rest)
  | _, _ => .ok []

def readFields : List (String × τ) → List UInt8 → Except String (List (String × ν) × List UInt8)
  | [], bs => .ok ([], bs)
  | (name, ty) :: fields, bs => do
    let (value, rest) ← l.read ty bs
    let (x, rest) ← readFields fields rest
    .ok ((name, value) :: x, rest)

/-- Bytes that follow are left alone, as by `bincode::deserialize`. -/
def codec : Codec τ ν where
  write
    | .struct fields, .struct x => l.writeFields fields x
    | .newtype ty, .newtype value => l.write ty value
    | _, _ => .ok []
  read
    | .unit, _ => .ok .unit
    | .struct fields, bs => (l.readFields fields bs).map fun r => .struct r.1
    | .newtype ty, bs => (l.read ty bs).map fun r => .newtype r.1

/-- Every value of the type is written, and is read back whatever follows it. -/
def RoundTrips (HasType : τ → ν → Prop) (ty : τ) : Prop :=
  ∀ value, HasType ty value →
    ∃ bs, l.write ty value = .ok bs ∧ ∀ rest, l.read ty (bs ++ rest) = .ok (value, rest)

variable {l} {HasType : τ → ν → Prop}

theorem read_writeFields {fields : List (String × τ)} {x : List (String × ν)}
    (hround : ∀ ty ∈ fields.map Prod.snd, l.RoundTrips HasType ty)
    (hx : List.Forall₂ (fun field entry => entry.1 = field.1 ∧ HasType field.2 entry.2) fields x) :
    ∃ bs, l.writeFields fields x = .ok bs ∧
      ∀ rest, l.readFields fields (bs ++ rest) = .ok (x, rest) := by
  induction hx with
  | nil => exact ⟨[], rfl, fun rest => rfl⟩
  | @cons field entry fields x hentry _ ih =>
    obtain ⟨name, ty⟩ := field
    obtain ⟨_, value⟩ := entry
    obtain ⟨rfl, hvalue⟩ := hentry
    rw [List.map_cons, List.forall_mem_cons] at hround
    obtain ⟨bs, hwrite, hread⟩ := hround.1 value hvalue
    obtain ⟨bs', hwrites, hreads⟩ := ih hround.2
    refine ⟨bs ++ bs', ?_, fun rest => ?_⟩
    · simp only [writeFields, hwrite, hwrites, bind, Except.bind]
    · rw [readFields, List.append_assoc, hread]
      simp only [bind, Except.bind, hreads]

/-- A generated type is read back if all types in it are. -/
theorem roundTrips_codec {ty : TypeDef τ} (hround : ∀ t ∈ ty.types, l.RoundTrips HasType t) :
    l.codec.RoundTrips HasType ty := by
  intro value hvalue
  cases hvalue with
  | unit => exact ⟨[], rfl, rfl⟩
  | struct fields x hx =>
    obtain ⟨bs, hwrite, hread⟩ := read_writeFields hround hx
    have hread := hread []
    rw [List.append_nil] at hread
    refine ⟨bs, hwrite, ?_⟩
    change (l.readFields fields bs).map _ = _
    rw [hread]
    rfl
  | newtype ty value hvalue =>
    obtain ⟨bs, hwrite, hread⟩ := hround ty (List.mem_singleton_self ty) value hvalue
    have hread := hread []
    rw [List.append_nil] at hread
    refine ⟨bs, hwrite, ?_⟩
    change (l.read ty bs).map _ = _
    rw [hread]
    rfl

end Layout
