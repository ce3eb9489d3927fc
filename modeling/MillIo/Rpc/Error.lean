-- SUMMARY: `RpcStatus` and `RpcError` of `mill-rpc-core/src/error.rs`, and the lossy reading of bytes as text.

/-! # RPC errors -/

inductive RpcStatus
  | ok
  | cancelled
  | invalidArgument
  | notFound
  | alreadyExists
  | permissionDenied
  | unauthenticated
  | resourceExhausted
  | internal
  | unavailable
  | deadlineExceeded
  deriving DecidableEq, Repr

/-- Structured RPC error with status code and message. -/
@[ext]
structure RpcError where
  status : RpcStatus
  message : String
  deriving DecidableEq, Repr

namespace RpcError

def internal (message : String) : RpcError := ⟨.internal, message⟩
def invalidArgument (message : String) : RpcError := ⟨.invalidArgument, message⟩
def methodNotFound (methodId : UInt16) : RpcError :=
  ⟨.notFound, s!"Method not found: {methodId}"⟩
def serviceNotFound (serviceId : UInt16) : RpcError :=
  ⟨.notFound, s!"Service not found: {serviceId}"⟩
def codecError (message : String) : RpcError := ⟨.internal, message⟩
def unavailable (message : String) : RpcError := ⟨.unavailable, message⟩
def deadlineExceeded (message : String) : RpcError := ⟨.deadlineExceeded, message⟩

end RpcError

/-! ## Text from bytes

`String::from_utf8_lossy` replaces every longest beginning of a character that
does not go on as it should by one replacement character. -/

/-- Where the second byte of a character may lie, and how many more bytes follow
    it, if the first byte may begin one. -/
def utf8Second (b : UInt8) : Option (UInt8 × UInt8 × Nat) :=
  if 0xC2 ≤ b ∧ b ≤ 0xDF then some (0x80, 0xBF, 0)
  else if b = 0xE0 then some (0xA0, 0xBF, 1)
  else if (0xE1 ≤ b ∧ b ≤ 0xEC) ∨ b = 0xEE ∨ b = 0xEF then some (0x80, 0xBF, 1)
  else if b = 0xED then some (0x80, 0x9F, 1)
  else if b = 0xF0 then some (0x90, 0xBF, 2)
  else if 0xF1 ≤ b ∧ b ≤ 0xF3 then some (0x80, 0xBF, 2)
  else if b = 0xF4 then some (0x80, 0x8F, 2)
  else none

/-- The character that the bytes complete, or the replacement character, and the
    number of bytes taken. The second byte lies between `low` and `high`, and
    `more` bytes follow it. -/
def utf8Rest (low high : UInt8) (more value : Nat) : List UInt8 → Char × Nat
  | [] => (Char.ofNat 0xFFFD, 0)
  | b :: bs =>
    if low ≤ b ∧ b ≤ high then
      let value := value * 64 + b.toNat % 64
      match more with
      | 0 => (Char.ofNat value, 1)
      | more + 1 =>
        let p := utf8Rest 0x80 0xBF more value bs
        (p.1, p.2 + 1)
    else (Char.ofNat 0xFFFD, 0)

def lossyChars : Nat → List UInt8 → List Char
  | _, [] => []
  | 0, _ => []
  | turns + 1, b :: bs =>
    if b < 0x80 then Char.ofNat b.toNat :: lossyChars turns bs
    else match utf8Second b with
      | none => Char.ofNat 0xFFFD :: lossyChars turns bs
      | some (low, high, more) =>
        let p := utf8Rest low high more (b.toNat % 2 ^ (5 - more)) bs
        p.1 :: lossyChars turns (bs.drop p.2)

/-- `String::from_utf8_lossy`. -/
def fromUtf8Lossy (bs : List UInt8) : String := String.ofList (lossyChars bs.length bs)

example : fromUtf8Lossy [0x68, 0xC3, 0xA9, 0xF0, 0x9F, 0x98, 0x80] = "hé😀" := by decide
example : fromUtf8Lossy [0xE2, 0x82, 0x41, 0xFF] = "\uFFFDA\uFFFD" := by decide
