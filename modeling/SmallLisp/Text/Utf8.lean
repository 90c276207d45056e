/-! # Decoding UTF-8

Bytes are decoded strictly: no overlong form, no surrogate and nothing above U+10FFFF. A failure
tells where the offending sequence starts, how many bytes of it were looked at, and why it was
refused. A byte order mark is kept.
-/
namespace SmallLisp.Text

inductive DecodingReason where
  | invalidStart
  | invalidContinuation
  | unexpectedEnd
deriving DecidableEq, Repr

structure DecodingError where
  lead : UInt8
  start : Nat
  length : Nat
  reason : DecodingReason
deriving DecidableEq, Repr

/-- A sequence that waits for continuation bytes. -/
structure PartialSequence where
  lead : UInt8
  start : Nat
  read : Nat
  missing : Nat
  code : Nat
  least : UInt8
  greatest : UInt8

/-- The sequence that a byte above the ASCII range opens, if any. The bounds on the second byte
exclude overlong forms, surrogates and code points above U+10FFFF. -/
def PartialSequence.opened? (lead : UInt8) (start : Nat) : Option PartialSequence :=
  if lead < 0xC2 then none
  else if lead < 0xE0 then some ⟨lead, start, 1, 1, lead.toNat - 0xC0, 0x80, 0xBF⟩
  else if lead < 0xF0 then
    some ⟨lead, start, 1, 2, lead.toNat - 0xE0,
      if lead = 0xE0 then 0xA0 else 0x80, if lead = 0xED then 0x9F else 0xBF⟩
  else if lead < 0xF5 then
    some ⟨lead, start, 1, 3, lead.toNat - 0xF0,
      if lead = 0xF0 then 0x90 else 0x80, if lead = 0xF4 then 0x8F else 0xBF⟩
  else none

def PartialSequence.failure (sequence : PartialSequence) (reason : DecodingReason) :
    DecodingError :=
  ⟨sequence.lead, sequence.start, sequence.read, reason⟩

def decodeFrom (position : Nat) (decoded : List Char) :
    Option PartialSequence → List UInt8 → Except DecodingError (List Char)
  | none, [] => .ok decoded.reverse
  | some sequence, [] => .error (sequence.failure .unexpectedEnd)
  | none, byte :: rest =>
    if byte < 0x80 then decodeFrom (position + 1) (Char.ofNat byte.toNat :: decoded) none rest
    else
      match PartialSequence.opened? byte position with
      | none => .error ⟨byte, position, 1, .invalidStart⟩
      | some sequence => decodeFrom (position + 1) decoded (some sequence) rest
  | some sequence, byte :: rest =>
    if byte < sequence.least || sequence.greatest < byte then
      .error (sequence.failure .invalidContinuation)
    else
      let code := sequence.code * 64 + (byte.toNat - 0x80)
      if sequence.missing = 1 then
        decodeFrom (position + 1) (Char.ofNat code :: decoded) none rest
      else
        decodeFrom (position + 1) decoded
          (some ⟨sequence.lead, sequence.start, sequence.read + 1, sequence.missing - 1, code,
            0x80, 0xBF⟩) rest

def decodeUtf8 (bytes : List UInt8) : Except DecodingError (List Char) :=
  decodeFrom 0 [] none bytes

end SmallLisp.Text
