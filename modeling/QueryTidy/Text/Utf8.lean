import QueryTidy.Text.Quoted

/-! Texts as UTF-8 bytes. Reading is strict: what is not well formed is reported with the bytes
that spoil it. -/
namespace QueryTidy.Text

abbrev Bytes := List UInt8

def encode (t : Text) : Bytes := t.flatMap String.utf8EncodeChar

inductive Utf8Cause where
  | invalidStart
  | invalidContinuation
  | unexpectedEnd
deriving DecidableEq, Repr

def Utf8Cause.message : Utf8Cause → String
  | .invalidStart => "invalid start byte"
  | .invalidContinuation => "invalid continuation byte"
  | .unexpectedEnd => "unexpected end of data"

structure Utf8Fault where
  cause : Utf8Cause
  lead : UInt8
  start : Nat
  stop : Nat
deriving DecidableEq, Repr

def Utf8Fault.message (f : Utf8Fault) : String :=
  let bytes :=
    if f.stop = f.start + 1 then
      s!"byte 0x{String.ofList (hexDigits 2 f.lead.toNat)} in position {f.start}"
    else s!"bytes in position {f.start}-{f.stop - 1}"
  "'utf-8' codec can't decode " ++ bytes ++ ": " ++ f.cause.message

/-- A character that is being read: its first byte and where it stands, the bits so far, how many
bytes are to come, and the bounds of the next one. -/
structure Partial where
  lead : UInt8
  start : Nat
  bits : Nat
  left : Nat
  low : Nat
  high : Nat
deriving DecidableEq, Repr

/-- What a first byte announces. The bounds of the second byte rule out overlong forms,
surrogates and numbers past the last code point. -/
def Partial.ofLead? (b : UInt8) (start : Nat) : Option Partial :=
  let n := b.toNat
  if 0xc2 ≤ n ∧ n < 0xe0 then some ⟨b, start, n - 0xc0, 1, 0x80, 0xbf⟩
  else if 0xe0 ≤ n ∧ n < 0xf0 then
    some ⟨b, start, n - 0xe0, 2, if n = 0xe0 then 0xa0 else 0x80, if n = 0xed then 0x9f else 0xbf⟩
  else if 0xf0 ≤ n ∧ n < 0xf5 then
    some ⟨b, start, n - 0xf0, 3, if n = 0xf0 then 0x90 else 0x80, if n = 0xf4 then 0x8f else 0xbf⟩
  else none

def decodeFrom (index : Nat) (inside : Option Partial) : Bytes → Except Utf8Fault Text
  | [] =>
    match inside with
    | none => .ok []
    | some p => .error ⟨.unexpectedEnd, p.lead, p.start, index⟩
  | b :: bytes =>
    match inside with
    | none =>
      if b.toNat < 0x80 then (decodeFrom (index + 1) none bytes).map (Char.ofNat b.toNat :: ·)
      else match Partial.ofLead? b index with
        | none => .error ⟨.invalidStart, b, index, index + 1⟩
        | some p => decodeFrom (index + 1) (some p) bytes
    | some p =>
      if p.low ≤ b.toNat ∧ b.toNat ≤ p.high then
        let bits := p.bits * 64 + (b.toNat - 0x80)
        if p.left ≤ 1 then (decodeFrom (index + 1) none bytes).map (Char.ofNat bits :: ·)
        else decodeFrom (index + 1) (some ⟨p.lead, p.start, bits, p.left - 1, 0x80, 0xbf⟩) bytes
      else .error ⟨.invalidContinuation, p.lead, p.start, index⟩

def decode (bytes : Bytes) : Except Utf8Fault Text := decodeFrom 0 none bytes

def unifyBreaks : Text → Text
  | [] => []
  | '\r' :: '\n' :: t => '\n' :: unifyBreaks t
  | '\r' :: t => '\n' :: unifyBreaks t
  | c :: t => c :: unifyBreaks t

end QueryTidy.Text
