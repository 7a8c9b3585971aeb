import Abacus.Text.Str

/-!
# UTF-8

The contents of files are bytes; texts are written to them and read from them in UTF-8. The first
byte of a character says how many bytes follow it and in which range the second one lies, so that
each character has one encoding and surrogates have none. Reading stops at the first fault.

## Main definitions

* `Utf8.encode` — the bytes of a text
* `Utf8.lead?` — what the first byte of a character announces
* `Utf8.decode` — the text of some bytes
* `Utf8.Fault` — why bytes are no text
-/

namespace Abacus.Utf8

/-- The bytes of a text. -/
def encode (cs : List Char) : List UInt8 :=
  cs.flatMap String.utf8EncodeChar

/-- Why bytes are no text. -/
inductive Reason
  | start
  | continuation
  | ending
  deriving DecidableEq

/-- The wording of a reason. -/
def Reason.message : Reason → String
  | .start => "invalid start byte"
  | .continuation => "invalid continuation byte"
  | .ending => "unexpected end of data"

/-- A fault: its reason, the offset of the character in question, its first byte, and how many of
its bytes have been read. -/
structure Fault where
  reason : Reason
  offset : Nat
  first : UInt8
  count : Nat
  deriving DecidableEq

/-- The wording of a fault. One byte is shown, several are numbered. -/
def Fault.message (f : Fault) : String :=
  let place :=
    if f.count = 1 then
      "byte 0x" ++ String.ofList (Text.hex 2 f.first.toNat) ++ " in position " ++ toString f.offset
    else
      "bytes in position " ++ toString f.offset ++ "-" ++ toString (f.offset + f.count - 1)
  "'utf-8' codec can't decode " ++ place ++ ": " ++ f.reason.message

/-- What the first bytes of a character announce: how many bytes are to come, the range of the next
one, and the bits of the character so far. -/
structure Lead where
  owed : Nat
  low : UInt8
  high : UInt8
  bits : Nat
  deriving DecidableEq

/-- What the first byte of a character announces. -/
def lead? (b : UInt8) : Option Lead :=
  if b < 0x80 then some ⟨0, 0x80, 0xbf, b.toNat⟩
  else if b < 0xc2 then none
  else if b < 0xe0 then some ⟨1, 0x80, 0xbf, b.toNat - 0xc0⟩
  else if b = 0xe0 then some ⟨2, 0xa0, 0xbf, 0⟩
  else if b = 0xed then some ⟨2, 0x80, 0x9f, 13⟩
  else if b < 0xf0 then some ⟨2, 0x80, 0xbf, b.toNat - 0xe0⟩
  else if b = 0xf0 then some ⟨3, 0x90, 0xbf, 0⟩
  else if b < 0xf4 then some ⟨3, 0x80, 0xbf, b.toNat - 0xf0⟩
  else if b = 0xf4 then some ⟨3, 0x80, 0x8f, 4⟩
  else none

/-- What is announced after one more byte. -/
def Lead.next (l : Lead) (b : UInt8) : Lead :=
  ⟨l.owed - 1, 0x80, 0xbf, l.bits * 64 + (b.toNat - 0x80)⟩

/-- A character of which some bytes have been read. -/
structure Pending where
  first : UInt8
  count : Nat
  lead : Lead

/-- The fault of a character of which some bytes have been read, at the offset `pos` after them. -/
def Pending.fault (p : Pending) (reason : Reason) (pos : Nat) : Fault :=
  ⟨reason, pos - p.count, p.first, p.count⟩

/-- Decodes the bytes from the offset `pos` on. -/
def decodeFrom : Nat → Option Pending → List UInt8 → Except Fault (List Char)
  | _, none, [] => .ok []
  | pos, some p, [] => .error (p.fault .ending pos)
  | pos, none, b :: bs =>
    match lead? b with
    | none => .error ⟨.start, pos, b, 1⟩
    | some l =>
      if l.owed = 0 then (decodeFrom (pos + 1) none bs).map (Char.ofNat l.bits :: ·)
      else decodeFrom (pos + 1) (some ⟨b, 1, l⟩) bs
  | pos, some p, b :: bs =>
    if p.lead.low ≤ b ∧ b ≤ p.lead.high then
      let l := p.lead.next b
      if l.owed = 0 then (decodeFrom (pos + 1) none bs).map (Char.ofNat l.bits :: ·)
      else decodeFrom (pos + 1) (some ⟨p.first, p.count + 1, l⟩) bs
    else .error (p.fault .continuation pos)

/-- The text of some bytes. -/
def decode (bs : List UInt8) : Except Fault (List Char) :=
  decodeFrom 0 none bs

end Abacus.Utf8
