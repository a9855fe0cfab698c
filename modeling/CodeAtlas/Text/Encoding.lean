import CodeAtlas.Text.Basic

/-!
# Texts and bytes

The two encodings that the library reads and writes: UTF-8 and base 64.
-/
namespace CodeAtlas

/-!
## Reading UTF-8

`decode` reads bytes as UTF-8 and says where and why it stops when they are not: at the first byte
that cannot begin or continue a character. The three causes are the ones a strict decoder
distinguishes.
-/

namespace Utf8

/-- Why a byte sequence is not UTF-8. -/
inductive Flaw where
  | badStart
  | badContinuation
  | cutShort
  deriving DecidableEq, Repr

/-- The first place where a byte sequence is not UTF-8: its position, the number of bytes that are
given up there, and the first of them. -/
structure Fault where
  position : Nat
  width : Nat
  byte : UInt8
  flaw : Flaw
  deriving DecidableEq, Repr

/-- How a first byte announces a character: the number of bytes to follow and the range of the
second byte. -/
def announced (b : UInt8) : Option (Nat × UInt8 × UInt8) :=
  if b < 0x80 then some (0, 0, 0)
  else if b < 0xC2 then none
  else if b < 0xE0 then some (1, 0x80, 0xBF)
  else if b = 0xE0 then some (2, 0xA0, 0xBF)
  else if b = 0xED then some (2, 0x80, 0x9F)
  else if b < 0xF0 then some (2, 0x80, 0xBF)
  else if b = 0xF0 then some (3, 0x90, 0xBF)
  else if b < 0xF4 then some (3, 0x80, 0xBF)
  else if b = 0xF4 then some (3, 0x80, 0x8F)
  else none

/-- The number of leading bytes of `bs`, at most `k`, that continue a character, the first of them
within `lo` and `hi`. -/
def continued : Nat → UInt8 → UInt8 → List UInt8 → Nat
  | 0, _, _, _ => 0
  | _ + 1, _, _, [] => 0
  | k + 1, lo, hi, b :: bs => if lo ≤ b ∧ b ≤ hi then continued k 0x80 0xBF bs + 1 else 0

/-- The first fault of a byte sequence that starts at position `i`, within `fuel` characters. -/
def faultFrom : Nat → Nat → List UInt8 → Option Fault
  | 0, _, _ => none
  | _ + 1, _, [] => none
  | fuel + 1, i, b :: bs =>
    match announced b with
    | none => some ⟨i, 1, b, .badStart⟩
    | some (k, lo, hi) =>
      let n := continued k lo hi bs
      if n = k then faultFrom fuel (i + k + 1) (bs.drop k)
      else if bs.length = n then some ⟨i, n + 1, b, .cutShort⟩
      else some ⟨i, n + 1, b, .badContinuation⟩

/-- The first place where a byte sequence is not UTF-8. -/
def fault? (bs : List UInt8) : Option Fault := faultFrom bs.length 0 bs

private def hexByte (b : UInt8) : String :=
  String.ofList [Chars.hexDigit (b.toNat / 16), Chars.hexDigit (b.toNat % 16)]

def Flaw.message : Flaw → String
  | .badStart => "invalid start byte"
  | .badContinuation => "invalid continuation byte"
  | .cutShort => "unexpected end of data"

def Fault.message (f : Fault) : String :=
  if f.width = 1 then
    s!"'utf-8' codec can't decode byte 0x{hexByte f.byte} in position {f.position}: {f.flaw.message}"
  else
    s!"'utf-8' codec can't decode bytes in position {f.position}-{f.position + f.width - 1}: {f.flaw.message}"

def decode (bytes : ByteArray) : Except Fault String :=
  match String.fromUTF8? bytes with
  | some s => .ok s
  | none => .error ((fault? bytes.toList).getD ⟨0, 1, 0, .badStart⟩)

/-- The characters of a byte sequence, within `fuel` of them. A byte that is part of none is shown as a
replacement. -/
def replacedFrom : Nat → List UInt8 → List Char
  | 0, _ => []
  | _ + 1, [] => []
  | fuel + 1, b :: bs =>
    match announced b with
    | none => Char.ofNat 0xFFFD :: replacedFrom fuel bs
    | some (k, lo, hi) =>
      let n := continued k lo hi bs
      if n = k then
        let lead := if k = 0 then b.toNat else b.toNat % (if k = 1 then 32 else if k = 2 then 16 else 8)
        let code := (bs.take k).foldl (fun c d => c * 64 + d.toNat % 64) lead
        Char.ofNat code :: replacedFrom fuel (bs.drop k)
      else Char.ofNat 0xFFFD :: replacedFrom fuel (bs.drop n)

/-- The text of a byte sequence, with a replacement for what is no character. -/
def replaced (bs : List UInt8) : String := String.ofList (replacedFrom bs.length bs)

end Utf8

/-!
## Base 64

Three bytes are written as four characters of six bits each. The reader passes over characters
outside the alphabet, and over padding where none is due; it stops at padding that completes a group.
A group that is never completed is an error.
-/

namespace Base64

/-- The six bits of a character of the alphabet. -/
def sextet? (c : Char) : Option Nat :=
  if 'A' ≤ c ∧ c ≤ 'Z' then some (c.toNat - 65)
  else if 'a' ≤ c ∧ c ≤ 'z' then some (c.toNat - 71)
  else if '0' ≤ c ∧ c ≤ '9' then some (c.toNat + 4)
  else if c = '+' then some 62
  else if c = '/' then some 63
  else none

def groupBytes : List Nat → List UInt8
  | [a, b] => [(a * 4 + b / 16).toUInt8]
  | [a, b, c] => [(a * 4 + b / 16).toUInt8, (b * 16 + c / 4).toUInt8]
  | [a, b, c, d] => [(a * 4 + b / 16).toUInt8, (b * 16 + c / 4).toUInt8, (c * 64 + d).toUInt8]
  | _ => []

def readFrom (group : List Nat) (padding : Nat) : List Char → Option (List UInt8)
  | [] => if group = [] then some [] else none
  | c :: cs =>
    if c = '=' then
      if group.length < 2 then readFrom group padding cs
      else if 4 ≤ group.length + padding + 1 then some (groupBytes group)
      else readFrom group (padding + 1) cs
    else
      match sextet? c with
      | none => readFrom group padding cs
      | some n =>
        if group.length = 3 then (readFrom [] 0 cs).map (groupBytes (group ++ [n]) ++ ·)
        else readFrom (group ++ [n]) 0 cs

def decode? (text : String) : Option ByteArray :=
  if text.toList.all fun c => c.toNat < 128 then
    (readFrom [] 0 text.toList).map fun bytes => ⟨bytes.toArray⟩
  else none

end Base64

end CodeAtlas
