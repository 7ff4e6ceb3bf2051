/-
Module: Keypad.Text.Utf8
Layer: text
Purpose: Text as octets and back.
Trusted boundary: none
Main exports: Utf8.encode, Utf8.decodeLossy
-/
import Keypad.Text.Blank

namespace Keypad.Utf8

/-- The octets of a text. -/
def encode (text : Text) : List UInt8 := text.flatMap String.utf8EncodeChar

/-- The character that stands for octets that are no character. -/
def replacement : Char := '\uFFFD'

/-- A character that has begun: the bits read so far, how many octets are
owed, and the range of the next one. -/
structure Pending where
  bits : Nat
  owed : Nat
  low : Nat
  high : Nat
deriving DecidableEq, Repr

/-- What an octet announces at the beginning of a character of more than one
octet.  The range of the second octet is narrower where a wider one would
admit characters with a shorter form, surrogates, or numbers beyond the last
character. -/
def pending? (octet : Nat) : Option Pending :=
  if 0xC2 ≤ octet && octet ≤ 0xDF then some ⟨octet - 0xC0, 1, 0x80, 0xBF⟩
  else if octet = 0xE0 then some ⟨0, 2, 0xA0, 0xBF⟩
  else if octet = 0xED then some ⟨0xD, 2, 0x80, 0x9F⟩
  else if 0xE1 ≤ octet && octet ≤ 0xEF then some ⟨octet - 0xE0, 2, 0x80, 0xBF⟩
  else if octet = 0xF0 then some ⟨0, 3, 0x90, 0xBF⟩
  else if 0xF1 ≤ octet && octet ≤ 0xF3 then some ⟨octet - 0xF0, 3, 0x80, 0xBF⟩
  else if octet = 0xF4 then some ⟨4, 3, 0x80, 0x8F⟩
  else none

/-- What an octet gives at the beginning of a character. -/
def begin (octet : Nat) : Text × Option Pending :=
  if octet < 0x80 then ([Char.ofNat octet], none)
  else
    match pending? octet with
    | some pending => ([], some pending)
    | none => ([replacement], none)

/-- What the next octet gives.  An octet out of range ends the pending
character, which is replaced, and begins another. -/
def next (octet : Nat) : Option Pending → Text × Option Pending
  | none => begin octet
  | some pending =>
      if pending.low ≤ octet && octet ≤ pending.high then
        let bits := pending.bits * 64 + octet % 64
        if pending.owed = 1 then ([Char.ofNat bits], none)
        else ([], some ⟨bits, pending.owed - 1, 0x80, 0xBF⟩)
      else
        let (text, pending) := begin octet
        (replacement :: text, pending)

/-- The text of octets behind a pending character. -/
def decodeFrom : Option Pending → List UInt8 → Text
  | none, [] => []
  | some _, [] => [replacement]
  | pending, octet :: rest =>
      let (text, pending) := next octet.toNat pending
      text ++ decodeFrom pending rest

/-- The text of octets; what is no character is replaced. -/
def decodeLossy (octets : List UInt8) : Text := decodeFrom none octets

end Keypad.Utf8
