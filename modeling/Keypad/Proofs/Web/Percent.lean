/-
Module: Keypad.Proofs.Web.Percent
Layer: proofs
Purpose: What percent-encoded text decodes to.
Trusted boundary: none
Main exports:
  percentDecode_cons, percentDecode_length, Url.percentDecode_percentEncode,
  Url.percentEncode_eq_self, Url.mem_percentEncode, Url.not_mem_percentEncode
-/
import Keypad.Proofs.Text.Utf8
import Keypad.Web.Url
import Mathlib.Data.List.Basic

namespace Keypad

/-! ### Decoding -/

/-- Any octet but a percent sign stands for itself. -/
theorem percentDecode_cons {octet : UInt8} (plain : octet ≠ 0x25) (rest : List UInt8) :
    percentDecode (octet :: rest) = octet :: percentDecode rest := by
  rw [percentDecode]
  rintro - - - rfl
  exact absurd rfl plain

/-- The octet that is the hexadecimal digit of a value. -/
def digitOctet (value : Nat) : UInt8 := UInt8.ofNat (Url.hexDigit value).toNat

theorem hexValue?_digitOctet {value : Nat} (small : value < 16) :
    Json.hexValue? (Char.ofNat (digitOctet value).toNat) = some value := by
  revert value
  decide

theorem encode_percentEncodeOctet (octet : UInt8) :
    Utf8.encode (Url.percentEncodeOctet octet) =
      [0x25, digitOctet (octet.toNat / 16), digitOctet (octet.toNat % 16)] := by
  have ascii : ∀ value < 16, (Url.hexDigit value).toNat < 0x80 := by decide
  have bound : octet.toNat < 256 := octet.toNat_lt
  simp only [Url.percentEncodeOctet, Utf8.encode_cons, Utf8.encode_nil,
    Utf8.encodeChar_ascii (ascii (octet.toNat / 16) (by omega)),
    Utf8.encodeChar_ascii (ascii (octet.toNat % 16) (by omega))]
  rfl

/-- A percent-encoded octet is decoded to this octet. -/
theorem percentDecode_encoded (octet : UInt8) (rest : List UInt8) :
    percentDecode (Utf8.encode (Url.percentEncodeOctet octet) ++ rest) =
      octet :: percentDecode rest := by
  have bound : octet.toNat < 256 := octet.toNat_lt
  have value : octet.toNat / 16 * 16 + octet.toNat % 16 = octet.toNat := by omega
  rw [encode_percentEncodeOctet]
  show percentDecode (0x25 :: _ :: _ :: rest) = _
  rw [percentDecode, hexValue?_digitOctet (by omega), hexValue?_digitOctet (by omega)]
  simp [value]

/-- Whether octets begin with two hexadecimal digits. -/
def beginsHex : List UInt8 → Bool
  | high :: low :: _ =>
      (Json.hexValue? (Char.ofNat high.toNat)).isSome &&
        (Json.hexValue? (Char.ofNat low.toNat)).isSome
  | _ => false

/-- A percent sign without two digits behind it stands for itself. -/
theorem percentDecode_percent {octets : List UInt8} (alone : beginsHex octets = false) :
    percentDecode (0x25 :: octets) = 0x25 :: percentDecode octets := by
  match octets, alone with
  | [], _ => rfl
  | [_], _ => rfl
  | high :: low :: rest, alone =>
      rw [percentDecode]
      split
      · simp_all [beginsHex]
      · rfl

theorem percentDecode_length (octets : List UInt8) :
    (percentDecode octets).length ≤ octets.length := by
  fun_induction percentDecode octets <;> grind

/-! ### Encoding -/

namespace Url

variable {text : Text}

/-- What an octet is written with in a path. -/
def pathOctets (octet : UInt8) : List UInt8 :=
  if needsEncodingInPath (Char.ofNat octet.toNat) then Utf8.encode (percentEncodeOctet octet)
  else [octet]

theorem ofNat_octet {c : Char} (ascii : c.toNat < 0x80) :
    Char.ofNat (UInt8.ofNat c.toNat).toNat = c := by
  rw [UInt8.toNat_ofNat', Nat.mod_eq_of_lt (by omega), Char.ofNat_toNat]

/-- Octets beyond the ASCII range are always encoded. -/
theorem pathOctets_large {octet : UInt8} (large : 0x80 ≤ octet.toNat) :
    pathOctets octet = Utf8.encode (percentEncodeOctet octet) := by
  have checked : ∀ value < 256, 0x80 ≤ value →
      needsEncodingInPath (Char.ofNat value) = true := by decide +kernel
  have needed := checked octet.toNat octet.toNat_lt large
  rw [pathOctets, if_pos needed]

/-- Encoding characters is encoding their octets. -/
theorem encode_percentEncode (text : Text) :
    Utf8.encode (percentEncode needsEncodingInPath text) =
      (Utf8.encode text).flatMap pathOctets := by
  induction text with
  | nil => rfl
  | cons c text inductionHypothesis =>
      have first : Utf8.encode (percentEncode needsEncodingInPath [c]) =
          (String.utf8EncodeChar c).flatMap pathOctets := by
        by_cases ascii : c.toNat < 0x80
        case pos =>
          rw [Utf8.encodeChar_ascii ascii]
          simp only [percentEncode, List.flatMap_cons, List.flatMap_nil, List.append_nil,
            pathOctets, ofNat_octet ascii, Utf8.encodeChar_ascii ascii]
          split
          · rfl
          · simp [Utf8.encodeChar_ascii ascii]
        case neg =>
          have needed : needsEncodingInPath c = true := by
            simp only [needsEncodingInPath, isUnprintable, Bool.or_eq_true, decide_eq_true_eq]
            omega
          simp only [percentEncode, List.flatMap_cons, List.flatMap_nil, List.append_nil, needed,
            if_true, Utf8.encode, List.flatMap_assoc]
          refine List.flatMap_congr fun octet member => ?_
          exact (pathOctets_large (Utf8.large_of_mem_encodeChar (by omega) member)).symm
      have split : percentEncode needsEncodingInPath (c :: text) =
          percentEncode needsEncodingInPath [c] ++ percentEncode needsEncodingInPath text := by
        simp [percentEncode]
      rw [split, Utf8.encode_append, first, inductionHypothesis, Utf8.encode_cons,
        List.flatMap_append]

/-- Hexadecimal digits are never encoded. -/
theorem needsEncodingInPath_of_hexValue? {octet : UInt8}
    (digit : (Json.hexValue? (Char.ofNat octet.toNat)).isSome) :
    needsEncodingInPath (Char.ofNat octet.toNat) = false := by
  have checked : ∀ value < 256, (Json.hexValue? (Char.ofNat value)).isSome →
      needsEncodingInPath (Char.ofNat value) = false := by decide +kernel
  exact checked octet.toNat octet.toNat_lt digit

theorem pathOctets_of_hexValue? {octet : UInt8}
    (digit : (Json.hexValue? (Char.ofNat octet.toNat)).isSome) : pathOctets octet = [octet] := by
  rw [pathOctets, needsEncodingInPath_of_hexValue? digit]
  rfl

theorem pathOctets_percent : pathOctets 0x25 = [0x25] := by decide

/-- Encoding makes no digits, and it keeps those that there are. -/
theorem beginsHex_flatMap (octets : List UInt8) :
    beginsHex (octets.flatMap pathOctets) = beginsHex octets := by
  have percent : Json.hexValue? (Char.ofNat 0x25) = none := by decide
  have encoded {octet : UInt8} (needed : needsEncodingInPath (Char.ofNat octet.toNat) = true) :
      (Json.hexValue? (Char.ofNat octet.toNat)).isSome = false := by
    cases digit : (Json.hexValue? (Char.ofNat octet.toNat)).isSome with
    | false => rfl
    | true => rw [needsEncodingInPath_of_hexValue? digit] at needed; cases needed
  match octets with
  | [] => rfl
  | [only] =>
      simp only [List.flatMap_cons, List.flatMap_nil, List.append_nil, pathOctets]
      split
      · simp [encode_percentEncodeOctet, beginsHex, percent]
      · rfl
  | high :: low :: rest =>
      simp only [List.flatMap_cons, pathOctets]
      split
      · rename_i needed
        simp [encode_percentEncodeOctet, beginsHex, percent, encoded needed]
      · split
        · rename_i needed
          simp [encode_percentEncodeOctet, beginsHex, percent, encoded needed]
        · rfl

/-- Encoding changes nothing about what a text is decoded to. -/
theorem percentDecode_percentEncode (text : Text) :
    percentDecode (Utf8.encode (percentEncode needsEncodingInPath text)) =
      percentDecode (Utf8.encode text) := by
  rw [encode_percentEncode]
  generalize Utf8.encode text = octets
  fun_induction percentDecode octets with
  | case1 high low rest h l lowValue highValue inductionHypothesis =>
      have highDigit : (Json.hexValue? (Char.ofNat high.toNat)).isSome := by simp [highValue]
      have lowDigit : (Json.hexValue? (Char.ofNat low.toNat)).isSome := by simp [lowValue]
      simp only [List.flatMap_cons, pathOctets_percent, pathOctets_of_hexValue? highDigit,
        pathOctets_of_hexValue? lowDigit, List.cons_append, List.nil_append]
      rw [percentDecode, highValue, lowValue, inductionHypothesis]
  | case2 high low rest notDigits inductionHypothesis =>
      have alone : beginsHex (high :: low :: rest) = false := by
        cases highValue : Json.hexValue? (Char.ofNat high.toNat) with
        | none => simp [beginsHex, highValue]
        | some h =>
            cases lowValue : Json.hexValue? (Char.ofNat low.toNat) with
            | none => simp [beginsHex, lowValue]
            | some l => exact (notDigits h l highValue lowValue).elim
      rw [List.flatMap_cons, pathOctets_percent, List.singleton_append,
        percentDecode_percent (by rw [beginsHex_flatMap, alone]), inductionHypothesis]
  | case3 octet rest other inductionHypothesis =>
      rw [List.flatMap_cons]
      by_cases percent : octet = 0x25
      case pos =>
        subst percent
        have alone : beginsHex rest = false := by
          match rest, other with
          | [], _ => rfl
          | [_], _ => rfl
          | high :: low :: rest, other => exact absurd rfl (other high low rest rfl)
        rw [pathOctets_percent, List.singleton_append,
          percentDecode_percent (by rw [beginsHex_flatMap, alone]), inductionHypothesis]
      case neg =>
        rw [pathOctets]
        split
        · rw [percentDecode_encoded, inductionHypothesis]
        · rw [List.singleton_append, percentDecode_cons percent, inductionHypothesis]
  | case4 => rfl

/-- Characters that need no encoding stay as they are. -/
theorem percentEncode_eq_self {needsIt : Char → Bool} (plain : ∀ c ∈ text, needsIt c = false) :
    percentEncode needsIt text = text := by
  induction text with
  | nil => rfl
  | cons c text inductionHypothesis =>
      obtain ⟨first, others⟩ := List.forall_mem_cons.mp plain
      rw [percentEncode, List.flatMap_cons, first]
      exact congrArg (c :: ·) (inductionHypothesis others)

/-- A character of an encoded text is a percent sign, a digit, or a character of the text
that needs no encoding. -/
theorem mem_percentEncode {needsIt : Char → Bool} {c : Char}
    (member : c ∈ percentEncode needsIt text) :
    c = '%' ∨ (Json.hexValue? c).isSome ∨ (c ∈ text ∧ needsIt c = false) := by
  have digit : ∀ value < 16, (Json.hexValue? (hexDigit value)).isSome := by decide
  obtain ⟨origin, found, member⟩ := List.mem_flatMap.mp member
  split at member
  case isTrue needed =>
    obtain ⟨octet, _, member⟩ := List.mem_flatMap.mp member
    have bound : octet.toNat < 256 := octet.toNat_lt
    simp only [percentEncodeOctet, List.mem_cons, List.not_mem_nil, or_false] at member
    rcases member with rfl | rfl | rfl
    · exact .inl rfl
    · exact .inr (.inl (digit _ (by omega)))
    · exact .inr (.inl (digit _ (by omega)))
  case isFalse plain =>
    obtain rfl := List.mem_singleton.mp member
    exact .inr (.inr ⟨found, by simpa using plain⟩)

/-- No other character than a percent sign or a digit comes in by encoding. -/
theorem not_mem_percentEncode {needsIt : Char → Bool} {c : Char}
    (other : c ≠ '%' ∧ Json.hexValue? c = none) (without : c ∈ text → needsIt c = true) :
    c ∉ percentEncode needsIt text := by
  intro member
  rcases mem_percentEncode member with percent | digit | ⟨found, unencoded⟩
  · exact other.1 percent
  · rw [other.2] at digit
    cases digit
  · rw [without found] at unencoded
    cases unencoded

end Url

end Keypad
