/-
Module: Keypad.Proofs.Formula.Spacing
Layer: proofs
Purpose: Tokens written one behind another, and what they are cut into again.
Trusted boundary: none
Main exports: writeTokens, Spaced, Spaced.spells, scan_writeTokens
-/
import Keypad.Proofs.Formula.Adjacent

namespace Keypad

/-!
A symbol is one character and ends with it, whatever follows.  The literal of a number goes on
as long as digits and points follow, and what follows is a blank, a symbol or the end: only
between two numbers does it need a blank to be so.
-/

/-- Tokens written in order, each with a text of its own behind it. -/
def writeTokens (written : List (Token × Text)) : Text :=
  written.flatMap fun entry => entry.1.text ++ entry.2

theorem writeTokens_cons (entry : Token × Text) (written : List (Token × Text)) :
    writeTokens (entry :: written) = entry.1.text ++ (entry.2 ++ writeTokens written) := by
  rw [writeTokens, List.flatMap_cons, List.append_assoc]
  rfl

/-- Only blanks stand behind the tokens, and between two numbers there is at least one. -/
structure Spaced (written : List (Token × Text)) : Prop where
  blank : ∀ entry ∈ written, ∀ c ∈ entry.2, isBlank c = true
  apart : written.IsChain fun entry next =>
    entry.1.isNumber = true → next.1.isNumber = true → entry.2 ≠ []

/-! ### The text of one token -/

/-- A token that is no number is written as its symbol. -/
theorem Token.text_of_symbol {token : Token} (symbol : token.isNumber = false) :
    ∃ c, token.text = [c] ∧ Token.ofSymbol? c = some token := by
  cases token with
  | number value => cases symbol
  | plus => exact ⟨'+', rfl, rfl⟩
  | minus => exact ⟨'-', rfl, rfl⟩
  | star => exact ⟨'*', rfl, rfl⟩
  | slash => exact ⟨'/', rfl, rfl⟩
  | opening => exact ⟨'(', rfl, rfl⟩
  | closing => exact ⟨')', rfl, rfl⟩

/-- A number without a sign is written as a literal that denotes it. -/
theorem Token.text_literal (rank : Fin infinityRank) :
    ∃ whole fraction, Literal (Token.number (.finite false rank)).text whole fraction ∧
      (Decimal.ofDigits whole fraction).toBinary64 = .finite false rank := by
  rw [Token.text, Binary64.numeral_finite_false]
  exact Binary64.magnitudeText_literal rank

/-! ### Tokens one behind another -/

/-- Blanks end a run of digits and points; where there are none, it ends if it does so before
what follows. -/
theorem EndsRun.blanks {blanks behind : Text} (blank : ∀ c ∈ blanks, isBlank c = true)
    (ends : blanks = [] → EndsRun behind) : EndsRun (blanks ++ behind) := by
  cases blanks with
  | nil => exact ends rfl
  | cons c blanks =>
      intro head same
      cases same
      exact not_literal_of_blank (blank c List.mem_cons_self)

namespace Spaced

variable {entry : Token × Text} {written : List (Token × Text)}

theorem tail (spaced : Spaced (entry :: written)) : Spaced written :=
  ⟨fun other member => spaced.blank other (List.mem_cons_of_mem entry member),
    spaced.apart.tail⟩

/-- A number ends before what is written behind it. -/
theorem endsRun (spaced : Spaced (entry :: written)) (number : entry.1.isNumber = true) :
    EndsRun (entry.2 ++ writeTokens written) := by
  refine .blanks (spaced.blank entry List.mem_cons_self) fun none => ?_
  cases written with
  | nil => exact nofun
  | cons next written =>
      have apart := (List.isChain_cons_cons.mp spaced.apart).1
      have symbol : next.1.isNumber = false := by
        by_contra nextNumber
        exact apart number (Bool.eq_true_of_not_eq_false nextNumber) none
      obtain ⟨c, text, ofSymbol⟩ := Token.text_of_symbol symbol
      rw [writeTokens_cons, text]
      exact endsRun_of_symbol _ ofSymbol

/-- Tokens that are spaced are spelled, if no number among them has a sign. -/
theorem spells (spaced : Spaced written)
    (unsigned : ∀ value, Token.number value ∈ written.map Prod.fst →
      ∃ rank, value = .finite false rank) :
    Spells (writeTokens written) (written.map Prod.fst) := by
  induction written with
  | nil => exact .nil
  | cons entry written inductionHypothesis =>
      have rest : Spells (entry.2 ++ writeTokens written) (written.map Prod.fst) := by
        apply Spells.blanks (spaced.blank entry List.mem_cons_self)
        exact inductionHypothesis spaced.tail fun value member =>
          unsigned value (List.mem_cons_of_mem _ member)
      rw [writeTokens_cons, List.map_cons]
      cases number : entry.1.isNumber with
      | false =>
          obtain ⟨c, text, symbol⟩ := Token.text_of_symbol number
          rw [text]
          exact .symbol symbol rest
      | true =>
          have ends := spaced.endsRun number
          obtain ⟨token, blanks⟩ := entry
          cases token with
          | number value =>
              obtain ⟨rank, rfl⟩ := unsigned value List.mem_cons_self
              obtain ⟨whole, fraction, literal, denotes⟩ := Token.text_literal rank
              have spelled := Spells.number literal (denotes ▸ rfl) ends rest
              rwa [denotes] at spelled
          | _ => cases number

end Spaced

/-- The texts of tokens read back.  Tokens whose numbers are finite and have no sign can be
written one behind another with blanks before, between and behind them or without any, but for
at least one between two numbers, and cutting gives the same tokens again, their numbers
exactly. -/
theorem scan_writeTokens {before : Text} {written : List (Token × Text)}
    (blank : ∀ c ∈ before, isBlank c = true) (spaced : Spaced written)
    (unsigned : ∀ value, Token.number value ∈ written.map Prod.fst →
      ∃ rank, value = .finite false rank) :
    Token.scan (before ++ writeTokens written) = .ok (written.map Prod.fst) :=
  Token.scan_eq_ok_iff.mpr (.blanks blank (spaced.spells unsigned))

/-- A fraction and a long whole number with one blank between them, a minus and a parenthesis
with none before them, and a zero behind a wide blank. -/
theorem scan_writeTokens_close :
    let tenth : Token := .number (.finite false ⟨0x3FB999999999999A, by decide⟩)
    let large : Token := .number (.finite false ⟨0x444B1AE4D6E2EF50, by decide⟩)
    let zero : Token := .number (.zero false)
    let written : List (Token × Text) := [(tenth, " ".toList), (large, []), (.minus, []),
      (.opening, "\u2003".toList), (zero, []), (.closing, "\t".toList)]
    Spaced written ∧
      " ".toList ++ writeTokens written = " 0.1 1000000000000000000000-(\u20030)\t".toList ∧
      Token.scan (" ".toList ++ writeTokens written) =
        .ok [tenth, large, .minus, .opening, zero, .closing] := by
  intro tenth large zero written
  have blank : ∀ c ∈ " ".toList, isBlank c = true := List.all_eq_true.mp (by decide)
  have blanks : (written.all fun entry => entry.2.all isBlank) = true := by decide
  have spaced : Spaced written := by
    refine ⟨fun entry member => ?_, by decide⟩
    exact List.all_eq_true.mp (List.all_eq_true.mp blanks entry member)
  have unsigned : ∀ value, Token.number value ∈ written.map Prod.fst →
      ∃ rank, value = .finite false rank := by
    intro value member
    simp only [written, List.map_cons, List.map_nil, List.mem_cons, List.not_mem_nil, or_false,
      reduceCtorEq, false_or] at member
    rcases member with same | same | same <;> exact ⟨_, Token.number.inj same⟩
  exact ⟨spaced, by decide +kernel, scan_writeTokens blank spaced unsigned⟩

/-- Without a blank two numbers become one. -/
example : Token.scan (writeTokens [(.number (.ofNat 1), []), (.number (.ofNat 2), [])]) =
    .ok [.number (.ofNat 12)] := by decide +kernel

end Keypad
