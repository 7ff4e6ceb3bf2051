/-
Module: Keypad.Proofs.Formula.Spelling
Layer: proofs
Purpose: Cutting a text into tokens against the texts that spell the tokens.
Trusted boundary: none
Main exports:
  EndsRun, Spells, Token.scanFrom_append, Token.spells_of_scanFrom,
  Token.scan_eq_ok_iff, Token.scanFrom_fault, Spells.append
-/
import Keypad.Formula.Scan
import Keypad.Proofs.Number.Literal
import Keypad.Proofs.Text.Blank

namespace Keypad

/-!
A text spells tokens when it is blanks, symbols and literals one behind another,
and behind a literal comes no character that could belong to it.  This says
nothing of how the text is cut: `Token.scan_eq_ok_iff` says that cutting finds
exactly the tokens that the text spells.
-/

/-- No digit and no point stands at the head of the text, so a run of them ends
before it. -/
def EndsRun (text : Text) : Prop := ∀ c ∈ text.head?, c.isDigit = false ∧ c ≠ '.'

theorem EndsRun.append {text behind : Text} (textEnds : EndsRun text)
    (behindEnds : EndsRun behind) : EndsRun (text ++ behind) := by
  cases text with
  | nil => exact behindEnds
  | cons c text => exact textEnds

/-- The text spells the tokens. -/
inductive Spells : Text → List Token → Prop where
  | nil : Spells [] []
  | blank {c : Char} {text : Text} {tokens : List Token} :
      isBlank c = true → Spells text tokens → Spells (c :: text) tokens
  | symbol {c : Char} {token : Token} {text : Text} {tokens : List Token} :
      Token.ofSymbol? c = some token → Spells text tokens →
      Spells (c :: text) (token :: tokens)
  | number {literal whole fraction text : Text} {tokens : List Token} :
      Literal literal whole fraction →
      (Decimal.ofDigits whole fraction).toBinary64.isFinite = true →
      EndsRun text → Spells text tokens →
      Spells (literal ++ text)
        (.number (Decimal.ofDigits whole fraction).toBinary64 :: tokens)

/-! ### The characters of tokens -/

/-- A symbol is no blank and belongs to no literal. -/
theorem not_literal_of_symbol {c : Char} {token : Token}
    (symbol : Token.ofSymbol? c = some token) :
    isBlank c = false ∧ c.isDigit = false ∧ c ≠ '.' := by
  unfold Token.ofSymbol? at symbol
  split at symbol <;> first | decide | cases symbol

/-- No literal can go on with a symbol. -/
theorem endsRun_of_symbol {c : Char} {token : Token} (text : Text)
    (symbol : Token.ofSymbol? c = some token) : EndsRun (c :: text) := by
  intro head same
  cases same
  exact (not_literal_of_symbol symbol).2

/-- The characters of literals are neither blank nor symbols. -/
theorem literal_only {c : Char} (literal : c.isDigit = true ∨ c = '.') :
    isBlank c = false ∧ Token.ofSymbol? c = none := by
  constructor
  · by_contra blank
    have other := not_literal_of_blank (Bool.not_eq_false _ ▸ blank)
    rcases literal with digit | point
    · cases digit.symm.trans other.1
    · exact other.2 point
  · cases symbol : Token.ofSymbol? c with
    | none => rfl
    | some token =>
        obtain ⟨_, noDigit, noPoint⟩ := not_literal_of_symbol symbol
        rcases literal with digit | point
        · cases digit.symm.trans noDigit
        · exact absurd point noPoint

/-! ### Literals at the head of a text -/

namespace Numeral

/-- Digits are taken from a text up to where its run of digits ends. -/
theorem takeWhile_digits {digits rest : Text} (all : Digits digits)
    (ends : ∀ c ∈ rest.head?, c.isDigit = false) :
    (digits ++ rest).takeWhile Char.isDigit = digits ∧
      (digits ++ rest).dropWhile Char.isDigit = rest := by
  rw [List.takeWhile_append_of_pos all, List.dropWhile_append_of_pos all]
  cases rest with
  | nil => simp
  | cons c rest =>
      have noDigit := ends c rfl
      simp [noDigit]

/-- A literal is the numeral at the head of a text in which it ends. -/
theorem leading?_of_literal {literal whole fraction rest : Text}
    (written : Literal literal whole fraction) (ends : EndsRun rest) :
    leading? (literal ++ rest) = some ⟨whole, fraction, rest⟩ := by
  have noDigit : ∀ c ∈ rest.head?, c.isDigit = false := fun c head => (ends c head).1
  cases written with
  | plain digits nonempty =>
      obtain ⟨taken, dropped⟩ := takeWhile_digits digits noDigit
      have notEmpty : literal.isEmpty = false := by simpa using nonempty
      unfold leading?
      rw [dropped, taken]
      cases rest with
      | nil => simp [notEmpty]
      | cons c rest =>
          have noPoint := (ends c rfl).2
          simp [noPoint, notEmpty]
  | pointed wholeDigits fractionDigits nonempty =>
      have pointEnds : ∀ c ∈ ('.' :: (fraction ++ rest)).head?, c.isDigit = false := by
        intro c head
        cases head
        rfl
      obtain ⟨taken, dropped⟩ := takeWhile_digits wholeDigits pointEnds
      obtain ⟨fractionTaken, fractionDropped⟩ := takeWhile_digits fractionDigits noDigit
      have notEmpty : (whole.isEmpty && fraction.isEmpty) = false := by
        simpa [imp_iff_not_or] using nonempty
      unfold leading?
      rw [List.append_assoc, List.cons_append, dropped, taken]
      simp [fractionTaken, fractionDropped, notEmpty]

theorem dropWhile_ends (text : Text) :
    ∀ c ∈ (text.dropWhile Char.isDigit).head?, c.isDigit = false := by
  intro c head
  have stops := List.head?_dropWhile_not Char.isDigit text
  rw [Option.mem_def.mp head] at stops
  exact stops

/-- The numeral found at the head of a text is a literal, and no digit follows it. -/
theorem literal_of_leading? {text : Text} {numeral : Numeral}
    (found : leading? text = some numeral) :
    ∃ literal, text = literal ++ numeral.rest ∧
      Literal literal numeral.whole numeral.fraction ∧
      ∀ c ∈ numeral.rest.head?, c.isDigit = false := by
  have digits (run : Text) : Digits (run.takeWhile Char.isDigit) := fun c member =>
    List.mem_takeWhile_imp member
  have cut : text.takeWhile Char.isDigit ++ text.dropWhile Char.isDigit = text :=
    List.takeWhile_append_dropWhile
  unfold leading? at found
  split at found
  · rename_i behind shape
    dsimp only at found
    split at found
    · cases found
    · rename_i someDigit
      cases found
      have behindCut : behind.takeWhile Char.isDigit ++ behind.dropWhile Char.isDigit = behind :=
        List.takeWhile_append_dropWhile
      refine ⟨text.takeWhile Char.isDigit ++ '.' :: behind.takeWhile Char.isDigit, ?_,
        .pointed (digits _) (digits _) ?_, dropWhile_ends _⟩
      · rw [List.append_assoc, List.cons_append, behindCut, ← shape, cut]
      · simpa [imp_iff_not_or] using someDigit
  · dsimp only at found
    split at found
    · cases found
    · rename_i nonempty
      cases found
      exact ⟨text.takeWhile Char.isDigit, cut.symm, .plain (digits _) (by simpa using nonempty),
        dropWhile_ends _⟩

end Numeral

/-! ### Cutting what is spelled -/

namespace Token

theorem scanFrom_blank {c : Char} {found : List Token} {text : Text}
    (blank : isBlank c = true) : scanFrom found (c :: text) = scanFrom found text := by
  rw [scanFrom]
  simp [blank]

theorem scanFrom_symbol {c : Char} {token : Token} {found : List Token} {text : Text}
    (symbol : ofSymbol? c = some token) :
    scanFrom found (c :: text) = scanFrom (token :: found) text := by
  rw [scanFrom]
  simp [not_literal_of_symbol symbol, symbol]

theorem scanFrom_literal {literal whole fraction rest : Text} {found : List Token}
    (written : Literal literal whole fraction)
    (finite : (Decimal.ofDigits whole fraction).toBinary64.isFinite = true)
    (ends : EndsRun rest) :
    scanFrom found (literal ++ rest) =
      scanFrom (.number (Decimal.ofDigits whole fraction).toBinary64 :: found) rest := by
  have leading := Numeral.leading?_of_literal written ends
  have noPoint : rest.head? ≠ some '.' := fun head => (ends '.' head).2 rfl
  cases literal with
  | nil => exact absurd rfl written.ne_nil
  | cons c literal =>
      have begins := written.digit_or_point c (List.mem_cons_self ..)
      obtain ⟨notBlank, noSymbol⟩ := literal_only begins
      have starts : (c.isDigit || c == '.') = true := by simpa using begins
      rw [List.cons_append] at leading ⊢
      rw [scanFrom]
      simp only [notBlank, noSymbol, starts, Bool.false_eq_true, if_false, if_true]
      split
      · rename_i none
        rw [leading] at none
        cases none
      · rename_i numeral some
        rw [leading] at some
        cases some
        have valueFinite : (Numeral.value ⟨whole, fraction, rest⟩).isFinite = true := finite
        rw [if_neg noPoint, if_pos valueFinite]
        rfl

/-- Where a text spells tokens, these are found, and cutting goes on behind it. -/
theorem scanFrom_append {text behind : Text} {tokens : List Token}
    (spells : Spells text tokens) (ends : EndsRun behind) :
    ∀ found, scanFrom found (text ++ behind) =
      scanFrom (tokens.reverse ++ found) behind := by
  induction spells with
  | nil => intro found; rfl
  | blank blank _ inductionHypothesis =>
      intro found
      rw [List.cons_append, scanFrom_blank blank, inductionHypothesis]
  | symbol symbol _ inductionHypothesis =>
      intro found
      rw [List.cons_append, scanFrom_symbol symbol, inductionHypothesis]
      simp
  | @number literal whole fraction text tokens written finite textEnds _
      inductionHypothesis =>
      intro found
      rw [List.append_assoc, scanFrom_literal written finite (textEnds.append ends),
        inductionHypothesis]
      simp

/-- What is cut into tokens spells them. -/
theorem spells_of_scanFrom {found result : List Token} {text : Text}
    (scanned : scanFrom found text = .ok result) :
    ∃ tokens, result = found.reverse ++ tokens ∧ Spells text tokens := by
  fun_induction scanFrom found text with
  | case1 found =>
      cases scanned
      exact ⟨[], by simp, .nil⟩
  | case2 found c rest blank inductionHypothesis =>
      obtain ⟨tokens, resultEq, spells⟩ := inductionHypothesis scanned
      exact ⟨tokens, resultEq, .blank blank spells⟩
  | case3 found c rest _ token symbol inductionHypothesis =>
      obtain ⟨tokens, resultEq, spells⟩ := inductionHypothesis scanned
      exact ⟨token :: tokens, by simpa using resultEq, .symbol symbol spells⟩
  | case4 => cases scanned
  | case5 => cases scanned
  | case6 found c rest _ _ _ numeral leading noPoint finite _ inductionHypothesis =>
      obtain ⟨tokens, resultEq, spells⟩ := inductionHypothesis scanned
      obtain ⟨literal, cut, written, noDigit⟩ := Numeral.literal_of_leading? leading
      have ends : EndsRun numeral.rest := fun d head =>
        ⟨noDigit d head, fun point => noPoint (point ▸ head)⟩
      refine ⟨.number numeral.value :: tokens, by simpa using resultEq, ?_⟩
      rw [cut]
      exact .number written finite ends spells
  | case7 => cases scanned
  | case8 => cases scanned

/-- A text is cut into exactly the tokens that it spells. -/
theorem scan_eq_ok_iff {text : Text} {tokens : List Token} :
    scan text = .ok tokens ↔ Spells text tokens := by
  constructor
  · intro scanned
    obtain ⟨others, rfl, spells⟩ := spells_of_scanFrom scanned
    exact spells
  · intro spells
    have ends : EndsRun [] := fun c head => by cases head
    have cut := scanFrom_append spells ends []
    rw [List.append_nil, List.append_nil] at cut
    rw [scan, cut, scanFrom, List.reverse_reverse]

/-- Nothing fails to be cut but by its form. -/
theorem scanFrom_fault {found : List Token} {text : Text} {failure : Failure}
    (failed : scanFrom found text = .error failure) :
    ∃ fault, failure = .syntaxError fault := by
  fun_induction scanFrom found text with
  | case1 => cases failed
  | case2 _ _ _ _ inductionHypothesis => exact inductionHypothesis failed
  | case3 _ _ _ _ _ _ inductionHypothesis => exact inductionHypothesis failed
  | case6 _ _ _ _ _ _ _ _ _ _ _ inductionHypothesis => exact inductionHypothesis failed
  | _ => cases failed; exact ⟨_, rfl⟩

end Token

namespace Spells

/-- Blanks before a text spell nothing. -/
theorem blanks {blanks text : Text} {tokens : List Token}
    (blank : ∀ c ∈ blanks, isBlank c = true) (spells : Spells text tokens) :
    Spells (blanks ++ text) tokens := by
  induction blanks with
  | nil => exact spells
  | cons c blanks inductionHypothesis =>
      obtain ⟨first, others⟩ := List.forall_mem_cons.mp blank
      exact .blank first (inductionHypothesis others)

/-- Texts that spell tokens spell them together, unless a literal could go on from
one into the other. -/
theorem append {front back : Text} {frontTokens backTokens : List Token}
    (frontSpells : Spells front frontTokens) (ends : EndsRun back)
    (backSpells : Spells back backTokens) :
    Spells (front ++ back) (frontTokens ++ backTokens) := by
  induction frontSpells with
  | nil => exact backSpells
  | blank blank _ inductionHypothesis => exact .blank blank inductionHypothesis
  | symbol symbol _ inductionHypothesis => exact .symbol symbol inductionHypothesis
  | @number literal whole fraction text tokens written finite textEnds _
      inductionHypothesis =>
      rw [List.append_assoc]
      exact .number written finite (textEnds.append ends) inductionHypothesis

/-- The numbers that a text spells have no sign. -/
theorem nonnegative {text : Text} {tokens : List Token} (spells : Spells text tokens) :
    ∀ value, Token.number value ∈ tokens → ∃ rank, value = .finite false rank := by
  induction spells with
  | nil => intro value member; cases member
  | blank _ _ inductionHypothesis => exact inductionHypothesis
  | @symbol c token _ _ symbol _ inductionHypothesis =>
      intro value member
      rcases List.mem_cons.mp member with rfl | later
      · unfold Token.ofSymbol? at symbol
        split at symbol <;> cases symbol
      · exact inductionHypothesis value later
  | number _ finite _ _ inductionHypothesis =>
      intro value member
      rcases List.mem_cons.mp member with same | later
      · cases same
        exact Binary64.toBinary64_nonnegative finite
      · exact inductionHypothesis value later

end Spells

end Keypad
