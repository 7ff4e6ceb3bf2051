/-
Module: Keypad.Proofs.Formula.Pieces
Layer: proofs
Purpose: Cutting a text into tokens against the pieces of the text: its runs of digits and
  points, and each other character.
Trusted boundary: none
Main exports:
  isNumeric, Text.pieces, runValue, pieceToken?, Fine, Offence, Spells.pieces,
  FailsAt.pieces, Offence.unique, scan_exact
-/
import Keypad.Proofs.Formula.Runs
import Mathlib.Data.List.SplitBy

namespace Keypad

/-!
The pieces of a text are known before anything of it is read, and each piece is a matter
of its own: it is fine and has a token or none, or it offends and has a fault.  Cutting
from the left comes to the same.  It gives the tokens of all the pieces if all are fine,
and the fault of the first one that offends otherwise.
-/

/-- Whether a character can belong to a number. -/
def isNumeric (c : Char) : Bool := c.isDigit || c == '.'

theorem isNumeric_iff {c : Char} : isNumeric c = true ↔ c.isDigit = true ∨ c = '.' := by
  simp [isNumeric]

theorem isNumeric_eq_false_iff {c : Char} :
    isNumeric c = false ↔ c.isDigit = false ∧ c ≠ '.' := by
  simp [isNumeric]

/-- Whether two characters side by side are part of one number. -/
def belongTogether (c d : Char) : Bool := isNumeric c && isNumeric d

/-- The pieces of a text in order: its maximal runs of digits and points, and each other
character for itself. -/
def Text.pieces (text : Text) : List Text := text.splitBy belongTogether

/-- The number that a run of digits and points denotes, by its digits before the first point
and what stands behind this. -/
def runValue (run : Text) : Binary64 :=
  (Decimal.ofDigits (run.takeWhile Char.isDigit)
    ((run.dropWhile Char.isDigit).drop 1)).toBinary64

/-- The token of a piece: a run is a number, and a symbol is a token of its own.  A blank has
none. -/
def pieceToken? (piece : Text) : Option Token :=
  if piece.all isNumeric then some (.number (runValue piece))
  else piece.head?.bind Token.ofSymbol?

/-- A piece is fine if it is a blank, a symbol, or a literal of a finite double. -/
inductive Fine : Text → Prop where
  | blank {c : Char} : isBlank c = true → Fine [c]
  | symbol {c : Char} {token : Token} : Token.ofSymbol? c = some token → Fine [c]
  | number {literal whole fraction : Text} :
      Literal literal whole fraction →
      (Decimal.ofDigits whole fraction).toBinary64.isFinite = true → Fine literal

/-- What is wrong with a piece, when `rest` is the text behind it: it is a character that
belongs to no token, or a run that no literal begins, or one in which another point comes
right behind a literal with a point, or the literal of a number that is out of range. -/
inductive Offence (rest : Text) : Text → Fault → Prop where
  | character {c : Char} :
      isBlank c = false → Token.ofSymbol? c = none → isNumeric c = false →
      Offence rest [c] (.unexpectedCharacter c)
  | malformed {run : Text} :
      run ≠ [] → (∀ c ∈ run, isNumeric c = true) →
      (∀ literal whole fraction, Literal literal whole fraction → ¬literal <+: run) →
      Offence rest run (.malformedNumber (run ++ rest))
  | secondPoint {run literal whole fraction : Text} :
      (∀ c ∈ run, isNumeric c = true) →
      Literal literal whole fraction → '.' ∈ literal → literal ++ ['.'] <+: run →
      Offence rest run (.secondPoint (run ++ rest))
  | outOfRange {run whole fraction : Text} :
      Literal run whole fraction →
      (Decimal.ofDigits whole fraction).toBinary64.isFinite = false →
      Offence rest run .numberOutOfRange

/-! ### The pieces of a text -/

theorem Literal.numeric {text whole fraction : Text} (literal : Literal text whole fraction) :
    ∀ c ∈ text, isNumeric c = true :=
  fun c member => isNumeric_iff.mpr (literal.digit_or_point c member)

namespace Text

/-- Two texts between which no number goes on have the pieces of both. -/
theorem pieces_append {front back : Text}
    (separate : ∀ c ∈ front.getLast?, ∀ d ∈ back.head?, belongTogether c d = false) :
    pieces (front ++ back) = pieces front ++ pieces back :=
  List.splitBy_append separate

/-- A character that belongs to no number is a piece. -/
theorem pieces_cons {c : Char} (other : isNumeric c = false) (text : Text) :
    pieces (c :: text) = [c] :: pieces text := by
  have separate : ∀ d ∈ [c].getLast?, ∀ e ∈ text.head?, belongTogether d e = false := by
    intro d last e _
    have same : c = d := Option.mem_some.mp last
    rw [belongTogether, ← same, other, Bool.false_and]
  exact pieces_append separate

/-- A run of digits and points is a piece where it ends. -/
theorem pieces_run {run text : Text} (nonempty : run ≠ [])
    (numeric : ∀ c ∈ run, isNumeric c = true) (ends : EndsRun text) :
    pieces (run ++ text) = run :: pieces text := by
  have together : run.IsChain fun c d => belongTogether c d = true := by
    apply List.Pairwise.isChain
    apply List.pairwise_of_forall_mem_list
    intro c member d otherMember
    rw [belongTogether, numeric c member, numeric d otherMember, Bool.and_self]
  have whole : pieces run = [run] := List.splitBy_of_isChain nonempty together
  rw [pieces_append, whole, List.singleton_append]
  intro c _ d head
  rw [belongTogether, isNumeric_eq_false_iff.mpr (ends d head), Bool.and_false]

/-- The pieces of a text make it up. -/
theorem flatten_pieces (text : Text) : (pieces text).flatten = text :=
  List.flatten_splitBy _ text

end Text

/-- The digits of a literal are found where the number of a run is looked for. -/
theorem runValue_of_literal {literal whole fraction : Text}
    (written : Literal literal whole fraction) :
    runValue literal = (Decimal.ofDigits whole fraction).toBinary64 := by
  unfold runValue
  cases written with
  | plain digits =>
      rw [List.takeWhile_eq_self_iff.mpr digits, List.dropWhile_eq_nil_iff.mpr digits]
      rfl
  | pointed wholeDigits fractionDigits =>
      have ends : ∀ c ∈ ('.' :: fraction).head?, c.isDigit = false := by
        intro c head
        cases head
        rfl
      obtain ⟨taken, dropped⟩ := Numeral.takeWhile_digits wholeDigits ends
      rw [taken, dropped]
      rfl

/-! ### Fine pieces -/

theorem pieceToken?_character {c : Char} (other : isNumeric c = false) :
    pieceToken? [c] = Token.ofSymbol? c := by
  simp [pieceToken?, other]

theorem pieceToken?_run {run : Text} (numeric : ∀ c ∈ run, isNumeric c = true) :
    pieceToken? run = some (.number (runValue run)) :=
  if_pos (List.all_eq_true.mpr numeric)

/-- No blank is a symbol. -/
theorem ofSymbol?_blank {c : Char} (blank : isBlank c = true) : Token.ofSymbol? c = none := by
  cases symbol : Token.ofSymbol? c with
  | none => rfl
  | some token => cases blank.symm.trans (not_literal_of_symbol symbol).1

/-- The pieces of a text that spells tokens are fine, and the tokens are theirs. -/
theorem Spells.pieces {text : Text} {tokens : List Token} (spells : Spells text tokens) :
    (∀ piece ∈ text.pieces, Fine piece) ∧ text.pieces.filterMap pieceToken? = tokens := by
  induction spells with
  | nil => exact ⟨nofun, rfl⟩
  | @blank c text tokens blank _ inductionHypothesis =>
      obtain ⟨fine, found⟩ := inductionHypothesis
      have other := isNumeric_eq_false_iff.mpr (not_literal_of_blank blank)
      have token : pieceToken? [c] = none :=
        (pieceToken?_character other).trans (ofSymbol?_blank blank)
      rw [Text.pieces_cons other, List.filterMap_cons_none token]
      exact ⟨List.forall_mem_cons.mpr ⟨.blank blank, fine⟩, found⟩
  | @symbol c token text tokens symbol _ inductionHypothesis =>
      obtain ⟨fine, found⟩ := inductionHypothesis
      have other := isNumeric_eq_false_iff.mpr (not_literal_of_symbol symbol).2
      have own : pieceToken? [c] = some token := (pieceToken?_character other).trans symbol
      rw [Text.pieces_cons other, List.filterMap_cons_some own, found]
      exact ⟨List.forall_mem_cons.mpr ⟨.symbol symbol, fine⟩, rfl⟩
  | @number literal whole fraction text tokens written finite ends _ inductionHypothesis =>
      obtain ⟨fine, found⟩ := inductionHypothesis
      have own : pieceToken? literal =
          some (.number (Decimal.ofDigits whole fraction).toBinary64) := by
        rw [pieceToken?_run written.numeric, runValue_of_literal written]
      rw [Text.pieces_run written.ne_nil written.numeric ends, List.filterMap_cons_some own,
        found]
      exact ⟨List.forall_mem_cons.mpr ⟨.number written finite, fine⟩, rfl⟩

/-! ### Pieces that offend -/

/-- A literal holds no point beside one that it begins with. -/
theorem Literal.no_second_point {run whole fraction front : Text}
    (written : Literal run whole fraction) (point : '.' ∈ front) :
    ¬front ++ ['.'] <+: run := by
  rintro ⟨more, rfl⟩
  have bound := written.count_point_le
  have first : 0 < front.count '.' := List.count_pos_iff.mpr point
  rw [List.count_append, List.count_append, List.count_singleton_self] at bound
  omega

/-- A character that belongs to no number offends only if it belongs to no token. -/
theorem Offence.of_character {c : Char} {rest : Text} {fault : Fault}
    (other : isNumeric c = false) (offence : Offence rest [c] fault) :
    isBlank c = false ∧ Token.ofSymbol? c = none ∧ fault = .unexpectedCharacter c := by
  have notRun : ¬∀ d ∈ [c], isNumeric d = true := by
    intro numeric
    cases other.symm.trans (numeric c List.mem_cons_self)
  cases offence with
  | character notBlank noSymbol _ => exact ⟨notBlank, noSymbol, rfl⟩
  | malformed _ numeric _ => exact absurd numeric notRun
  | secondPoint numeric _ _ _ => exact absurd numeric notRun
  | outOfRange written _ => exact absurd written.numeric notRun

/-- No piece is fine and offends. -/
theorem Fine.not_offence {piece rest : Text} {fault : Fault} (fine : Fine piece) :
    ¬Offence rest piece fault := by
  intro offence
  cases fine with
  | blank blank =>
      have other := isNumeric_eq_false_iff.mpr (not_literal_of_blank blank)
      cases blank.symm.trans (offence.of_character other).1
  | symbol symbol =>
      have other := isNumeric_eq_false_iff.mpr (not_literal_of_symbol symbol).2
      cases symbol.symm.trans (offence.of_character other).2.1
  | number written finite =>
      cases offence with
      | character _ _ other =>
          cases other.symm.trans (written.numeric _ List.mem_cons_self)
      | malformed _ _ none => exact none _ _ _ written List.prefix_rfl
      | secondPoint _ _ point second => exact written.no_second_point point second
      | outOfRange other infinite =>
          obtain ⟨rfl, rfl⟩ := written.unique other
          cases finite.symm.trans infinite

/-- A piece offends in one way. -/
theorem Offence.unique {piece rest : Text} {fault other : Fault}
    (offence : Offence rest piece fault) (otherOffence : Offence rest piece other) :
    fault = other := by
  cases offence with
  | character notBlank noSymbol notNumeric =>
      exact (otherOffence.of_character notNumeric).2.2.symm
  | malformed nonempty numeric none =>
      cases otherOffence with
      | character _ _ notNumeric =>
          cases notNumeric.symm.trans (numeric _ List.mem_cons_self)
      | malformed => rfl
      | secondPoint _ written _ second =>
          exact absurd ((List.prefix_append _ _).trans second) (none _ _ _ written)
      | outOfRange written _ => exact absurd List.prefix_rfl (none _ _ _ written)
  | secondPoint numeric written point second =>
      cases otherOffence with
      | character _ _ notNumeric =>
          cases notNumeric.symm.trans (numeric _ List.mem_cons_self)
      | malformed _ _ none =>
          exact absurd ((List.prefix_append _ _).trans second) (none _ _ _ written)
      | secondPoint => rfl
      | outOfRange whole _ => exact absurd second (whole.no_second_point point)
  | outOfRange written infinite =>
      cases otherOffence with
      | character _ _ notNumeric =>
          cases notNumeric.symm.trans (written.numeric _ List.mem_cons_self)
      | malformed _ _ none => exact absurd List.prefix_rfl (none _ _ _ written)
      | secondPoint _ _ point second => exact absurd second (written.no_second_point point)
      | outOfRange => rfl

/-- No literal begins a run in which no digit follows the point at its head. -/
theorem Literal.not_prefix_of_point {literal whole fraction more : Text}
    (written : Literal literal whole fraction) (points : ∀ c ∈ more.head?, c = '.') :
    ¬literal <+: '.' :: more := by
  rintro ⟨behind, cut⟩
  -- digits that are not empty begin with one, and a point is none
  have noDigits {digits rest : Text} (all : Digits digits) (nonempty : digits ≠ [])
      (head : ∀ c ∈ (digits ++ rest).head?, c = '.') : False := by
    cases digits with
    | nil => exact nonempty rfl
    | cons c digits =>
        have digit := all c List.mem_cons_self
        rw [head c rfl] at digit
        cases digit
  have begins : ∀ c ∈ (literal ++ behind).head?, c = '.' := by
    intro c head
    rw [cut] at head
    cases head
    rfl
  cases written with
  | plain digits nonempty => exact noDigits digits nonempty begins
  | @pointed whole fraction wholeDigits fractionDigits nonempty =>
      rcases nonempty with wholeNonempty | fractionNonempty
      · rw [List.append_assoc] at begins
        exact noDigits wholeDigits wholeNonempty begins
      · cases whole with
        | nil =>
            have rest : fraction ++ behind = more := List.tail_eq_of_cons_eq cut
            exact noDigits fractionDigits fractionNonempty (rest ▸ points)
        | cons c whole =>
            rw [List.append_assoc] at begins
            exact noDigits wholeDigits (List.cons_ne_nil c whole) begins

/-- A run that is no number offends. -/
theorem RunFault.offence {run behind : Text} {fault : Fault} (nonempty : run ≠ [])
    (numeric : ∀ c ∈ run, isNumeric c = true) (runFault : RunFault run behind fault) :
    Offence behind run fault := by
  cases runFault with
  | malformed points =>
      exact .malformed nonempty numeric fun literal whole fraction written =>
        written.not_prefix_of_point points
  | @secondPoint literal whole fraction more _ written point =>
      have second : literal ++ ['.'] <+: literal ++ '.' :: more :=
        ⟨more, List.append_assoc literal ['.'] more⟩
      exact .secondPoint numeric written point second
  | outOfRange written infinite => exact .outOfRange written infinite

/-- Where cutting fails there stands a piece that offends. -/
theorem FailsAt.pieces {before rest : Text} {fault : Fault} (fails : FailsAt before rest fault) :
    ∃ piece back, (before ++ rest).pieces = before.pieces ++ piece :: back ∧
      Offence back.flatten piece fault := by
  cases fails with
  | @character c behind notBlank noSymbol notNumeric =>
      have other : isNumeric c = false := Bool.eq_false_iff.mpr (mt isNumeric_iff.mp notNumeric)
      refine ⟨[c], behind.pieces, ?_, .character notBlank noSymbol other⟩
      rw [Text.pieces_append, Text.pieces_cons other]
      intro last _ d head
      cases head
      rw [belongTogether, other, Bool.and_false]
  | @run run behind _ maximal runFault =>
      have numeric : ∀ c ∈ run, isNumeric c = true :=
        fun c member => isNumeric_iff.mpr (maximal.numeric c member)
      refine ⟨run, behind.pieces, ?_, ?_⟩
      · rw [Text.pieces_append, Text.pieces_run maximal.nonempty numeric maximal.ends]
        intro last tail d _
        rw [belongTogether, isNumeric_eq_false_iff.mpr (maximal.begins last tail),
          Bool.false_and]
      · rw [Text.flatten_pieces]
        exact runFault.offence maximal.nonempty numeric

/-! ### Cutting piece by piece -/

/-- The first member with a property has one place in a list. -/
theorem first_unique {α : Type} (holds : α → Prop) {front back otherFront otherBack : List α}
    {first other : α} (none : ∀ x ∈ front, ¬holds x) (otherNone : ∀ x ∈ otherFront, ¬holds x)
    (found : holds first) (otherFound : holds other)
    (same : front ++ first :: back = otherFront ++ other :: otherBack) :
    first = other ∧ back = otherBack := by
  rcases List.append_eq_append_iff.mp same with ⟨more, rfl, rest⟩ | ⟨more, rfl, rest⟩
  · cases more with
    | nil =>
        cases rest
        exact ⟨rfl, rfl⟩
    | cons x more =>
        cases rest
        exact absurd found (otherNone _ (List.mem_append_right _ List.mem_cons_self))
  · cases more with
    | nil =>
        cases rest
        exact ⟨rfl, rfl⟩
    | cons x more =>
        cases rest
        exact absurd otherFound (none _ (List.mem_append_right _ List.mem_cons_self))

namespace Token

/-- The tokens of a text are those of its pieces, all of which are fine. -/
theorem pieces_of_scan {text : Text} {tokens : List Token} (scanned : scan text = .ok tokens) :
    (∀ piece ∈ text.pieces, Fine piece) ∧ text.pieces.filterMap pieceToken? = tokens :=
  (scan_eq_ok_iff.mp scanned).pieces

/-- Where cutting fails there is a first piece that offends. -/
theorem pieces_of_scan_failed {text : Text} {failure : Failure}
    (failed : scan text = .error failure) :
    ∃ front piece back fault, text.pieces = front ++ piece :: back ∧
      (∀ other ∈ front, Fine other) ∧ Offence back.flatten piece fault ∧
      failure = .syntaxError fault := by
  obtain ⟨before, rest, tokens, fault, rfl, spells, same, fails⟩ := failsAt_of_scanFrom failed
  obtain ⟨piece, back, pieces, offence⟩ := fails.pieces
  exact ⟨before.pieces, piece, back, fault, pieces, spells.pieces.1, offence, same⟩

/-- Cutting fails exactly with the fault of the first piece that offends. -/
theorem scan_eq_error_iff {text : Text} {failure : Failure} :
    scan text = .error failure ↔
      ∃ front piece back fault, text.pieces = front ++ piece :: back ∧
        (∀ other ∈ front, Fine other) ∧ Offence back.flatten piece fault ∧
        failure = .syntaxError fault := by
  constructor
  · exact pieces_of_scan_failed
  · rintro ⟨front, piece, back, fault, pieces, fine, offence, rfl⟩
    have notFine : ¬Fine piece := fun fine => fine.not_offence offence
    cases scanned : scan text with
    | ok tokens =>
        have member : piece ∈ text.pieces := by
          rw [pieces]
          exact List.mem_append_right front List.mem_cons_self
        exact absurd ((pieces_of_scan scanned).1 piece member) notFine
    | error failure =>
        obtain ⟨_, other, _, otherFault, otherPieces, otherFine, otherOffence, rfl⟩ :=
          pieces_of_scan_failed scanned
        obtain ⟨rfl, rfl⟩ := first_unique (fun piece => ¬Fine piece)
          (fun piece member => not_not_intro (fine piece member))
          (fun piece member => not_not_intro (otherFine piece member))
          notFine (fun fine => fine.not_offence otherOffence) (pieces.symm.trans otherPieces)
        rw [offence.unique otherOffence]

end Token

/-- The characters of a text are those of its pieces. -/
theorem Text.mem_iff_pieces {c : Char} {text : Text} :
    c ∈ text ↔ ∃ piece ∈ text.pieces, c ∈ piece := by
  rw [← List.mem_flatten, flatten_pieces]

/-- What a text must be to be cut into tokens: each of its characters is a blank, a symbol, a
digit or a point, and each of its runs of digits and points holds a digit and no more than one
point, and denotes a number that is nearest to a finite double. -/
structure WellCut (text : Text) : Prop where
  characters : ∀ c ∈ text,
    isBlank c = true ∨ (∃ token, Token.ofSymbol? c = some token) ∨ isNumeric c = true
  runs : ∀ run ∈ text.pieces, (∀ c ∈ run, isNumeric c = true) →
    (∃ c ∈ run, c.isDigit = true) ∧ run.count '.' ≤ 1 ∧ (runValue run).isFinite = true

/-- A run with a digit and no more than one point is a literal. -/
theorem literal_of_run {run : Text} (numeric : ∀ c ∈ run, isNumeric c = true)
    (digit : ∃ c ∈ run, c.isDigit = true) (points : run.count '.' ≤ 1) :
    ∃ whole fraction, Literal run whole fraction := by
  have cut : run.takeWhile Char.isDigit ++ run.dropWhile Char.isDigit = run :=
    List.takeWhile_append_dropWhile
  have wholeDigits : Digits (run.takeWhile Char.isDigit) := fun c member =>
    List.mem_takeWhile_imp member
  have noDigit := Numeral.dropWhile_ends run
  generalize run.takeWhile Char.isDigit = whole at cut wholeDigits
  generalize run.dropWhile Char.isDigit = rest at cut noDigit
  subst cut
  obtain ⟨digit, digitMember, isDigit⟩ := digit
  cases rest with
  | nil =>
      rw [List.append_nil] at digitMember ⊢
      exact ⟨whole, [], .plain wholeDigits (List.ne_nil_of_mem digitMember)⟩
  | cons c fraction =>
      have inRun : c ∈ whole ++ c :: fraction := List.mem_append_right _ List.mem_cons_self
      obtain rfl : c = '.' := (isNumeric_iff.mp (numeric c inRun)).resolve_left
        (Bool.eq_false_iff.mp (noDigit c rfl))
      have noPoint : '.' ∉ fraction := by
        intro member
        have second : 0 < fraction.count '.' := List.count_pos_iff.mpr member
        rw [List.count_append, List.count_cons_self] at points
        omega
      have fractionDigits : Digits fraction := by
        intro d member
        have inRun : d ∈ whole ++ '.' :: fraction :=
          List.mem_append_right _ (List.mem_cons_of_mem _ member)
        apply (isNumeric_iff.mp (numeric d inRun)).resolve_right
        rintro rfl
        exact noPoint member
      refine ⟨whole, fraction, .pointed wholeDigits fractionDigits ?_⟩
      rcases List.mem_append.mp digitMember with inWhole | behind
      · exact .inl (List.ne_nil_of_mem inWhole)
      · rcases List.mem_cons.mp behind with rfl | inFraction
        · cases isDigit
        · exact .inr (List.ne_nil_of_mem inFraction)

/-- No piece offends in a text that can be cut. -/
theorem WellCut.not_offence {text piece rest : Text} {fault : Fault} (well : WellCut text)
    (member : piece ∈ text.pieces) : ¬Offence rest piece fault := by
  intro offence
  by_cases numeric : ∀ c ∈ piece, isNumeric c = true
  · obtain ⟨digit, points, finite⟩ := well.runs piece member numeric
    obtain ⟨whole, fraction, written⟩ := literal_of_run numeric digit points
    rw [runValue_of_literal written] at finite
    exact (Fine.number written finite).not_offence offence
  · cases offence with
    | @character c notBlank noSymbol notNumeric =>
        have inText : c ∈ text := Text.mem_iff_pieces.mpr ⟨[c], member, List.mem_cons_self⟩
        rcases well.characters c inText with blank | ⟨token, symbol⟩ | isNumeric
        · cases notBlank.symm.trans blank
        · cases noSymbol.symm.trans symbol
        · cases notNumeric.symm.trans isNumeric
    | malformed _ isNumeric _ => exact numeric isNumeric
    | secondPoint isNumeric _ _ _ => exact numeric isNumeric
    | outOfRange written _ => exact numeric written.numeric

/-- A text can be cut if all its pieces are fine. -/
theorem WellCut.of_fine {text : Text} (fine : ∀ piece ∈ text.pieces, Fine piece) :
    WellCut text where
  characters := by
    intro c inText
    obtain ⟨piece, member, inPiece⟩ := Text.mem_iff_pieces.mp inText
    cases fine piece member with
    | blank blank => exact .inl (List.mem_singleton.mp inPiece ▸ blank)
    | symbol symbol => exact .inr (.inl ⟨_, List.mem_singleton.mp inPiece ▸ symbol⟩)
    | number written _ => exact .inr (.inr (written.numeric c inPiece))
  runs := by
    intro run member numeric
    cases fine run member with
    | blank blank =>
        have other := isNumeric_eq_false_iff.mpr (not_literal_of_blank blank)
        cases other.symm.trans (numeric _ List.mem_cons_self)
    | symbol symbol =>
        have other := isNumeric_eq_false_iff.mpr (not_literal_of_symbol symbol).2
        cases other.symm.trans (numeric _ List.mem_cons_self)
    | number written finite =>
        rw [← runValue_of_literal written] at finite
        exact ⟨written.exists_digit, written.count_point_le, finite⟩

/-- Exactly the texts that can be cut are cut into tokens. -/
theorem Token.scan_succeeds_iff {text : Text} :
    (∃ tokens, scan text = .ok tokens) ↔ WellCut text := by
  constructor
  · rintro ⟨tokens, scanned⟩
    exact .of_fine (pieces_of_scan scanned).1
  · intro well
    cases scanned : scan text with
    | ok tokens => exact ⟨tokens, rfl⟩
    | error failure =>
        obtain ⟨front, piece, back, fault, pieces, _, offence, _⟩ :=
          pieces_of_scan_failed scanned
        have member : piece ∈ text.pieces := by
          rw [pieces]
          exact List.mem_append_right front List.mem_cons_self
        exact absurd offence (well.not_offence member)

/-- A text is cut piece by piece.  It is cut into tokens exactly if all its characters are
blanks, symbols, digits and points, and each of its runs of digits and points holds a digit
and no more than one point and denotes a number in the range of the doubles.  Its tokens
are then those of its pieces in order, one for each symbol and one for each run.  Otherwise
cutting fails, exactly with the fault of the first piece that offends.  For a run that is no
literal this is told with the text from the run on, and for a character with the character;
that a number is out of range is told without the number. -/
theorem scan_exact (text : Text) :
    ((∃ tokens, Token.scan text = .ok tokens) ↔ WellCut text) ∧
    (∀ tokens, Token.scan text = .ok tokens → tokens = text.pieces.filterMap pieceToken?) ∧
    (∀ failure, Token.scan text = .error failure ↔
      ∃ front piece back fault, text.pieces = front ++ piece :: back ∧
        (∀ other ∈ front, Fine other) ∧ Offence back.flatten piece fault ∧
        failure = .syntaxError fault) ∧
    (∀ rest, (Fault.malformedNumber rest).message =
        "malformed number at ".toList ++ ('"' :: rest ++ ['"']) ∧
      (Fault.secondPoint rest).message =
        "multiple decimal points in number at ".toList ++ ('"' :: rest ++ ['"'])) ∧
    Fault.numberOutOfRange.message = "number literal out of range".toList ∧
    ∀ c, (Fault.unexpectedCharacter c).message =
      "unexpected character ".toList ++ ['\'', c, '\''] := by
  refine ⟨Token.scan_succeeds_iff, fun tokens scanned => ?_, fun failure =>
    Token.scan_eq_error_iff, fun rest => ⟨rfl, rfl⟩, rfl, fun c => rfl⟩
  exact (Token.pieces_of_scan scanned).2.symm

/-- A number of four hundred digits is not in the message that it is out of range. -/
theorem out_of_range_quotes_nothing :
    let text := List.replicate 400 '9'
    let failure := Failure.syntaxError .numberOutOfRange
    Token.scan text = .error failure ∧ ¬text <:+: failure.message := by
  intro text failure
  have failed : Token.scan (List.replicate 400 '9') = .error (.syntaxError .numberOutOfRange) := by
    decide +kernel
  have absent : '9' ∉ (Failure.syntaxError .numberOutOfRange).message := by decide
  refine ⟨failed, fun quoted => absent (quoted.subset ?_)⟩
  exact List.mem_replicate.mpr ⟨Nat.succ_ne_zero 399, rfl⟩

end Keypad
