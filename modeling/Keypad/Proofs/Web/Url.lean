/-
Module: Keypad.Proofs.Web.Url
Layer: proofs
Purpose: How a URL is read when text stands behind a path that is written out.
Trusted boundary: none
Main exports:
  Text.separatedBy_eq_splitOn, Url.path, Url.IsPlainSegment, Url.Base, Url.follow_plain,
  Url.follow_last, Url.tidied, Url.visible, Url.pathSegments_path, Url.parse?_behind
-/
import Keypad.Proofs.Web.Percent

namespace Keypad

/-! ### The parts of a text -/

namespace Text

variable {separator : Char} {text : Text}

theorem separatedBy_ne_nil (separator : Char) (text : Text) :
    separatedBy separator text ≠ [] := by
  cases text with
  | nil => simp [separatedBy]
  | cons c rest =>
      rw [separatedBy]
      split
      · simp
      · split <;> simp

theorem separatedBy_eq_splitOn (separator : Char) (text : Text) :
    separatedBy separator text = text.splitOn separator := by
  induction text with
  | nil => rfl
  | cons c rest inductionHypothesis =>
      obtain ⟨part, parts, shape⟩ :=
        List.exists_cons_of_ne_nil (separatedBy_ne_nil separator rest)
      rw [separatedBy, List.splitOn_cons_eq_if_modifyHead, ← inductionHypothesis, shape]
      simp

theorem separatedBy_of_not_mem (absent : separator ∉ text) :
    separatedBy separator text = [text] := by
  rw [separatedBy_eq_splitOn, List.splitOn_eq_singleton absent]

/-- What stands behind a separator is taken apart on its own. -/
theorem separatedBy_append (front rest : Text) :
    separatedBy separator (front ++ separator :: rest) =
      separatedBy separator front ++ separatedBy separator rest := by
  simp only [separatedBy_eq_splitOn, List.splitOn]
  exact List.splitOnP_append_cons front rest (beq_self_eq_true separator)

/-- A part holds no separator, and it is a piece of the text. -/
theorem part_of_mem_separatedBy {part : Text} (member : part ∈ separatedBy separator text) :
    separator ∉ part ∧ part.Sublist text := by
  induction text generalizing part with
  | nil =>
      obtain rfl := List.mem_singleton.mp member
      exact ⟨List.not_mem_nil, List.Sublist.refl _⟩
  | cons c rest inductionHypothesis =>
      obtain ⟨first, parts, shape⟩ :=
        List.exists_cons_of_ne_nil (separatedBy_ne_nil separator rest)
      rw [separatedBy, shape] at member
      rw [shape] at inductionHypothesis
      split at member
      case isTrue separates =>
        rcases List.mem_cons.mp member with rfl | member
        · exact ⟨List.not_mem_nil, List.nil_sublist _⟩
        · obtain ⟨free, piece⟩ := inductionHypothesis member
          exact ⟨free, piece.cons c⟩
      case isFalse different =>
        rcases List.mem_cons.mp member with rfl | member
        · obtain ⟨free, piece⟩ := inductionHypothesis List.mem_cons_self
          refine ⟨fun found => ?_, piece.cons_cons c⟩
          exact (List.mem_cons.mp found).elim (fun same => different same.symm) free
        · obtain ⟨free, piece⟩ := inductionHypothesis (List.mem_cons_of_mem _ member)
          exact ⟨free, piece.cons c⟩

end Text

namespace Url

/-! ### Paths that are written out -/

/-- The text of segments, each behind a slash. -/
def path (segments : List Text) : Text := segments.flatMap fun segment => '/' :: segment

@[simp] theorem path_nil : path [] = [] := rfl

@[simp] theorem path_cons (segment : Text) (segments : List Text) :
    path (segment :: segments) = '/' :: (segment ++ path segments) := by
  simp [path]

@[simp] theorem path_append (front back : List Text) :
    path (front ++ back) = path front ++ path back := by
  simp [path]

@[simp] theorem target_without_query (authority : Text) (segments : List Text) :
    target ⟨authority, segments, none⟩ = path segments := by
  simp [target, path]

@[simp] theorem target_with_query (authority : Text) (segments : List Text) (query : Text) :
    target ⟨authority, segments, some query⟩ = path segments ++ '?' :: query := by
  simp [target, path]

/-- A character that stands for itself in a path. -/
def isPlain (c : Char) : Bool := !isSlash c && !needsEncodingInPath c

/-- A segment that stands for itself: nothing in it is encoded, and it is not the name of the
place itself or of the place above. -/
structure IsPlainSegment (segment : Text) : Prop where
  chars : segment.all isPlain = true
  notHere : dots segment ≠ ['.']
  notAbove : dots segment ≠ ['.', '.']

instance (segment : Text) : Decidable (IsPlainSegment segment) :=
  decidable_of_iff
    (segment.all isPlain = true ∧ dots segment ≠ ['.'] ∧ dots segment ≠ ['.', '.'])
    ⟨fun ⟨chars, notHere, notAbove⟩ => ⟨chars, notHere, notAbove⟩,
      fun plain => ⟨plain.chars, plain.notHere, plain.notAbove⟩⟩

theorem IsPlainSegment.isPlain {segment : Text} (plain : IsPlainSegment segment) {c : Char}
    (member : c ∈ segment) : isPlain c = true :=
  List.all_eq_true.mp plain.chars c member

/-- The characters of the name of a host and its port. -/
def isHostChar (c : Char) : Bool := isPlain c && !"%@[]^|".toList.contains c

/-- A URL that is written out: a scheme, a host, and segments that stand for themselves. -/
structure Base where
  scheme : Text
  host : Text
  segments : List Text
  web : scheme = "http".toList ∨ scheme = "https".toList
  named : host ≠ []
  hostChars : host.all isHostChar = true
  segmentsPlain : ∀ segment ∈ segments, IsPlainSegment segment

/-- The text of a URL that is written out. -/
def Base.text (base : Base) : Text :=
  base.scheme ++ "://".toList ++ base.host ++ path base.segments

theorem Base.scheme_chars (base : Base) : ∀ c ∈ base.scheme, c ≠ ':' ∧ 0x20 < c.toNat := by
  have plain : base.scheme.all (fun c => decide (c ≠ ':' ∧ 0x20 < c.toNat)) = true := by
    rcases base.web with web | web
    all_goals rw [web]; decide
  exact fun c member => of_decide_eq_true (List.all_eq_true.mp plain c member)

theorem Base.scheme_lower (base : Base) :
    base.scheme.map Char.toLower = "http".toList ∨
      base.scheme.map Char.toLower = "https".toList := by
  rcases base.web with web | web
  · exact .inl (by rw [web]; decide)
  · exact .inr (by rw [web]; decide)

theorem Base.host_plain (base : Base) : ∀ c ∈ base.host, isPlain c = true := by
  intro c member
  have hostChar := List.all_eq_true.mp base.hostChars c member
  simp only [isHostChar, Bool.and_eq_true] at hostChar
  exact hostChar.1

variable {c : Char}

/-- A plain character is none of those that have a meaning in a URL. -/
theorem ne_of_isPlain (plain : isPlain c = true) :
    0x20 < c.toNat ∧ isSlash c = false ∧ c ≠ '?' ∧ c ≠ '#' := by
  simp only [isPlain, Bool.and_eq_true, Bool.not_eq_true'] at plain
  obtain ⟨notSlash, unencoded⟩ := plain
  have notSpace : c ≠ ' ' := by rintro rfl; exact absurd unencoded (by decide)
  have notBlank : c.toNat ≠ 0x20 := fun space =>
    notSpace (by rw [← Char.ofNat_toNat c, space])
  have printable : 0x20 ≤ c.toNat := by
    simp only [needsEncodingInPath, isUnprintable, Bool.or_eq_false_iff,
      decide_eq_false_iff_not] at unencoded
    omega
  refine ⟨by omega, notSlash, ?_, ?_⟩
  · rintro rfl; exact absurd unencoded (by decide)
  · rintro rfl; exact absurd unencoded (by decide)

theorem IsPlainSegment.encoded {segment : Text} (plain : IsPlainSegment segment) :
    percentEncode needsEncodingInPath segment = segment :=
  percentEncode_eq_self fun c member => by
    have := plain.isPlain member
    simp only [Url.isPlain, Bool.and_eq_true, Bool.not_eq_true'] at this
    exact this.2

/-! ### Following the segments of a path -/

/-- Segments that stand for themselves are passed over. -/
theorem follow_plain {segments : List Text}
    (plain : ∀ segment ∈ segments, IsPlainSegment segment)
    (before rest : List Text) :
    follow before (segments ++ rest) = follow (segments.reverse ++ before) rest := by
  induction segments generalizing before with
  | nil => rfl
  | cons segment segments inductionHypothesis =>
      obtain ⟨first, others⟩ := List.forall_mem_cons.mp plain
      rw [List.cons_append, follow]
      simp [first.notHere, first.notAbove, first.encoded, inductionHypothesis others]

/-- Where a last segment leads: to the place that it names, or to what it is. -/
def lastStep (segment : Text) : Text :=
  if dots segment = ['.'] ∨ dots segment = ['.', '.'] then []
  else percentEncode needsEncodingInPath segment

/-- The last segment of a path is its last step. -/
theorem follow_last {segments : List Text} (nonempty : segments ≠ []) (before : List Text) :
    ∃ front, follow before segments = front ++ [lastStep (segments.getLast nonempty)] := by
  induction segments generalizing before with
  | nil => exact absurd rfl nonempty
  | cons segment rest inductionHypothesis =>
      cases rest with
      | nil =>
          by_cases place : dots segment = ['.'] ∨ dots segment = ['.', '.']
          case pos =>
            refine ⟨(if dots segment = ['.', '.'] then before.drop 1 else before).reverse, ?_⟩
            rcases place with here | above
            · simp [follow, lastStep, here]
            · simp [follow, lastStep, above]
          case neg =>
            rw [not_or] at place
            exact ⟨before.reverse, by simp [follow, lastStep, place]⟩
      | cons next rest =>
          rw [follow]
          exact inductionHypothesis (List.cons_ne_nil next rest) _

/-! ### What is left of a text behind a path -/

/-- A character that counts wherever it stands in a URL. -/
def counts (c : Char) : Bool := !(c = '\t' || c = '\n' || c = '\r')

/-- A text without the control characters and spaces at its end. -/
def trimmed (text : Text) : Text :=
  (text.reverse.dropWhile fun c => decide (c.toNat ≤ 0x20)).reverse

/-- What counts of a text at the end of a URL. -/
def tidied (text : Text) : Text := (trimmed text).filter counts

/-- What counts of a text before a fragment. -/
def unfragmented (text : Text) : Text := (tidied text).takeWhile (· ≠ '#')

/-- What counts of a text before a query and a fragment. -/
def visible (text : Text) : Text := (unfragmented text).takeWhile (· ≠ '?')

/-- The query of a text, if it has one. -/
def queryBehind (text : Text) : Option Text :=
  match text.dropWhile (· ≠ '?') with
  | '?' :: query => some (percentEncode needsEncodingInQuery query)
  | _ => none

/-- A path with all its separators written as slashes. -/
def slashed (text : Text) : Text := text.map fun c => if isSlash c then '/' else c

theorem slashed_eq_self {text : Text} (free : ∀ c ∈ text, isSlash c = false) :
    slashed text = text := by
  conv => rhs; rw [← List.map_id text]
  exact List.map_congr_left fun c member => by simp [free c member]

theorem slashed_append (front back : Text) :
    slashed (front ++ back) = slashed front ++ slashed back :=
  List.map_append

theorem pathSegments_slash (text : Text) :
    pathSegments ('/' :: text) = Text.separatedBy '/' (slashed text) := rfl

theorem trimmed_sublist (text : Text) : (trimmed text).Sublist text := by
  rw [← List.reverse_sublist, trimmed, List.reverse_reverse]
  exact List.dropWhile_sublist _

theorem tidied_sublist (text : Text) : (tidied text).Sublist text :=
  List.filter_sublist.trans (trimmed_sublist text)

theorem visible_sublist (text : Text) : (visible text).Sublist text :=
  ((List.takeWhile_sublist _).trans (List.takeWhile_sublist _)).trans (tidied_sublist text)

/-- Trimming stops at a text none of whose characters is trimmed. -/
theorem dropWhile_append_of_neg {p : Char → Bool} {back : Text}
    (kept : ∀ c ∈ back, p c = false) (front : Text) :
    (front ++ back).dropWhile p = front.dropWhile p ++ back := by
  induction front with
  | nil =>
      cases back with
      | nil => rfl
      | cons c back =>
          rw [List.nil_append, List.dropWhile_cons_of_neg (by simp [kept])]
          rfl
  | cons c front inductionHypothesis =>
      cases trimmed : p c with
      | true => simp [trimmed, inductionHypothesis]
      | false => simp [trimmed]

/-- Behind a text that counts from its first to its last character, what counts of the whole is
told by what counts of its end. -/
theorem cleaned_append {front : Text} (begun : front ≠ []) (solid : ∀ c ∈ front, 0x20 < c.toNat)
    (text : Text) : cleaned (front ++ text) = front ++ tidied text := by
  have inner : ∀ c ∈ front, decide (c.toNat ≤ 0x20) = false := fun c member => by
    have := solid c member
    simp only [decide_eq_false_iff_not]
    omega
  have counted : front.filter counts = front := by
    refine List.filter_eq_self.mpr fun c member => ?_
    have shown := solid c member
    simp only [counts, Bool.not_eq_true', Bool.or_eq_false_iff, decide_eq_false_iff_not]
    refine ⟨⟨?_, ?_⟩, ?_⟩
    all_goals rintro rfl; exact absurd shown (by decide)
  have begins : (front ++ text).dropWhile (fun c => decide (c.toNat ≤ 0x20)) = front ++ text := by
    obtain ⟨c, front, rfl⟩ := List.exists_cons_of_ne_nil begun
    exact List.dropWhile_cons_of_neg (by simpa using inner c List.mem_cons_self)
  have ends : (text.reverse ++ front.reverse).dropWhile (fun c => decide (c.toNat ≤ 0x20)) =
      text.reverse.dropWhile (fun c => decide (c.toNat ≤ 0x20)) ++ front.reverse :=
    dropWhile_append_of_neg (fun c member => inner c (List.mem_reverse.mp member)) _
  show List.filter counts _ = _
  rw [begins, List.reverse_append, ends, List.reverse_append, List.reverse_reverse,
    List.filter_append, counted]
  rfl

/-- A slash comes first, be it that of the next segment or the one behind the last. -/
theorem path_begins (segments : List Text) (text : Text) :
    ∃ rest, path segments ++ '/' :: text = '/' :: rest := by
  cases segments with
  | nil => exact ⟨text, rfl⟩
  | cons segment segments => exact ⟨_, by rw [path_cons]; rfl⟩

/-- The segments of a written path are read from it as they are. -/
theorem pathSegments_path {segments : List Text}
    (plain : ∀ segment ∈ segments, IsPlainSegment segment) (text : Text) :
    pathSegments (path segments ++ '/' :: text) =
      segments ++ Text.separatedBy '/' (slashed text) := by
  induction segments with
  | nil => rfl
  | cons segment segments inductionHypothesis =>
      obtain ⟨first, others⟩ := List.forall_mem_cons.mp plain
      have chars : ∀ c ∈ segment, isSlash c = false := fun c member =>
        (ne_of_isPlain (first.isPlain member)).2.1
      have free : '/' ∉ segment := fun member => absurd (chars '/' member) (by decide)
      obtain ⟨rest, shape⟩ := path_begins segments text
      have others := inductionHypothesis others
      rw [shape] at others
      calc pathSegments (path (segment :: segments) ++ '/' :: text)
          = pathSegments ('/' :: (segment ++ '/' :: rest)) := by
            rw [path_cons, List.cons_append, List.append_assoc, shape]
        _ = Text.separatedBy '/' (segment ++ '/' :: slashed rest) := by
            rw [pathSegments_slash, slashed_append, slashed_eq_self chars]
            rfl
        _ = segment :: pathSegments ('/' :: rest) := by
            rw [Text.separatedBy_append, Text.separatedBy_of_not_mem free, pathSegments_slash]
            rfl
        _ = segment :: segments ++ Text.separatedBy '/' (slashed text) := by rw [others]; rfl

/-- What stands before the first character that ends a run, and what begins with it. -/
theorem cut_run {p : Char → Bool} {run : Text} (inside : ∀ c ∈ run, p c = true) {c : Char}
    (ends : p c = false) (rest : Text) :
    (run ++ c :: rest).takeWhile p = run ∧ (run ++ c :: rest).dropWhile p = c :: rest := by
  rw [List.takeWhile_append_of_pos inside, List.dropWhile_append_of_pos inside]
  simp [ends]

/-- The scheme, the host, and what is read of the rest, when the rest begins with a slash. -/
theorem parse?_eq (base : Base) {text rest : Text}
    (clean : cleaned text = base.scheme ++ "://".toList ++ base.host ++ '/' :: rest) :
    parse? text =
      let behind := ('/' :: rest).takeWhile (· ≠ '#')
      some ⟨base.host, follow [] (pathSegments (behind.takeWhile (· ≠ '?'))),
        queryBehind behind⟩ := by
  have schemeInside : ∀ c ∈ base.scheme, decide (c ≠ ':') = true := fun c member =>
    decide_eq_true (base.scheme_chars c member).1
  have whole : cleaned text =
      base.scheme ++ ':' :: '/' :: '/' :: (base.host ++ '/' :: rest) := by
    rw [clean]
    simp
  obtain ⟨schemeTaken, schemeDropped⟩ := cut_run schemeInside (c := ':') (by decide)
    ('/' :: '/' :: (base.host ++ '/' :: rest))
  have slashesDropped : ('/' :: '/' :: (base.host ++ '/' :: rest)).dropWhile isSlash =
      base.host ++ '/' :: rest := by
    obtain ⟨first, others, shape⟩ := List.exists_cons_of_ne_nil base.named
    have plain := ne_of_isPlain (base.host_plain first (shape ▸ List.mem_cons_self))
    have slash : isSlash '/' = true := by decide
    simp [shape, slash, plain.2.1]
  have hostInside : ∀ c ∈ base.host,
      (!(isSlash c || decide (c = '?') || decide (c = '#'))) = true :=
    fun c member => by
      obtain ⟨_, notSlash, notQuery, notFragment⟩ := ne_of_isPlain (base.host_plain c member)
      simp [notSlash, notQuery, notFragment]
  obtain ⟨hostTaken, hostDropped⟩ := cut_run hostInside (c := '/') (by decide) rest
  have someHost : base.host.isEmpty = false := by simpa using base.named
  unfold parse?
  simp only [whole, schemeTaken, schemeDropped, List.drop_one, List.tail_cons, slashesDropped,
    hostTaken, hostDropped, someHost, base.scheme_lower, if_true, if_false, Bool.false_eq_true]
  rfl

theorem Base.path_chars (base : Base) :
    ∀ c ∈ path base.segments, c = '/' ∨ isPlain c = true := by
  intro c member
  obtain ⟨segment, found, member⟩ := List.mem_flatMap.mp member
  rcases List.mem_cons.mp member with slash | member
  · exact .inl slash
  · exact .inr ((base.segmentsPlain segment found).isPlain member)

theorem Base.path_ne (base : Base) {c : Char} (member : c ∈ path base.segments) :
    0x20 < c.toNat ∧ c ≠ '?' ∧ c ≠ '#' := by
  rcases base.path_chars c member with rfl | plain
  · decide
  · exact ⟨(ne_of_isPlain plain).1, (ne_of_isPlain plain).2.2⟩

theorem Base.text_solid (base : Base) : ∀ c ∈ base.text, 0x20 < c.toNat := by
  intro c member
  simp only [text, List.mem_append] at member
  rcases member with ((member | member) | member) | member
  · exact (base.scheme_chars c member).2
  · have separator : "://".toList.all (fun c => decide (0x20 < c.toNat)) = true := by decide
    exact of_decide_eq_true (List.all_eq_true.mp separator c member)
  · exact (ne_of_isPlain (base.host_plain c member)).1
  · exact (base.path_ne member).1

/-- The URL of a text behind a written path: its segments are followed from those of the path. -/
theorem parse?_behind (base : Base) (text : Text) :
    parse? (base.text ++ '/' :: text) =
      some ⟨base.host,
        follow base.segments.reverse (Text.separatedBy '/' (slashed (visible text))),
        queryBehind (unfragmented text)⟩ := by
  obtain ⟨rest, shape⟩ := path_begins base.segments (tidied text)
  have solid : ∀ c ∈ base.text ++ ['/'], 0x20 < c.toNat := by
    intro c member
    rcases List.mem_append.mp member with member | member
    · exact base.text_solid c member
    · obtain rfl := List.mem_singleton.mp member
      decide
  have clean : cleaned (base.text ++ '/' :: text) =
      base.scheme ++ "://".toList ++ base.host ++ '/' :: rest := by
    have cleaned := cleaned_append (by simp) solid text
    rw [List.append_assoc, List.singleton_append] at cleaned
    rw [cleaned, ← shape, Base.text]
    simp
  have behind : ('/' :: rest).takeWhile (· ≠ '#') =
      path base.segments ++ '/' :: unfragmented text := by
    rw [← shape, List.takeWhile_append_of_pos fun c member => by simp [base.path_ne member],
      List.takeWhile_cons_of_pos (by decide), unfragmented]
  have inPath : ∀ c ∈ path base.segments, decide (c ≠ '?') = true := fun c member => by
    simp [base.path_ne member]
  have seen : (path base.segments ++ '/' :: unfragmented text).takeWhile (· ≠ '?') =
      path base.segments ++ '/' :: visible text := by
    rw [List.takeWhile_append_of_pos inPath, List.takeWhile_cons_of_pos (by decide), visible]
  have asked : queryBehind (path base.segments ++ '/' :: unfragmented text) =
      queryBehind (unfragmented text) := by
    rw [queryBehind, List.dropWhile_append_of_pos inPath, List.dropWhile_cons_of_pos (by decide),
      queryBehind]
  rw [parse?_eq base clean]
  simp only [behind, seen, asked, pathSegments_path base.segmentsPlain]
  rw [follow_plain base.segmentsPlain, List.append_nil]

theorem queryBehind_eq_none {text : Text} (absent : '?' ∉ text) : queryBehind text = none := by
  have all : ∀ c ∈ text, decide (c ≠ '?') = true := fun c member => by
    simpa using fun same : c = '?' => absent (same ▸ member)
  rw [queryBehind, ← List.append_nil text, List.dropWhile_append_of_pos all]
  rfl

end Url

end Keypad
