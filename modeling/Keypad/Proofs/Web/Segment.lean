/-
Module: Keypad.Proofs.Web.Segment
Layer: proofs
Purpose: Which texts are one segment that means them when they stand behind a path.
Trusted boundary: none
Main exports:
  Url.Names, Url.IsSegment, Url.Names.unique, Url.tidied_eq_self_iff, Url.visible_eq_self_iff,
  Url.names_target_iff
-/
import Keypad.Proofs.Web.Url
import Mathlib.Data.List.TakeWhile

namespace Keypad.Url

/-- A target that names a text behind a path: it has one more segment, which is decoded to this
text, and no query. -/
def Names (segments : List Text) (text target : Text) : Prop :=
  ∃ segment, target = path segments ++ '/' :: segment ∧ '/' ∉ segment ∧ '?' ∉ segment ∧
    percentDecode (Utf8.encode segment) = Utf8.encode text

/-- A character that is neither passed over nor ends a segment. -/
def staysInSegment (c : Char) : Bool := !isSlash c && c ≠ '?' && c ≠ '#' && counts c

/-- A text that means itself as a segment: nothing of it is passed over, ends the segment, or is
decoded, and it does not name a place. -/
structure IsSegment (text : Text) : Prop where
  chars : text.all staysInSegment = true
  ending : (text.getLast?.all fun c => 0x20 < c.toNat) = true
  literal : percentDecode (Utf8.encode text) = Utf8.encode text
  notHere : text ≠ ['.']
  notAbove : text ≠ ['.', '.']

instance (text : Text) : Decidable (IsSegment text) :=
  decidable_of_iff
    (text.all staysInSegment = true ∧ (text.getLast?.all fun c => 0x20 < c.toNat) = true ∧
      percentDecode (Utf8.encode text) = Utf8.encode text ∧ text ≠ ['.'] ∧ text ≠ ['.', '.'])
    ⟨fun ⟨chars, ending, literal, notHere, notAbove⟩ =>
        ⟨chars, ending, literal, notHere, notAbove⟩,
      fun own => ⟨own.chars, own.ending, own.literal, own.notHere, own.notAbove⟩⟩

variable {text other : Text}

/-- A target names no two texts. -/
theorem Names.unique {segments : List Text} {target : Text} (names : Names segments text target)
    (namesOther : Names segments other target) : text = other := by
  obtain ⟨segment, shape, _, _, decoded⟩ := names
  obtain ⟨segment', shape', _, _, decoded'⟩ := namesOther
  have same : segment = segment' := by
    have := List.append_cancel_left (shape.symm.trans shape')
    exact (List.cons.inj this).2
  subst same
  exact Utf8.encode_injective (decoded.symm.trans decoded')

/-! ### Texts that name a place -/

/-- A full stop, as it is written or percent-encoded, comes first where one is found. -/
theorem dots_eq_cons {rest : Text} (found : dots text = '.' :: rest) :
    ∃ stop more, text = stop ++ more ∧ dots more = rest ∧
      (stop = ".".toList ∨ stop = "%2e".toList ∨ stop = "%2E".toList) := by
  unfold dots at found
  split at found
  · exact ⟨"%2e".toList, _, rfl, (List.cons.inj found).2, by simp⟩
  · exact ⟨"%2E".toList, _, rfl, (List.cons.inj found).2, by simp⟩
  · obtain ⟨rfl, rest⟩ := List.cons.inj found
    exact ⟨".".toList, _, rfl, rest, by simp⟩
  · cases found

theorem eq_nil_of_dots (empty : dots text = []) : text = [] := by
  unfold dots at empty
  split at empty
  · cases empty
  · cases empty
  · cases empty
  · rfl

/-- The name of a place is decoded to full stops. -/
theorem percentDecode_dots {n : Nat} (stops : dots text = List.replicate n '.') :
    percentDecode (Utf8.encode text) = Utf8.encode (List.replicate n '.') := by
  induction n generalizing text with
  | zero => rw [eq_nil_of_dots stops]; rfl
  | succ n inductionHypothesis =>
      obtain ⟨stop, more, rfl, rest, spelled⟩ := dots_eq_cons stops
      have others := inductionHypothesis rest
      have first : percentDecode (Utf8.encode (stop ++ more)) =
          0x2E :: percentDecode (Utf8.encode more) := by
        rw [Utf8.encode_append]
        rcases spelled with rfl | rfl | rfl
        all_goals rfl
      rw [first, others, List.replicate_succ, Utf8.encode_cons]
      rfl

/-! ### Texts that stay whole -/

/-- A text counts as a whole exactly when nothing is trimmed and nothing passed over. -/
theorem tidied_eq_self_iff :
    tidied text = text ↔
      (text.getLast?.all fun c => 0x20 < c.toNat) = true ∧ ∀ c ∈ text, counts c = true := by
  have ends : trimmed text = text ↔ (text.getLast?.all fun c => 0x20 < c.toNat) = true := by
    rw [trimmed, List.reverse_eq_iff, List.getLast?_eq_head?_reverse, List.dropWhile_eq_self_iff]
    cases text.reverse with
    | nil => simp
    | cons c rest => simp
  constructor
  · intro whole
    have untrimmed : trimmed text = text := by
      refine (trimmed_sublist text).antisymm ?_
      conv => lhs; rw [← whole]
      exact List.filter_sublist
    rw [tidied, untrimmed, List.filter_eq_self] at whole
    exact ⟨ends.mp untrimmed, whole⟩
  · rintro ⟨ending, counted⟩
    rw [tidied, ends.mpr ending, List.filter_eq_self.mpr counted]

/-- A text belongs to a path as a whole exactly when it counts as a whole, and no query and no
fragment begins in it. -/
theorem visible_eq_self_iff :
    visible text = text ↔ tidied text = text ∧ ∀ c ∈ text, c ≠ '?' ∧ c ≠ '#' := by
  constructor
  · intro whole
    have tidy : tidied text = text := by
      refine (tidied_sublist text).antisymm ?_
      conv => lhs; rw [← whole]
      exact (List.takeWhile_sublist _).trans (List.takeWhile_sublist _)
    have noFragment : unfragmented text = text := by
      refine ((List.takeWhile_sublist _).trans (tidied_sublist text)).antisymm ?_
      conv => lhs; rw [← whole]
      exact List.takeWhile_sublist _
    rw [visible, noFragment, List.takeWhile_eq_self_iff] at whole
    rw [unfragmented, tidy, List.takeWhile_eq_self_iff] at noFragment
    refine ⟨tidy, fun c member => ⟨?_, ?_⟩⟩
    · simpa using whole c member
    · simpa using noFragment c member
  · rintro ⟨tidy, plain⟩
    have noFragment : unfragmented text = text := by
      rw [unfragmented, tidy, List.takeWhile_eq_self_iff]
      exact fun c member => by simp [plain c member]
    rw [visible, noFragment, List.takeWhile_eq_self_iff]
    exact fun c member => by simp [plain c member]

/-! ### The target of a text behind a path -/

variable {base : Base} {url : Url}

/-- A text that means itself is not taken for the name of a place. -/
theorem IsSegment.dots_ne (own : IsSegment text) :
    dots text ≠ ['.'] ∧ dots text ≠ ['.', '.'] := by
  have notStops {n : Nat} (stops : dots text = List.replicate n '.') :
      text = List.replicate n '.' :=
    Utf8.encode_injective (own.literal.symm.trans (percentDecode_dots stops))
  exact ⟨fun here => own.notHere (notStops (n := 1) here),
    fun above => own.notAbove (notStops (n := 2) above)⟩

theorem IsSegment.stays (own : IsSegment text) {c : Char} (member : c ∈ text) :
    isSlash c = false ∧ (c ≠ '?' ∧ c ≠ '#') ∧ counts c = true := by
  have stays := List.all_eq_true.mp own.chars c member
  simp only [staysInSegment, Bool.and_eq_true, Bool.not_eq_true', decide_eq_true_eq] at stays
  exact ⟨stays.1.1.1, ⟨stays.1.1.2, stays.1.2⟩, stays.2⟩

theorem IsSegment.tidied_eq_self (own : IsSegment text) : tidied text = text :=
  tidied_eq_self_iff.mpr ⟨own.ending, fun _ member => (own.stays member).2.2⟩

theorem IsSegment.noSlash (own : IsSegment text) : '/' ∉ text :=
  fun member => absurd (own.stays member).1 (by decide)

/-- An own segment is named where it is encoded as the last segment of a path. -/
theorem IsSegment.names_encoded (own : IsSegment text) (collection : List Text) :
    Names collection text (path (collection ++ [percentEncode needsEncodingInPath text])) := by
  refine ⟨percentEncode needsEncodingInPath text, ?_, ?_, ?_, ?_⟩
  · simp
  · exact not_mem_percentEncode (by decide) fun slash => absurd slash own.noSlash
  · exact not_mem_percentEncode (by decide) fun _ => rfl
  · rw [percentDecode_percentEncode, own.literal]

theorem IsSegment.names (own : IsSegment text)
    (read : parse? (base.text ++ '/' :: text) = some url) :
    Names base.segments text url.target := by
  have whole : visible text = text :=
    visible_eq_self_iff.mpr ⟨own.tidied_eq_self, fun c member => (own.stays member).2.1⟩
  have noQuery : '?' ∉ unfragmented text := fun member =>
    have found := ((List.takeWhile_sublist _).trans (tidied_sublist text)).subset member
    (own.stays found).2.1.1 rfl
  have followed : follow base.segments.reverse [text] =
      base.segments ++ [percentEncode needsEncodingInPath text] := by
    simp [follow, own.dots_ne]
  rw [parse?_behind, whole, slashed_eq_self fun c member => (own.stays member).1,
    Text.separatedBy_of_not_mem own.noSlash, followed, queryBehind_eq_none noQuery] at read
  obtain rfl := Option.some.inj read
  rw [target_without_query]
  exact own.names_encoded _

/-- What stands behind the last slash is the same on both sides. -/
theorem eq_behind_last {front front' back back' : Text} (free : '/' ∉ back) (free' : '/' ∉ back')
    (same : front ++ '/' :: back = front' ++ '/' :: back') : back = back' := by
  have behind {front back : Text} (free : '/' ∉ back) :
      (front ++ '/' :: back).reverse.takeWhile (· ≠ '/') = back.reverse := by
    have run : ∀ c ∈ back.reverse, decide (c ≠ '/') = true := fun c member => by
      simpa using fun same : c = '/' => free (same ▸ List.mem_reverse.mp member)
    rw [List.reverse_append, List.reverse_cons, List.append_assoc, List.singleton_append]
    exact (cut_run run (by decide) _).1
  apply List.reverse_injective
  rw [← behind free, ← behind free', same]

/-- A backslash has as many octets as a slash. -/
theorem encode_slashed_length (text : Text) :
    (Utf8.encode (slashed text)).length = (Utf8.encode text).length := by
  induction text with
  | nil => rfl
  | cons c text inductionHypothesis =>
      have first : (String.utf8EncodeChar (if isSlash c then '/' else c)).length =
          (String.utf8EncodeChar c).length := by
        split
        case isTrue slash =>
          simp only [isSlash, Bool.or_eq_true, decide_eq_true_eq] at slash
          rcases slash with rfl | rfl
          all_goals rfl
        case isFalse => rfl
      show (Utf8.encode (_ :: slashed text)).length = _
      simp only [Utf8.encode_cons, List.length_append, first, inductionHypothesis]

theorem lastStep_free {segment : Text} (free : '/' ∉ segment) : '/' ∉ lastStep segment := by
  rw [lastStep]
  split
  · exact List.not_mem_nil
  · exact not_mem_percentEncode (by decide) fun slash => absurd slash free

/-- A target that names a text ends with the last step of a part of this text. -/
theorem Names.decoded (read : parse? (base.text ++ '/' :: text) = some url)
    (names : Names base.segments text url.target) :
    ∃ part ∈ Text.separatedBy '/' (slashed (visible text)),
      percentDecode (Utf8.encode (lastStep part)) = Utf8.encode text := by
  obtain ⟨segment, shape, noSlash, noMark, decoded⟩ := names
  have parts := Text.separatedBy_ne_nil '/' (slashed (visible text))
  have member := List.getLast_mem parts
  obtain ⟨front, followed⟩ := follow_last parts base.segments.reverse
  rw [parse?_behind, followed] at read
  obtain rfl := Option.some.inj read
  refine ⟨_, member, ?_⟩
  cases asked : queryBehind (unfragmented text) with
  | some query =>
      -- the query would be seen in the target
      have found : '?' ∈ path base.segments ++ '/' :: segment := by
        rw [← shape, asked, target_with_query]
        simp
      rcases List.mem_append.mp found with found | found
      · exact absurd rfl (base.path_ne found).2.1
      · exact absurd found (by simp [noMark])
  | none =>
      rw [asked, target_without_query, path_append, path_cons, path_nil, List.append_nil] at shape
      have free := (Text.part_of_mem_separatedBy member).1
      rw [eq_behind_last (lastStep_free free) noSlash shape, decoded]

/-- A part of a text is decoded to no more octets than it has.  So only the whole text can be
decoded to the text. -/
theorem IsSegment.of_decoded {part : Text}
    (member : part ∈ Text.separatedBy '/' (slashed (visible text)))
    (decoded : percentDecode (Utf8.encode (lastStep part)) = Utf8.encode text) :
    IsSegment text := by
  obtain ⟨free, piece⟩ := Text.part_of_mem_separatedBy member
  by_cases place : dots part = ['.'] ∨ dots part = ['.', '.']
  case pos =>
    rw [lastStep, if_pos place] at decoded
    obtain rfl : [] = text := Utf8.encode_injective decoded
    decide
  case neg =>
    rw [lastStep, if_neg place, percentDecode_percentEncode] at decoded
    rw [not_or] at place
    have size : (Utf8.encode text).length ≤ (Utf8.encode part).length := by
      rw [← decoded]
      exact percentDecode_length _
    have whole : visible text = text := by
      apply Utf8.eq_of_sublist (visible_sublist text)
      calc (Utf8.encode text).length ≤ (Utf8.encode part).length := size
        _ ≤ (Utf8.encode (slashed (visible text))).length := (Utf8.encode_sublist piece).length_le
        _ = (Utf8.encode (visible text)).length := encode_slashed_length _
    rw [whole] at piece
    have same : part = slashed text :=
      Utf8.eq_of_sublist piece (by rw [encode_slashed_length]; exact size)
    have noSlash : ∀ c ∈ text, isSlash c = false := by
      intro c found
      by_contra slash
      refine free (same ▸ List.mem_map.mpr ⟨c, found, ?_⟩)
      simp [slash]
    rw [slashed_eq_self noSlash] at same
    subst same
    obtain ⟨tidy, plain⟩ := visible_eq_self_iff.mp whole
    obtain ⟨ending, counted⟩ := tidied_eq_self_iff.mp tidy
    exact {
      chars := List.all_eq_true.mpr fun c found => by
        simp [staysInSegment, noSlash c found, plain c found, counted c found]
      ending := ending
      literal := decoded
      notHere := by rintro rfl; exact place.1 rfl
      notAbove := by rintro rfl; exact place.2 rfl }

/-- What a text behind a written path asks for is named by the text exactly when the text means
itself as a segment. -/
theorem names_target_iff (read : parse? (base.text ++ '/' :: text) = some url) :
    Names base.segments text url.target ↔ IsSegment text := by
  constructor
  · intro names
    obtain ⟨part, member, decoded⟩ := names.decoded read
    exact .of_decoded member decoded
  · exact fun own => own.names read

end Keypad.Url
