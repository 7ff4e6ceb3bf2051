/-
Module: Keypad.Proofs.Web.Below
Layer: proofs
Purpose: Segments behind a URL of which it is known only that it can be read.
Trusted boundary: none
Main exports:
  Url.IsPathOnly, Url.parse?_eq_some_iff, Url.IsWeb, Url.exists_parse?_behind, Url.follow_concat,
  Url.IsSegment.below
-/
import Keypad.Proofs.Web.Segment

namespace Keypad.Url

/-!
A URL that can be read need not be written out: its scheme may have capitals, blanks may stand
before it, and characters of its path may need to be encoded.  Still, a segment that is put
behind it becomes the last one of its path, unless a query or a fragment has begun before.
-/

variable {text : Text} {url : Url}

/-! ### Runs at the head of a longer text -/

section Runs

variable {p : Char → Bool} {front : Text}

theorem dropWhile_append_cons {c : Char} (kept : p c = false) (front back : Text) :
    (front ++ c :: back).dropWhile p = front.dropWhile p ++ c :: back := by
  rw [List.dropWhile_append]
  split
  case isTrue all =>
    rw [List.isEmpty_iff.mp all, List.dropWhile_cons_of_neg (by simp [kept]), List.nil_append]
  case isFalse => rfl

theorem dropWhile_append_of_ne_nil (stops : front.dropWhile p ≠ []) (back : Text) :
    (front ++ back).dropWhile p = front.dropWhile p ++ back := by
  rw [List.dropWhile_append, if_neg (by simpa using stops)]

theorem takeWhile_append_of_ne_nil (stops : front.dropWhile p ≠ []) (back : Text) :
    (front ++ back).takeWhile p = front.takeWhile p := by
  induction front with
  | nil => exact absurd rfl stops
  | cons c front inductionHypothesis =>
      cases held : p c with
      | false => simp [held]
      | true =>
          rw [List.dropWhile_cons_of_pos held] at stops
          simp [held, inductionHypothesis stops]

end Runs

/-! ### What counts of a text -/

/-- Up to a character that counts at an end, a text counts whatever stands behind. -/
theorem cleaned_behind_solid {c : Char} (solid : 0x20 < c.toNat) (front back : Text) :
    cleaned (front ++ c :: back) =
      (front.dropWhile (fun c => decide (c.toNat ≤ 0x20)) ++ [c]).filter counts ++
        tidied back := by
  have inner : decide (c.toNat ≤ 0x20) = false := by
    simp only [decide_eq_false_iff_not]
    omega
  show List.filter counts _ = _
  rw [dropWhile_append_cons inner, List.reverse_append, List.reverse_cons, List.append_assoc,
    List.singleton_append, dropWhile_append_cons inner, List.reverse_append, List.reverse_cons,
    List.reverse_reverse, List.filter_append]
  rfl

theorem cleaned_sublist (text : Text) : (cleaned text).Sublist text := by
  have outer : ((text.dropWhile fun c => decide (c.toNat ≤ 0x20)).reverse.dropWhile
      fun c => decide (c.toNat ≤ 0x20)).reverse.Sublist text := by
    rw [← List.reverse_sublist, List.reverse_reverse]
    exact (List.dropWhile_sublist _).trans (List.reverse_sublist.mpr (List.dropWhile_sublist _))
  exact List.filter_sublist.trans outer

/-! ### The parts of a URL -/

/-- What stands behind the scheme and the slashes there. -/
def behindScheme (clean : Text) : Text :=
  ((clean.dropWhile (· ≠ ':')).drop 1).dropWhile isSlash

/-- A character that belongs to the name of the host. -/
def inHost (c : Char) : Bool := !(isSlash c || c = '?' || c = '#')

/-- What stands behind the host. -/
def behindHost (clean : Text) : Text := (behindScheme clean).dropWhile inHost

/-- A text that counts only as a URL of a web server, up to its path. -/
structure IsWeb (clean : Text) : Prop where
  scheme : (clean.takeWhile (· ≠ ':')).map Char.toLower = "http".toList ∨
    (clean.takeWhile (· ≠ ':')).map Char.toLower = "https".toList
  host : (behindScheme clean).takeWhile inHost ≠ []

theorem behindHost_sublist (clean : Text) : (behindHost clean).Sublist clean :=
  (((List.dropWhile_sublist _).trans (List.dropWhile_sublist _)).trans
    (List.drop_sublist _ _)).trans (List.dropWhile_sublist _)

/-- A text in which neither a query nor a fragment begins. -/
def IsPathOnly (text : Text) : Prop := ∀ c ∈ text, c ≠ '?' ∧ c ≠ '#'

/-- Reading a text in which neither a query nor a fragment begins. -/
theorem parse?_eq_some_iff (plain : IsPathOnly text) :
    parse? text = some url ↔ IsWeb (cleaned text) ∧
      url = ⟨(behindScheme (cleaned text)).takeWhile inHost,
        follow [] (pathSegments (behindHost (cleaned text))), none⟩ := by
  have plain : IsPathOnly (behindHost (cleaned text)) := fun c member =>
    plain c (((behindHost_sublist _).trans (cleaned_sublist text)).subset member)
  have noFragment : (behindHost (cleaned text)).takeWhile (· ≠ '#') = behindHost (cleaned text) :=
    List.takeWhile_eq_self_iff.mpr fun c member => by simp [plain c member]
  have noQuery : (behindHost (cleaned text)).takeWhile (· ≠ '?') = behindHost (cleaned text) :=
    List.takeWhile_eq_self_iff.mpr fun c member => by simp [plain c member]
  have notAsked : queryBehind (behindHost (cleaned text)) = none :=
    queryBehind_eq_none fun member => (plain _ member).1 rfl
  have shape : parse? text =
      if ((cleaned text).takeWhile (· ≠ ':')).map Char.toLower = "http".toList ∨
          ((cleaned text).takeWhile (· ≠ ':')).map Char.toLower = "https".toList then
        if ((behindScheme (cleaned text)).takeWhile inHost).isEmpty then none
        else some ⟨(behindScheme (cleaned text)).takeWhile inHost,
          follow [] (pathSegments (((behindHost (cleaned text)).takeWhile (· ≠ '#')).takeWhile
            (· ≠ '?'))), queryBehind ((behindHost (cleaned text)).takeWhile (· ≠ '#'))⟩
      else none := rfl
  rw [shape, noFragment, noQuery, notAsked]
  constructor
  · intro read
    split at read
    case isFalse => cases read
    case isTrue scheme =>
    split at read
    case isTrue => cases read
    case isFalse host =>
    exact ⟨⟨scheme, by simpa using host⟩, (Option.some.inj read).symm⟩
  · rintro ⟨web, rfl⟩
    rw [if_pos web.scheme, if_neg (by simpa using web.host)]

/-- A text is read as a URL by what counts of it, up to its path. -/
theorem parse?_isSome_iff : (parse? text).isSome = true ↔ IsWeb (cleaned text) := by
  obtain ⟨read, shape⟩ : ∃ read : Url, parse? text =
      if ((cleaned text).takeWhile (· ≠ ':')).map Char.toLower = "http".toList ∨
          ((cleaned text).takeWhile (· ≠ ':')).map Char.toLower = "https".toList then
        if ((behindScheme (cleaned text)).takeWhile inHost).isEmpty then none else some read
      else none := ⟨_, rfl⟩
  rw [shape]
  constructor
  · intro found
    split at found
    case isFalse => cases found
    case isTrue scheme =>
    split at found
    case isTrue => cases found
    case isFalse host => exact ⟨scheme, by simpa using host⟩
  · intro web
    rw [if_pos web.scheme, if_neg (by simpa using web.host)]
    rfl

theorem target_of_isPathOnly (plain : IsPathOnly text) (read : parse? text = some url) :
    url.target = path url.segments := by
  obtain ⟨_, rfl⟩ := (parse?_eq_some_iff plain).mp read
  exact target_without_query _ _

/-! ### Parts with more behind them -/

section Longer

variable {clean : Text}

theorem IsWeb.colon (web : IsWeb clean) : clean.dropWhile (· ≠ ':') ≠ [] := by
  intro none
  apply web.host
  rw [behindScheme, none]
  rfl

theorem IsWeb.slashes (web : IsWeb clean) : behindScheme clean ≠ [] := by
  intro none
  apply web.host
  rw [none]
  rfl

theorem behindScheme_append (web : IsWeb clean) (more : Text) :
    behindScheme (clean ++ more) = behindScheme clean ++ more := by
  have slashes := web.slashes
  rw [behindScheme] at slashes
  obtain ⟨c, rest, shape⟩ := List.exists_cons_of_ne_nil web.colon
  rw [behindScheme, dropWhile_append_of_ne_nil web.colon, shape, List.cons_append]
  rw [shape] at slashes
  rw [behindScheme, shape]
  exact dropWhile_append_of_ne_nil slashes more

/-- A URL stays one whatever is put behind it. -/
theorem IsWeb.longer (web : IsWeb clean) (more : Text) : IsWeb (clean ++ more) where
  scheme := by
    rw [takeWhile_append_of_ne_nil web.colon]
    exact web.scheme
  host := by
    have host := web.host
    obtain ⟨c, rest, shape⟩ := List.exists_cons_of_ne_nil web.slashes
    rw [shape] at host
    rw [behindScheme_append web, shape, List.cons_append]
    cases inside : inHost c with
    | false => simp [inside] at host
    | true => simp [inside]

/-- With a path, a URL keeps its host, and what is put behind it belongs to the path. -/
theorem IsWeb.append (web : IsWeb clean) (path : behindHost clean ≠ []) (more : Text) :
    (behindScheme (clean ++ more)).takeWhile inHost = (behindScheme clean).takeWhile inHost ∧
      behindHost (clean ++ more) = behindHost clean ++ more := by
  constructor
  · rw [behindScheme_append web, takeWhile_append_of_ne_nil path]
  · rw [behindHost, behindScheme_append web, dropWhile_append_of_ne_nil path, behindHost]

end Longer

/-- No scheme has a slash, so what stands behind the first slash and is not one itself stands
behind the scheme. -/
theorem IsWeb.behindScheme_of_slash {front : Text} {c : Char} {rest : Text}
    (web : IsWeb (front ++ '/' :: c :: rest)) (notSlash : isSlash c = false) :
    ∃ host, behindScheme (front ++ '/' :: c :: rest) = host ++ c :: rest := by
  have colon : front.dropWhile (· ≠ ':') ≠ [] := by
    intro none
    have all := List.dropWhile_eq_nil_iff.mp none
    have slash : '/' ∈ ((front ++ '/' :: c :: rest).takeWhile (· ≠ ':')).map Char.toLower := by
      rw [List.takeWhile_append_of_pos all, List.takeWhile_cons_of_pos (by decide)]
      exact List.mem_map.mpr ⟨'/', by simp, rfl⟩
    rcases web.scheme with scheme | scheme
    · rw [scheme] at slash
      exact absurd slash (by decide)
    · rw [scheme] at slash
      exact absurd slash (by decide)
  obtain ⟨first, behind, shape⟩ := List.exists_cons_of_ne_nil colon
  refine ⟨(behind ++ ['/']).dropWhile isSlash, ?_⟩
  rw [behindScheme, dropWhile_append_of_ne_nil colon, shape, ← dropWhile_append_cons notSlash]
  simp

/-- Behind a URL that is read, and that ends in a character that counts, any text is read along
with it. -/
theorem exists_parse?_behind {front : Text} {c : Char} (solid : 0x20 < c.toNat)
    (read : parse? (front ++ [c]) = some url) (more : Text) :
    ∃ url', parse? (front ++ [c] ++ more) = some url' := by
  have web : IsWeb (cleaned (front ++ [c])) := parse?_isSome_iff.mp (by rw [read]; rfl)
  have longer : cleaned (front ++ [c] ++ more) = cleaned (front ++ [c]) ++ tidied more := by
    rw [List.append_assoc, List.singleton_append, cleaned_behind_solid solid,
      cleaned_behind_solid solid]
    simp [tidied, trimmed]
  apply Option.isSome_iff_exists.mp
  rw [parse?_isSome_iff, longer]
  exact web.longer _

/-! ### One more segment -/

/-- A segment that names no place comes behind those that have been followed, unless the last of
these names one. -/
theorem follow_concat {segments : List Text} {segment : Text}
    (other : dots segment ≠ ['.'] ∧ dots segment ≠ ['.', '.']) :
    ∀ before, (follow before segments).getLast? ≠ some [] → segments ≠ [] →
      follow before (segments ++ [segment]) =
        follow before segments ++ [percentEncode needsEncodingInPath segment] := by
  induction segments with
  | nil => exact fun _ _ nonempty => absurd rfl nonempty
  | cons first rest inductionHypothesis =>
      intro before named _
      cases rest with
      | nil =>
          by_cases place : dots first = ['.'] ∨ dots first = ['.', '.']
          case pos =>
            rcases place with here | above
            · simp [follow, here] at named
            · simp [follow, above] at named
          case neg =>
            rw [not_or] at place
            simp [follow, place, other]
      | cons next rest =>
          rw [follow] at named
          rw [List.cons_append, follow, follow]
          exact inductionHypothesis _ named (List.cons_ne_nil next rest)

theorem pathSegments_ne_nil (text : Text) : pathSegments text ≠ [] :=
  Text.separatedBy_ne_nil _ _

theorem pathSegments_concat {path segment : Text} (begun : path ≠ [])
    (free : ∀ c ∈ segment, isSlash c = false) :
    pathSegments (path ++ '/' :: segment) = pathSegments path ++ [segment] := by
  obtain ⟨c, path, rfl⟩ := List.exists_cons_of_ne_nil begun
  have absent : '/' ∉ segment := fun member => absurd (free '/' member) (by decide)
  show Text.separatedBy '/' (slashed (path ++ '/' :: segment)) = _
  rw [slashed_append]
  show Text.separatedBy '/' (slashed path ++ '/' :: slashed segment) = _
  rw [Text.separatedBy_append, slashed_eq_self free, Text.separatedBy_of_not_mem absent]
  rfl

/-- What an own segment asks for behind a URL that is read: one more segment of the path, which is
decoded to it.  The URL has a path, and ends in a character that counts. -/
theorem IsSegment.below {front : Text} {c : Char} {segment : Text} (own : IsSegment segment)
    (solid : 0x20 < c.toNat) (plain : IsPathOnly (front ++ [c]))
    (read : parse? (front ++ [c]) = some url) (named : url.segments.getLast? ≠ some []) :
    ∃ url', parse? (front ++ [c] ++ '/' :: segment) = some url' ∧
      Names url.segments segment url'.target := by
  generalize cleanEq : (front.dropWhile (fun c => decide (c.toNat ≤ 0x20)) ++ [c]).filter counts =
    clean
  have cleanShort : cleaned (front ++ [c]) = clean := by
    rw [cleaned_behind_solid solid, cleanEq]
    exact List.append_nil _
  have cleanLong : cleaned (front ++ [c] ++ '/' :: segment) = clean ++ '/' :: segment := by
    have inner : decide (c.toNat ≤ 0x20) = false := by
      simp only [decide_eq_false_iff_not]
      omega
    have slash : [('/' : Char)].filter counts = ['/'] := rfl
    rw [cleaned_behind_solid (by decide), dropWhile_append_cons inner, List.filter_append, cleanEq,
      slash, own.tidied_eq_self, List.append_assoc, List.singleton_append]
  have plainLong : IsPathOnly (front ++ [c] ++ '/' :: segment) := by
    intro d member
    rcases List.mem_append.mp member with member | member
    · exact plain d member
    · rcases List.mem_cons.mp member with rfl | member
      · decide
      · exact (own.stays member).2.1
  obtain ⟨web, rfl⟩ := (parse?_eq_some_iff plain).mp read
  rw [cleanShort] at web named ⊢
  have path : behindHost clean ≠ [] := by
    intro none
    rw [none] at named
    exact named rfl
  obtain ⟨host, behind⟩ := web.append path ('/' :: segment)
  refine ⟨_, (parse?_eq_some_iff plainLong).mpr ⟨cleanLong ▸ web.longer _, rfl⟩, ?_⟩
  rw [cleanLong, behind, pathSegments_concat path fun c member => (own.stays member).1,
    follow_concat own.dots_ne [] named (pathSegments_ne_nil _)]
  rw [target_without_query]
  exact own.names_encoded _

end Keypad.Url
