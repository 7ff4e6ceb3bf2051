/-
Module: Keypad.Proofs.Log.Documents
Layer: proofs
Purpose: What a remote log asks its server for: the collection, and the documents in it.
Trusted boundary: none; the server is an argument of the exchanges.
Main exports:
  RemoteLog.documentsUrl_ends, RemoteLog.ofEndpoint_documents_ends, Url.IsSegment.of_word,
  RemoteLog.listingOutcome, RemoteLog.deletionOutcome, RemoteLog.list_asks,
  RemoteLog.delete_asks, RemoteLog.Reaches, RemoteLog.ofEndpoint_reaches,
  RemoteLog.Reaches.create_asks
-/
import Keypad.Proofs.Log.Addressing
import Keypad.Proofs.Web.Below

namespace Keypad

/-! ### Ids that are words -/

namespace Url

/-- The letters, digits and signs of a word. -/
def isWordChar (c : Char) : Bool := c.isAlphanum || c = '-' || c = '_'

theorem isWordChar_ascii {c : Char} (word : isWordChar c = true) :
    0x20 < c.toNat ∧ c.toNat < 0x80 := by
  have within {low high : UInt32} (between : low ≤ c.val ∧ c.val ≤ high)
      (above : 0x20 < low.toNat) (below : high.toNat < 0x80) :
      0x20 < c.toNat ∧ c.toNat < 0x80 :=
    ⟨Nat.lt_of_lt_of_le above (UInt32.le_iff_toNat_le.mp between.1),
      Nat.lt_of_le_of_lt (UInt32.le_iff_toNat_le.mp between.2) below⟩
  have word : ((((c.isUpper || c.isLower) || c.isDigit) || c = '-') || c = '_') = true := word
  simp only [Bool.or_eq_true, decide_eq_true_eq] at word
  rcases word with (((upper | lower) | digit) | rfl) | rfl
  · exact within (of_decide_eq_true upper) (by decide) (by decide)
  · obtain ⟨above, below⟩ := Bool.and_eq_true_iff.mp lower
    exact within ⟨of_decide_eq_true above, of_decide_eq_true below⟩ (by decide) (by decide)
  · obtain ⟨above, below⟩ := Bool.and_eq_true_iff.mp digit
    exact within ⟨of_decide_eq_true above, of_decide_eq_true below⟩ (by decide) (by decide)
  · decide
  · decide

theorem isWordChar_stays {c : Char} (word : isWordChar c = true) :
    staysInSegment c = true ∧ c ≠ '%' ∧ c ≠ '.' := by
  have checked : ∀ value < 0x80, isWordChar (Char.ofNat value) = true →
      staysInSegment (Char.ofNat value) = true ∧ Char.ofNat value ≠ '%' ∧
        Char.ofNat value ≠ '.' := by
    decide +kernel
  have stays := checked c.toNat (isWordChar_ascii word).2
  rw [Char.ofNat_toNat] at stays
  exact stays word

/-- Nothing is decoded in a text of ASCII characters without a percent sign. -/
theorem percentDecode_encode_of_ascii {text : Text}
    (plain : ∀ c ∈ text, c.toNat < 0x80 ∧ c ≠ '%') :
    percentDecode (Utf8.encode text) = Utf8.encode text := by
  induction text with
  | nil => rfl
  | cons c text inductionHypothesis =>
      obtain ⟨⟨ascii, notPercent⟩, others⟩ := List.forall_mem_cons.mp plain
      have other : UInt8.ofNat c.toNat ≠ 0x25 := by
        intro same
        apply notPercent
        rw [← ofNat_octet ascii, same]
        rfl
      rw [Utf8.encode_cons, Utf8.encodeChar_ascii ascii, List.singleton_append,
        percentDecode_cons other, inductionHypothesis others]

/-- A word means itself as a segment. -/
theorem IsSegment.of_word {text : Text} (word : text.all isWordChar = true) : IsSegment text := by
  have chars : ∀ c ∈ text, isWordChar c = true := List.all_eq_true.mp word
  have noStop : '.' ∉ text := fun member => (isWordChar_stays (chars _ member)).2.2 rfl
  exact {
    chars := List.all_eq_true.mpr fun c member => (isWordChar_stays (chars c member)).1
    ending := by
      cases last : text.getLast? with
      | none => rfl
      | some c => exact decide_eq_true (isWordChar_ascii (chars c (List.mem_of_getLast? last))).1
    literal := percentDecode_encode_of_ascii fun c member =>
      ⟨(isWordChar_ascii (chars c member)).2, (isWordChar_stays (chars c member)).2.1⟩
    notHere := by rintro rfl; simp at noStop
    notAbove := by rintro rfl; simp at noStop }

end Url

namespace RemoteLog

open Url

/-! ### The URL of the documents -/

/-- The path of the documents ends in their name, whatever the endpoint and the names before
are. -/
theorem documentsUrl_ends {endpoint database collection : Text} {url : Url}
    (plain : IsPathOnly (documentsUrl endpoint database collection))
    (read : parse? (documentsUrl endpoint database collection) = some url) :
    url.segments.getLast? = some "documents".toList := by
  obtain ⟨names, shape⟩ : ∃ names, documentsUrl endpoint database collection =
      (withoutSlashes endpoint ++ '/' :: 'd' :: names) ++ '/' :: "documents".toList :=
    ⟨"atabases/".toList ++ database ++ "/collections/".toList ++ collection,
      by simp [documentsUrl]⟩
  obtain ⟨front, clean⟩ : ∃ front, cleaned (documentsUrl endpoint database collection) =
      front ++ '/' :: 'd' :: (names.filter counts ++ '/' :: "documents".toList) := by
    refine ⟨((withoutSlashes endpoint).dropWhile fun c => decide (c.toNat ≤ 0x20)).filter counts,
      ?_⟩
    rw [shape, cleaned_behind_solid (by decide), dropWhile_append_cons (by decide)]
    have documents : tidied "documents".toList = "documents".toList := by decide
    have slash : counts '/' = true := rfl
    have first : counts 'd' = true := rfl
    simp only [documents, slash, first, List.filter_append, List.filter_cons, if_true,
      List.filter_nil, List.append_assoc, List.cons_append, List.nil_append]
  obtain ⟨web, rfl⟩ := (parse?_eq_some_iff plain).mp read
  rw [clean] at web
  obtain ⟨host, behind⟩ := web.behindScheme_of_slash (by decide)
  have ends : ∃ segments,
      pathSegments (behindHost (cleaned (documentsUrl endpoint database collection))) =
        segments ++ ["documents".toList] := by
    rw [clean, behindHost, behind, ← List.cons_append, ← List.append_assoc,
      dropWhile_append_cons (by decide)]
    by_cases begun : (host ++ 'd' :: names.filter counts).dropWhile inHost = []
    case pos =>
      rw [begun]
      exact ⟨[], by decide⟩
    case neg => exact ⟨_, pathSegments_concat begun (by simp [isSlash])⟩
  obtain ⟨segments, ends⟩ := ends
  have named : segments ++ ["documents".toList] ≠ [] := List.concat_ne_nil _ _
  obtain ⟨before, followed⟩ := follow_last named []
  rw [ends, followed, List.getLast?_concat, List.getLast_append_singleton]
  rfl

/-- The URL of the documents ends in a character that counts. -/
theorem ofEndpoint_documents_ends (settings : StoreSettings) (endpoint : Text) :
    ∃ front, (ofEndpoint settings endpoint).documents = front ++ ['s'] :=
  ⟨withoutSlashes endpoint ++ "/databases/".toList ++ settings.database ++
    "/collections/".toList ++ settings.collection ++ "/document".toList, by
      simp [ofEndpoint, documentsUrl]⟩

/-! ### What a log asks for -/

/-- What an answer to the listing comes to. -/
def listingOutcome (answer : Option Reply) : Outcome (List LogEntry) :=
  answer.elim (.error .unavailable) fun reply => (decoded readEntries? reply).map latestFirst

/-- What an answer to a deletion comes to. -/
def deletionOutcome (answer : Option Reply) : Outcome Unit :=
  answer.elim (.error .unavailable) deletion

section Asking

variable {log : RemoteLog} {url : Url}

theorem list_asks (headers : log.HasHeaders) (read : parse? log.documents = some url) :
    log.list =
      .ask ⟨.get, url.target, log.project, log.key, none⟩ fun answer =>
        .done (listingOutcome answer) :=
  request_asks headers read _ _ _

theorem delete_asks (headers : log.HasHeaders) {id : Text}
    (read : parse? (log.documents ++ '/' :: id) = some url) :
    log.delete id =
      .ask ⟨.delete, url.target, log.project, log.key, none⟩ fun answer =>
        .done (deletionOutcome answer) :=
  request_asks headers read _ _ _

end Asking

/-- A log whose requests get to a collection on the server: those to the documents ask for the
collection, and those to one of them for what its id names there. -/
structure Reaches (log : RemoteLog) (collection : List Text) : Prop where
  headers : log.HasHeaders
  documents : ∃ url, parse? log.documents = some url ∧ url.target = path collection
  document : ∀ id, IsSegment id → ∃ url,
    parse? (log.documents ++ '/' :: id) = some url ∧ Names collection id url.target

/-- The log of an endpoint reaches the path of its URL, if this can be read and ends with the
path. -/
theorem ofEndpoint_reaches {settings : StoreSettings} {endpoint : Text} {url : Url}
    (headers : (ofEndpoint settings endpoint).HasHeaders)
    (plain : IsPathOnly (ofEndpoint settings endpoint).documents)
    (read : parse? (ofEndpoint settings endpoint).documents = some url) :
    (ofEndpoint settings endpoint).Reaches url.segments where
  headers := headers
  documents := ⟨url, read, target_of_isPathOnly plain read⟩
  document id own := by
    have named : url.segments.getLast? ≠ some [] := by
      rw [documentsUrl_ends plain read]
      decide
    obtain ⟨front, shape⟩ := ofEndpoint_documents_ends settings endpoint
    rw [shape] at plain read ⊢
    exact own.below (by decide) plain read named

namespace Reaches

variable {log : RemoteLog} {collection : List Text}

theorem create_asks (reaches : log.Reaches collection) (entry : LogEntry) :
    log.create entry =
      .ask ⟨.post, path collection, log.project, log.key, some (creation entry)⟩ fun reply =>
        .done (reply.elim (.error .unavailable) (decoded readEntry?)) := by
  obtain ⟨url, read, target⟩ := reaches.documents
  rw [create, request_asks reaches.headers read, target]

theorem list_asks (reaches : log.Reaches collection) :
    log.list =
      .ask ⟨.get, path collection, log.project, log.key, none⟩ fun answer =>
        .done (listingOutcome answer) := by
  obtain ⟨url, read, target⟩ := reaches.documents
  rw [RemoteLog.list_asks reaches.headers read, target]

theorem delete_asks (reaches : log.Reaches collection) {id : Text} (own : IsSegment id) :
    ∃ target, Names collection id target ∧
      log.delete id =
        .ask ⟨.delete, target, log.project, log.key, none⟩ fun answer =>
          .done (deletionOutcome answer) := by
  obtain ⟨url, read, names⟩ := reaches.document id own
  exact ⟨url.target, names, RemoteLog.delete_asks reaches.headers read⟩

end Reaches

end RemoteLog

end Keypad
