/-
Module: Keypad.Proofs.Log.Keeper
Layer: proofs
Purpose: A server that keeps its documents in a list, and keeps them faithfully.
Trusted boundary: none
Main exports:
  Keeper.serve, Keeper.documentText, Keeper.listingText, Keeper.isNamed_iff, Keeper.faithful,
  Keeper.answers, Keeper.standard_servedBy
-/
import Keypad.Proofs.Json.Written
import Keypad.Proofs.Log.Remote

namespace Keypad

open RemoteLog Json

/-!
What is asked of a server can be done: this one keeps its documents in a list, writes them as JSON
texts, and answers every request.
-/

/-- The documents of a collection, in the order in which they were created. -/
structure Keeper where
  documents : List LogEntry
deriving DecidableEq, Repr

namespace Keeper

/-! ### What it sends -/

/-- The document of an entry. -/
def documentText (entry : LogEntry) : Text :=
  objectText
    [("$id".toList, stringText entry.id), ("$collectionId".toList, stringText "logs".toList),
      ("operation".toList, stringText entry.operation), ("result".toList, stringText entry.result),
      ("timestamp".toList, integerText entry.timestamp)]

/-- The listing of documents. -/
def listingText (entries : List LogEntry) : Text :=
  objectText
    [("$collectionId".toList, stringText "logs".toList),
      ("documents".toList, arrayText (entries.map documentText))]

/-- A written document is read as one that shows its entry. -/
theorem reads_documentText {entry : LogEntry} (range : entry.InRange) (depth : Nat) :
    ∃ document, Json.Reads (depth + 1) (documentText entry) document ∧ Shows document entry := by
  refine ⟨.object [("$id".toList, .string entry.id),
      ("$collectionId".toList, .string "logs".toList),
      ("operation".toList, .string entry.operation), ("result".toList, .string entry.result),
      ("timestamp".toList, .integer entry.timestamp)], ?_, _, rfl, rfl, rfl, rfl, rfl⟩
  apply reads_objectText
  have text (name text : Text) : MemberReads depth (name, stringText text) (name, .string text) :=
    ⟨rfl, reads_stringText _ _⟩
  exact .cons (text _ _) (.cons (text _ _) (.cons (text _ _) (.cons (text _ _)
    (.cons ⟨rfl, reads_integerText range _⟩ .nil))))

theorem textShows_documentText {entry : LogEntry} (range : entry.InRange) :
    TextShows (documentText entry) entry := by
  obtain ⟨document, reads, shown⟩ := reads_documentText range (deepest - 1)
  exact ⟨document, reads.read?, shown⟩

theorem reads_documentTexts {entries : List LogEntry} (range : ∀ entry ∈ entries, entry.InRange)
    (depth : Nat) :
    ∃ documents, List.Forall₂ (Json.Reads (depth + 1)) (entries.map documentText) documents ∧
      List.Forall₂ Shows documents entries := by
  induction entries with
  | nil => exact ⟨[], .nil, .nil⟩
  | cons entry entries inductionHypothesis =>
      obtain ⟨firstRange, othersRange⟩ := List.forall_mem_cons.mp range
      obtain ⟨document, reads, shown⟩ := reads_documentText firstRange depth
      obtain ⟨documents, readsOthers, shownOthers⟩ := inductionHypothesis othersRange
      exact ⟨document :: documents, .cons reads readsOthers, .cons shown shownOthers⟩

theorem textLists_listingText {entries : List LogEntry}
    (range : ∀ entry ∈ entries, entry.InRange) : TextLists (listingText entries) entries := by
  obtain ⟨documents, reads, shown⟩ := reads_documentTexts range (deepest - 3)
  refine ⟨[("$collectionId".toList, .string "logs".toList),
    ("documents".toList, .array documents)], documents, ?_, rfl, shown⟩
  apply Json.Reads.read?
  show Json.Reads (deepest - 1 + 1) _ _
  apply reads_objectText
  exact .cons ⟨rfl, reads_stringText _ _⟩ (.cons ⟨rfl, reads_arrayText reads⟩ .nil)

/-! ### What it takes -/

/-- The entry that a document asks to be created. -/
def posted? : Json → Option LogEntry
  | .object members => do
      let id ← textMember? members "documentId"
      let .object data ← single? members "data" | none
      let operation ← textMember? data "operation"
      let result ← textMember? data "result"
      let timestamp ← integerMember? data "timestamp"
      return ⟨id, operation, result, timestamp⟩
  | _ => none

theorem posted?_of_posts {document : Json} {entry : LogEntry} (range : entry.InRange)
    (posts : Posts document entry) : posted? document = some entry := by
  obtain ⟨members, data, rfl, id, only, shown⟩ := posts
  simp only [posted?, textMember?_eq id, single?_eq_some_iff.mpr only,
    textMember?_eq shown.operation, textMember?_eq shown.result,
    integerMember?_eq shown.timestamp range, Option.bind_eq_bind, Option.bind_some]
  rfl

/-- Whether a target names an id behind the path of a collection. -/
def isNamed (collection : List Text) (target id : Text) : Bool :=
  match literal? (Url.path collection ++ ['/']) target with
  | some segment => !segment.contains '/' && !segment.contains '?' &&
      percentDecode (Utf8.encode segment) = Utf8.encode id
  | none => false

theorem isNamed_iff {collection : List Text} {target id : Text} :
    isNamed collection target id = true ↔ Url.Names collection id target := by
  have shape (segment : Text) : Url.path collection ++ ['/'] ++ segment =
      Url.path collection ++ '/' :: segment := by simp
  constructor
  · intro named
    unfold isNamed at named
    split at named
    case h_1 segment taken =>
      simp only [Bool.and_eq_true, Bool.not_eq_true', List.contains_eq_mem, decide_eq_false_iff_not,
        decide_eq_true_eq] at named
      exact ⟨segment, (literal?_eq taken).trans (shape segment), named.1.1, named.1.2, named.2⟩
    case h_2 => cases named
  · rintro ⟨segment, rfl, noSlash, noMark, decoded⟩
    rw [isNamed, ← shape segment, literal?_append]
    simp [noSlash, noMark, decoded]

/-! ### What it does -/

/-- How a request is answered, and what the documents are afterwards. -/
def serve (collection : List Text) (request : Outgoing) (keeper : Keeper) :
    Option Reply × Keeper :=
  match request.method with
  | .get =>
      if request.target = Url.path collection then
        (some ⟨200, listingText keeper.documents⟩, keeper)
      else (some ⟨404, []⟩, keeper)
  | .post =>
      if request.target = Url.path collection then
        match request.document.bind posted? with
        | some entry =>
            if entry.id ∈ keeper.documents.map LogEntry.id then (some ⟨409, []⟩, keeper)
            else (some ⟨201, documentText entry⟩, ⟨keeper.documents ++ [entry]⟩)
        | none => (some ⟨400, []⟩, keeper)
      else (some ⟨404, []⟩, keeper)
  | .delete =>
      if keeper.documents.any fun entry => isNamed collection request.target entry.id then
        (some ⟨204, []⟩,
          ⟨keeper.documents.filter fun entry => !isNamed collection request.target entry.id⟩)
      else (some ⟨404, []⟩, keeper)
  | _ => (some ⟨405, []⟩, keeper)

theorem answers (collection : List Text) : Answers (serve collection) := by
  intro request keeper
  have answered : (serve collection request keeper).1.isSome = true := by
    unfold serve
    repeat' split
    all_goals rfl
  obtain ⟨reply, shown⟩ := Option.isSome_iff_exists.mp answered
  exact ⟨reply, _, Prod.ext shown rfl⟩

/-- Of the documents the one that a target names is the one with the id. -/
theorem isNamed_eq {collection : List Text} {target id : Text}
    (names : Url.Names collection id target) (entry : LogEntry) :
    isNamed collection target entry.id = decide (entry.id = id) := by
  rw [Bool.eq_iff_iff, isNamed_iff, decide_eq_true_iff]
  exact ⟨fun other => other.unique names, fun same => same ▸ names⟩

theorem serve_delete {collection : List Text} {target id : Text}
    (names : Url.Names collection id target) (project : Text) (key : Option Text)
    (keeper : Keeper) :
    serve collection ⟨.delete, target, project, key, none⟩ keeper =
      if id ∈ keeper.documents.map LogEntry.id then
        (some ⟨204, []⟩, ⟨keeper.documents.filter fun entry => entry.id ≠ id⟩)
      else (some ⟨404, []⟩, keeper) := by
  have found : (keeper.documents.any fun entry => decide (entry.id = id)) = true ↔
      id ∈ keeper.documents.map LogEntry.id := by simp
  simp only [serve, isNamed_eq names, found, decide_not]

/-- The documents are kept faithfully, whoever asks. -/
theorem faithful (collection : List Text) (project : Text) (key : Option Text) :
    Faithful collection project key (serve collection) documents where
  created {document entry keeper reply after} posts range fresh answered := by
    simp only [serve, if_true, Option.bind_some, posted?_of_posts range posts] at answered
    rw [if_neg fresh] at answered
    cases answered
    exact ⟨.of_status (by decide) _, textShows_documentText range, List.perm_append_singleton _ _⟩
  listed {keeper reply after} range answered := by
    simp only [serve, if_true] at answered
    cases answered
    exact ⟨.of_status (by decide) _, ⟨_, List.Perm.refl _, textLists_listingText range⟩,
      List.Perm.refl _⟩
  deleted {id target keeper reply after} nonempty names present answered := by
    rw [serve_delete names, if_pos present] at answered
    cases answered
    exact ⟨.of_status (by decide) _, List.Perm.refl _⟩
  missed {id target keeper reply after} nonempty names absent answered := by
    rw [serve_delete names, if_neg absent] at answered
    cases answered
    exact ⟨rfl, List.Perm.refl _⟩

end Keeper

/-- The log of the standard settings is served by the keeper of its collection. -/
theorem RemoteLog.standard_servedBy :
    RemoteLog.standard.ServedBy (Keeper.serve RemoteLog.standardDocuments.segments)
      Keeper.documents where
  endpoint := ⟨_, _, rfl⟩
  headers := RemoteLog.standard_hasHeaders
  pathOnly c member := by
    have plain : RemoteLog.standard.documents.all (fun c => c ≠ '?' && c ≠ '#') = true := by
      decide +kernel
    simpa using List.all_eq_true.mp plain c member
  collection := by
    have read : Url.parse? RemoteLog.standard.documents =
        some ⟨"cloud.example.com".toList, RemoteLog.standardDocuments.segments, none⟩ := by
      decide +kernel
    exact ⟨_, read, Keeper.faithful _ _ _⟩

end Keypad
