/-
Module: Keypad.Proofs.Log.Collection
Layer: proofs
Purpose: Servers that keep a collection of documents, and what a remote log reads of their
  answers.
Trusted boundary: none; the server is an argument, and what is relied on of it is a hypothesis.
Main exports:
  LogEntry.InRange, Json.Shows, Json.Posts, Reply.Succeeds, Faithful, RemoteLog.ServedBy,
  Faithful.decoded_created, Faithful.decoded_listed, Faithful.deletion_deleted
-/
import Keypad.Proofs.Json.Member
import Keypad.Proofs.Log.Documents

namespace Keypad

/-!
A server keeps documents, and each of them stands for an entry of the log.  What it does is told
by what it sends and by the documents that it keeps afterwards, and nothing is said of how it
keeps them: it may have other members in a document, list the documents in any order, and answer
what is no request of a log as it likes.  Where it does not answer, nothing is said either.
-/

/-- The timestamp of an entry is an integer of 64 bits. -/
def LogEntry.InRange (entry : LogEntry) : Prop :=
  -(Nat.pow 2 63 : Int) ≤ entry.timestamp ∧ entry.timestamp < (Nat.pow 2 63 : Int)

instance (entry : LogEntry) : Decidable entry.InRange := by
  unfold LogEntry.InRange
  infer_instance

namespace Json

/-- An object that shows what was calculated and when. -/
structure ShowsData (members : List (Text × Json)) (entry : LogEntry) : Prop where
  operation : named members "operation".toList = [.string entry.operation]
  result : named members "result".toList = [.string entry.result]
  timestamp : named members "timestamp".toList = [.integer entry.timestamp]

/-- A document that shows an entry: its id and what was calculated stand side by side, and other
members may stand among them. -/
def Shows (document : Json) (entry : LogEntry) : Prop :=
  ∃ members, document = .object members ∧
    named members "$id".toList = [.string entry.id] ∧ ShowsData members entry

/-- A document that asks for an entry to be created: what was calculated stands in an object of
its own. -/
def Posts (document : Json) (entry : LogEntry) : Prop :=
  ∃ members data, document = .object members ∧
    named members "documentId".toList = [.string entry.id] ∧
    named members "data".toList = [.object data] ∧ ShowsData data entry

/-- A text that shows an entry. -/
def TextShows (text : Text) (entry : LogEntry) : Prop :=
  ∃ document, read? text = some document ∧ Shows document entry

/-- A text that lists entries, in this order. -/
def TextLists (text : Text) (entries : List LogEntry) : Prop :=
  ∃ members documents, read? text = some (.object members) ∧
    named members "documents".toList = [.array documents] ∧
    List.Forall₂ Shows documents entries

end Json

/-- A status of success. -/
def Reply.Succeeds (reply : Reply) : Prop := 200 ≤ reply.status ∧ reply.status < 300

theorem Reply.Succeeds.of_status {status : Nat} (success : 200 ≤ status ∧ status < 300)
    (body : Text) : Reply.Succeeds ⟨status, body⟩ := success

/-- A server that keeps the documents of a collection faithfully, as far as it answers requests
with these names. -/
structure Faithful {σ : Type} (collection : List Text) (project : Text) (key : Option Text)
    (server : Outgoing → σ → Option Reply × σ) (documents : σ → List LogEntry) : Prop where
  /-- An entry with a new id becomes a document, and the answer shows it. -/
  created : ∀ {document entry state reply after}, Json.Posts document entry → entry.InRange →
    entry.id ∉ (documents state).map LogEntry.id →
      server ⟨.post, Url.path collection, project, key, some document⟩ state =
          (some reply, after) →
        reply.Succeeds ∧ Json.TextShows reply.body entry ∧
          (documents after).Perm (entry :: documents state)
  /-- The documents are listed, each of them once. -/
  listed : ∀ {state reply after}, (∀ entry ∈ documents state, entry.InRange) →
    server ⟨.get, Url.path collection, project, key, none⟩ state = (some reply, after) →
      reply.Succeeds ∧
        (∃ entries, entries.Perm (documents state) ∧ Json.TextLists reply.body entries) ∧
        (documents after).Perm (documents state)
  /-- The document of an id is taken out. -/
  deleted : ∀ {id target state reply after}, id ≠ [] → Url.Names collection id target →
    id ∈ (documents state).map LogEntry.id →
      server ⟨.delete, target, project, key, none⟩ state = (some reply, after) →
        reply.Succeeds ∧
          (documents after).Perm ((documents state).filter fun entry => entry.id ≠ id)
  /-- A document that is not there is not found. -/
  missed : ∀ {id target state reply after}, id ≠ [] → Url.Names collection id target →
    id ∉ (documents state).map LogEntry.id →
      server ⟨.delete, target, project, key, none⟩ state = (some reply, after) →
        reply.status = 404 ∧ (documents after).Perm (documents state)

/-- A log of an endpoint that a server keeps the documents for: the names that it gives of itself
can be sent, its URL can be read and ends with its path, and the server keeps the collection at
this path faithfully. -/
structure RemoteLog.ServedBy {σ : Type} (log : RemoteLog)
    (server : Outgoing → σ → Option Reply × σ) (documents : σ → List LogEntry) : Prop where
  endpoint : ∃ settings endpoint, log = ofEndpoint settings endpoint
  headers : log.HasHeaders
  pathOnly : Url.IsPathOnly log.documents
  collection : ∃ url, Url.parse? log.documents = some url ∧
    Faithful url.segments log.project log.key server documents

theorem RemoteLog.ServedBy.reaches {σ : Type} {log : RemoteLog}
    {server : Outgoing → σ → Option Reply × σ} {documents : σ → List LogEntry}
    (served : log.ServedBy server documents) :
    ∃ collection, log.Reaches collection ∧
      Faithful collection log.project log.key server documents := by
  obtain ⟨⟨settings, endpoint, rfl⟩, headers, pathOnly, url, read, faithful⟩ := served
  exact ⟨url.segments, ofEndpoint_reaches headers pathOnly read, faithful⟩

/-! ### What is read of the answers -/

theorem Reply.Succeeds.not_failure {reply : Reply} (succeeds : reply.Succeeds) :
    RemoteLog.isFailureStatus reply.status = false ∧ reply.status ≠ 404 := by
  obtain ⟨low, high⟩ := succeeds
  refine ⟨?_, by omega⟩
  rw [RemoteLog.isFailureStatus, Bool.and_eq_false_iff]
  exact .inl (decide_eq_false (by omega))

namespace RemoteLog

open Json

variable {members : List (Text × Json)} {name : String} {entry : LogEntry}

theorem textMember?_eq {value : Text} (single : named members name.toList = [.string value]) :
    textMember? members name = some value := by
  rw [textMember?, single?_eq_some_iff.mpr single]

theorem integerMember?_eq {value : Int} (single : named members name.toList = [.integer value])
    (range : -(Nat.pow 2 63 : Int) ≤ value ∧ value < (Nat.pow 2 63 : Int)) :
    integerMember? members name = some value := by
  rw [integerMember?, single?_eq_some_iff.mpr single]
  exact if_pos range

/-- A document that shows an entry is read as this entry. -/
theorem entry?_of_shows {document : Json} (range : entry.InRange)
    (shown : Shows document entry) : entry? document = some entry := by
  obtain ⟨members, rfl, id, data⟩ := shown
  unfold entry?
  simp only [textMember?_eq id, textMember?_eq data.operation, textMember?_eq data.result,
    integerMember?_eq data.timestamp range]
  rfl

theorem readEntry?_of_textShows {text : Text} (range : entry.InRange)
    (shown : TextShows text entry) : readEntry? text = some entry := by
  obtain ⟨document, read, shown⟩ := shown
  unfold readEntry?
  rw [read]
  exact entry?_of_shows range shown

theorem mapM_entry?_of_shows {documents : List Json} {entries : List LogEntry}
    (range : ∀ entry ∈ entries, entry.InRange) (shown : List.Forall₂ Shows documents entries) :
    documents.mapM entry? = some entries := by
  induction shown with
  | nil => rfl
  | cons first _ inductionHypothesis =>
      obtain ⟨firstRange, othersRange⟩ := List.forall_mem_cons.mp range
      rw [List.mapM_cons, entry?_of_shows firstRange first, inductionHypothesis othersRange]
      rfl

theorem readEntries?_of_textLists {text : Text} {entries : List LogEntry}
    (range : ∀ entry ∈ entries, entry.InRange) (listed : TextLists text entries) :
    readEntries? text = some entries := by
  obtain ⟨members, documents, read, single, shown⟩ := listed
  have record := readRecord_of_read? read single
  unfold valueField at record
  rw [readEntries?]
  simp only [record]
  exact mapM_entry?_of_shows range shown

theorem decoded_of_succeeds {α : Type} {read : Text → Option α} {reply : Reply} {value : α}
    (succeeds : reply.Succeeds) (found : read reply.body = some value) :
    decoded read reply = .ok value := by
  rw [decoded, succeeds.not_failure.1, found]
  rfl

theorem creation_posts (entry : LogEntry) : Posts (creation entry) entry :=
  ⟨_, _, rfl, rfl, rfl, rfl, rfl, rfl⟩

end RemoteLog

namespace Faithful

open RemoteLog

variable {σ : Type} {collection : List Text} {project : Text} {key : Option Text}
  {server : Outgoing → σ → Option Reply × σ} {documents : σ → List LogEntry}
  {state after : σ} {reply : Reply}

/-- The creation of an entry with a new id is answered with this entry. -/
theorem decoded_created (faithful : Faithful collection project key server documents)
    {entry : LogEntry} (range : entry.InRange)
    (fresh : entry.id ∉ (documents state).map LogEntry.id)
    (answered : server
      ⟨.post, Url.path collection, project, key, some (creation entry)⟩ state =
        (some reply, after)) :
    decoded readEntry? reply = .ok entry ∧ (documents after).Perm (entry :: documents state) := by
  obtain ⟨succeeds, shown, kept⟩ :=
    faithful.created (creation_posts entry) range fresh answered
  exact ⟨decoded_of_succeeds succeeds (readEntry?_of_textShows range shown), kept⟩

/-- The listing is read as the entries of the documents, in some order. -/
theorem decoded_listed (faithful : Faithful collection project key server documents)
    (range : ∀ entry ∈ documents state, entry.InRange)
    (answered : server ⟨.get, Url.path collection, project, key, none⟩ state =
      (some reply, after)) :
    ∃ entries, entries.Perm (documents state) ∧ readEntries? reply.body = some entries ∧
      decoded readEntries? reply = .ok entries ∧ (documents after).Perm (documents state) := by
  obtain ⟨succeeds, ⟨entries, same, listed⟩, kept⟩ := faithful.listed range answered
  have read := readEntries?_of_textLists (fun entry member => range entry (same.subset member))
    listed
  exact ⟨entries, same, read, decoded_of_succeeds succeeds read, kept⟩

/-- Deleting the document of an id succeeds if there is one, and says so if there is none. -/
theorem deletion_deleted (faithful : Faithful collection project key server documents)
    {id target : Text} (nonempty : id ≠ []) (names : Url.Names collection id target)
    (answered : server ⟨.delete, target, project, key, none⟩ state = (some reply, after)) :
    (id ∈ (documents state).map LogEntry.id ∧ deletion reply = .ok () ∧
        (documents after).Perm ((documents state).filter fun entry => entry.id ≠ id)) ∨
      (id ∉ (documents state).map LogEntry.id ∧ deletion reply = .error .notFound ∧
        (documents after).Perm (documents state)) := by
  by_cases present : id ∈ (documents state).map LogEntry.id
  case pos =>
    obtain ⟨succeeds, kept⟩ := faithful.deleted nonempty names present answered
    refine .inl ⟨present, ?_, kept⟩
    simp [deletion, succeeds.not_failure]
  case neg =>
    obtain ⟨missing, kept⟩ := faithful.missed nonempty names present answered
    refine .inr ⟨present, ?_, kept⟩
    rw [deletion, if_pos missing]

end Faithful

end Keypad
