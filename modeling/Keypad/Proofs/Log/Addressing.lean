/-
Module: Keypad.Proofs.Log.Addressing
Layer: proofs
Purpose: Which document of a remote log the deletion of an id asks for.
Trusted boundary: none; the server is an argument of the exchanges.
Main exports:
  Exchange.Sends, RemoteLog.request_asks, RemoteLog.request_sends, RemoteLog.delete_sends,
  deletion_addresses_own_segments
-/
import Keypad.Log.Remote
import Keypad.Proofs.Web.Segment

namespace Keypad

/-! ### Exchanges of one request -/

/-- An exchange that makes one request and is done with the answer to it. -/
def Exchange.Sends {α : Type} (exchange : Exchange α) (request : Outgoing) : Prop :=
  ∃ answer : Option Reply → α, exchange = .ask request fun reply => .done (answer reply)

theorem Exchange.Sends.unique {α : Type} {exchange : Exchange α} {request other : Outgoing}
    (sends : exchange.Sends request) (sendsOther : exchange.Sends other) : request = other := by
  obtain ⟨answer, shape⟩ := sends
  obtain ⟨answer', shape'⟩ := sendsOther
  exact (Exchange.ask.inj (shape.symm.trans shape')).1

namespace RemoteLog

/-- The names that a log gives of itself can be sent. -/
structure HasHeaders (log : RemoteLog) : Prop where
  project : isHeaderValue log.project = true
  key : ∀ key ∈ log.key, isHeaderValue key = true

variable {log : RemoteLog}

/-- A request to a URL that can be read is made as it is asked for. -/
theorem request_asks {α : Type} (headers : log.HasHeaders) {text : Text} {url : Url}
    (read : Url.parse? text = some url) (method : Method) (document : Option Json)
    (next : Reply → Outcome α) :
    log.request method text document next =
      .ask ⟨method, url.target, log.project, log.key, document⟩ fun reply =>
        .done (reply.elim (.error .unavailable) next) := by
  have key : (log.key.map isHeaderValue).getD true = true := by
    cases given : log.key with
    | none => rfl
    | some key => exact headers.key key (by simp [given])
  simp only [request, read, headers.project, key, Bool.and_self, if_true]
  congr 1
  funext reply
  cases reply <;> rfl

theorem request_sends {α : Type} (headers : log.HasHeaders) {text : Text} {url : Url}
    (read : Url.parse? text = some url) (method : Method) (document : Option Json)
    (next : Reply → Outcome α) :
    (log.request method text document next).Sends
      ⟨method, url.target, log.project, log.key, document⟩ :=
  ⟨_, request_asks headers read method document next⟩

/-- The deletion of an id is one request for what the id asks for behind the documents. -/
theorem delete_sends (headers : log.HasHeaders) {base : Url.Base}
    (written : log.documents = base.text) {id : Text} {url : Url}
    (read : Url.parse? (base.text ++ '/' :: id) = some url) :
    (log.delete id).Sends ⟨.delete, url.target, log.project, log.key, none⟩ := by
  rw [delete, written]
  exact request_sends headers read _ _ _

end RemoteLog

/-- A deletion is one request, whatever the id is.  It asks for the document of the id alone, as
one more segment behind the documents and without a query, exactly when the id means itself as a
segment.  Of such ids, no two ask for the same. -/
theorem deletion_addresses_own_segments (settings : StoreSettings) (endpoint : Text)
    (base : Url.Base)
    (written : RemoteLog.documentsUrl endpoint settings.database settings.collection = base.text)
    (headers : (RemoteLog.ofEndpoint settings endpoint).HasHeaders) :
    (∀ id, ∃ target,
      ((RemoteLog.ofEndpoint settings endpoint).delete id).Sends
          ⟨.delete, target, settings.project, settings.key, none⟩ ∧
        (Url.Names base.segments id target ↔ Url.IsSegment id)) ∧
      ∀ id other request, Url.IsSegment id → Url.IsSegment other →
        ((RemoteLog.ofEndpoint settings endpoint).delete id).Sends request →
          ((RemoteLog.ofEndpoint settings endpoint).delete other).Sends request → id = other := by
  have sent (id : Text) : ∃ url, Url.parse? (base.text ++ '/' :: id) = some url ∧
      ((RemoteLog.ofEndpoint settings endpoint).delete id).Sends
        ⟨.delete, url.target, settings.project, settings.key, none⟩ :=
    ⟨_, Url.parse?_behind base id,
      RemoteLog.delete_sends headers written (Url.parse?_behind base id)⟩
  constructor
  · intro id
    obtain ⟨url, read, sends⟩ := sent id
    exact ⟨url.target, sends, Url.names_target_iff read⟩
  · intro id other request own ownOther sends sendsOther
    obtain ⟨url, read, sendsUrl⟩ := sent id
    obtain ⟨urlOther, readOther, sendsUrlOther⟩ := sent other
    have target : url.target = urlOther.target := by
      have := (sends.unique sendsUrl).symm.trans (sendsOther.unique sendsUrlOther)
      exact congrArg Outgoing.target this
    have names := (Url.names_target_iff read).mpr own
    have namesOther := (Url.names_target_iff readOther).mpr ownOther
    rw [← target] at namesOther
    exact names.unique namesOther

/-! ### The standard settings -/

namespace RemoteLog

/-- The remote log of the standard settings at an endpoint. -/
def standard : RemoteLog :=
  ofEndpoint StoreSettings.standard "https://cloud.example.com/v1/".toList

/-- The URL of its documents. -/
def standardDocuments : Url.Base where
  scheme := "https".toList
  host := "cloud.example.com".toList
  segments := ["v1", "databases", "calculator", "collections", "logs", "documents"].map
    String.toList
  web := .inr rfl
  named := by decide
  hostChars := by decide +kernel
  segmentsPlain := by decide +kernel

theorem standard_documents : standard.documents = standardDocuments.text := by
  decide +kernel

theorem standard_hasHeaders : standard.HasHeaders where
  project := by decide
  key := by rintro key ⟨⟩

end RemoteLog

/-- A space, a percent sign and a letter beyond the ASCII range mean themselves. -/
theorem deletion_addresses_encoded :
    Url.IsSegment "5% é".toList ∧
      ∃ target,
        (RemoteLog.standard.delete "5% é".toList).Sends
            ⟨.delete, target, "calculator".toList, none, none⟩ ∧
          Url.Names RemoteLog.standardDocuments.segments "5% é".toList target := by
  have own : Url.IsSegment "5% é".toList := by decide +kernel
  obtain ⟨target, sends, names⟩ :=
    (deletion_addresses_own_segments .standard _ RemoteLog.standardDocuments
      RemoteLog.standard_documents RemoteLog.standard_hasHeaders).1 "5% é".toList
  exact ⟨own, target, sends, names.mpr own⟩

/-- Behind a number sign an id is passed over, so the deletion asks for the document of another
id; and with full stops it asks for what is not behind the documents at all. -/
theorem deletion_addresses_others :
    (∃ target,
      (RemoteLog.standard.delete "a#b".toList).Sends
          ⟨.delete, target, "calculator".toList, none, none⟩ ∧
        (RemoteLog.standard.delete "a".toList).Sends
          ⟨.delete, target, "calculator".toList, none, none⟩ ∧
        Url.Names RemoteLog.standardDocuments.segments "a".toList target ∧
        ¬Url.Names RemoteLog.standardDocuments.segments "a#b".toList target) ∧
      (RemoteLog.standard.delete "../x".toList).Sends
        ⟨.delete, "/v1/databases/calculator/collections/logs/x".toList, "calculator".toList, none,
          none⟩ := by
  have headers := RemoteLog.standard_hasHeaders
  have written := RemoteLog.standard_documents
  have fragment : Url.parse? (RemoteLog.standardDocuments.text ++ '/' :: "a#b".toList) =
      some ⟨"cloud.example.com".toList,
        RemoteLog.standardDocuments.segments ++ ["a".toList], none⟩ := by decide +kernel
  have plain : Url.parse? (RemoteLog.standardDocuments.text ++ '/' :: "a".toList) =
      some ⟨"cloud.example.com".toList,
        RemoteLog.standardDocuments.segments ++ ["a".toList], none⟩ := by decide +kernel
  have above : Url.parse? (RemoteLog.standardDocuments.text ++ '/' :: "../x".toList) =
      some ⟨"cloud.example.com".toList,
        ["v1", "databases", "calculator", "collections", "logs", "x"].map String.toList,
        none⟩ := by decide +kernel
  have own : Url.IsSegment "a".toList := by decide +kernel
  have notOwn : ¬Url.IsSegment "a#b".toList := by decide +kernel
  refine ⟨⟨_, RemoteLog.delete_sends headers written fragment,
    RemoteLog.delete_sends headers written plain, (Url.names_target_iff plain).mpr own,
    fun names => notOwn ((Url.names_target_iff fragment).mp names)⟩, ?_⟩
  exact RemoteLog.delete_sends headers written above

end Keypad
