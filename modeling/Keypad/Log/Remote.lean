/-
Module: Keypad.Log.Remote
Layer: log
Purpose: The log kept as documents of a collection on a server.
Trusted boundary: none; the server is an argument of the exchanges.
Main exports:
  RemoteLog, RemoteLog.ofSettings?, RemoteLog.create, RemoteLog.list,
  RemoteLog.delete, RemoteLog.deleteAll, RemoteLog.store
-/
import Keypad.Json.Read
import Keypad.Json.Record
import Keypad.Log.Entry
import Keypad.Log.Exchange
import Keypad.Settings
import Keypad.Web.Url

namespace Keypad

/-- A collection of documents on a server, and how the log names itself there. -/
structure RemoteLog where
  documents : Text
  project : Text
  key : Option Text
deriving DecidableEq, Repr

namespace RemoteLog

/-- A text without the slashes at its end. -/
def withoutSlashes (text : Text) : Text :=
  (text.reverse.dropWhile (· = '/')).reverse

/-- The URL of the documents of a collection. -/
def documentsUrl (endpoint database collection : Text) : Text :=
  withoutSlashes endpoint ++ "/databases/".toList ++ database ++ "/collections/".toList ++
    collection ++ "/documents".toList

/-- The remote log of an endpoint. -/
def ofEndpoint (settings : StoreSettings) (endpoint : Text) : RemoteLog :=
  ⟨documentsUrl endpoint settings.database settings.collection, settings.project, settings.key⟩

/-- The remote log that the settings ask for, if they name an endpoint. -/
def ofSettings? (settings : StoreSettings) : Option RemoteLog :=
  settings.endpoint.map (ofEndpoint settings)

/-- Whether a text can be the value of a header: it holds no control character
other than a tab. -/
def isHeaderValue (text : Text) : Bool :=
  text.all fun c => c = '\t' || (0x20 ≤ c.toNat && c.toNat ≠ 0x7F)

/-- What an exchange with the log is done with. -/
abbrev Outcome (α : Type) := Except LogFailure α

/-- Makes a request, if its URL and its headers can be sent, and goes on with
the answer.  Without an answer the store has failed. -/
def request {α : Type} (log : RemoteLog) (method : Method) (url : Text)
    (document : Option Json) (next : Reply → Outcome α) : Exchange (Outcome α) :=
  match Url.parse? url with
  | none => .done (.error .unavailable)
  | some parsed =>
      if isHeaderValue log.project && (log.key.map isHeaderValue).getD true then
        .ask ⟨method, parsed.target, log.project, log.key, document⟩ fun
          | some reply => .done (next reply)
          | none => .done (.error .unavailable)
      else .done (.error .unavailable)

/-- Whether a status says that the request has failed. -/
def isFailureStatus (status : Nat) : Bool := 400 ≤ status && status < 600

/-- The answer to a request that has not failed, if it can be read. -/
def decoded {α : Type} (read : Text → Option α) (reply : Reply) : Outcome α :=
  if isFailureStatus reply.status then .error .unavailable
  else
    match read reply.body with
    | some value => .ok value
    | none => .error .unavailable

/-- The one value that an object has under a name. -/
def single? (members : List (Text × Json)) (name : String) : Option Json :=
  match members.filter fun entry => entry.1 = name.toList with
  | [entry] => some entry.2
  | _ => none

/-- The text that an object has under a name. -/
def textMember? (members : List (Text × Json)) (name : String) : Option Text :=
  match single? members name with
  | some (.string value) => some value
  | _ => none

/-- The integer of 64 bits that an object has under a name. -/
def integerMember? (members : List (Text × Json)) (name : String) : Option Int :=
  match single? members name with
  | some (.integer value) =>
      if -(Nat.pow 2 63 : Int) ≤ value ∧ value < (Nat.pow 2 63 : Int) then some value else none
  | _ => none

/-- The entry of a document.  Other members are passed over. -/
def entry? : Json → Option LogEntry
  | .object members => do
      let id ← textMember? members "$id"
      let operation ← textMember? members "operation"
      let result ← textMember? members "result"
      let timestamp ← integerMember? members "timestamp"
      return ⟨id, operation, result, timestamp⟩
  | _ => none

/-- The entry of the document that a text holds. -/
def readEntry? (text : Text) : Option LogEntry := do
  let document ← Json.read? text
  entry? document

/-- The entries of the listing that a text holds. -/
def readEntries? (text : Text) : Option (List LogEntry) :=
  let documents : Json.Field Json :=
    ⟨"documents".toList, fun text => Json.orMalformed (Json.valueWithin? (Json.deepest - 1) text)⟩
  match Json.readRecord [documents] text with
  | .ok [.array items] => items.mapM entry?
  | _ => none

/-- The document that stands for an entry. -/
def creation (entry : LogEntry) : Json :=
  .object
    [Json.member "documentId" (.string entry.id),
     Json.member "data" (.object
       [Json.member "operation" (.string entry.operation),
        Json.member "result" (.string entry.result),
        Json.member "timestamp" (.integer entry.timestamp)])]

/-- Creates a document, and has the entry as the server gives it back. -/
def create (log : RemoteLog) (entry : LogEntry) : Exchange (Outcome LogEntry) :=
  log.request .post log.documents (some (creation entry)) (decoded readEntry?)

/-- Entries in the order of their times, the latest first; those of the same
time stay in the order in which they are given. -/
def latestFirst (entries : List LogEntry) : List LogEntry :=
  entries.mergeSort fun a b => b.timestamp ≤ a.timestamp

/-- Lists the documents. -/
def list (log : RemoteLog) : Exchange (Outcome (List LogEntry)) :=
  log.request .get log.documents none fun reply =>
    (decoded readEntries? reply).map latestFirst

/-- What the answer to the deletion of a document says. -/
def deletion (reply : Reply) : Outcome Unit :=
  if reply.status = 404 then .error .notFound
  else if isFailureStatus reply.status then .error .unavailable
  else .ok ()

/-- Deletes the document of an id. -/
def delete (log : RemoteLog) (id : Text) : Exchange (Outcome Unit) :=
  log.request .delete (log.documents ++ '/' :: id) none deletion

/-- Deletes the documents of listed entries one after another, when `count`
have been deleted before.  A document that is gone already does not count, and
any other failure ends the course. -/
def deleteEach (log : RemoteLog) : List LogEntry → Nat → Exchange (Outcome Nat)
  | [], count => .done (.ok count)
  | entry :: rest, count => do
      match ← log.delete entry.id with
      | .ok () => log.deleteEach rest (count + 1)
      | .error .notFound => log.deleteEach rest count
      | .error .unavailable => return .error .unavailable

/-- Lists the documents and deletes each of them. -/
def deleteAll (log : RemoteLog) : Exchange (Outcome Nat) := do
  match ← log.list with
  | .ok entries => log.deleteEach entries 0
  | .error failure => return .error failure

/-- The remote log as a store, given what the server does. -/
def store {σ : Type} (log : RemoteLog) (server : Outgoing → σ → Option Reply × σ) :
    LogStore σ where
  create entry := (log.create entry).run server
  list := log.list.run server
  delete id := (log.delete id).run server
  deleteAll := log.deleteAll.run server

end RemoteLog

end Keypad
