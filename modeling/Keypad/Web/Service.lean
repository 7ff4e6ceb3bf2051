/-
Module: Keypad.Web.Service
Layer: web
Purpose: The service: its state, and its answer to a request.
Trusted boundary: none; the clock and fresh ids are arguments, and the store of
  the log may behave in any way.
Main exports: Service, Moment, Service.serve, Service.handle
-/
import Keypad.Json.Record
import Keypad.Log.Journal
import Keypad.Session.Table
import Keypad.Web.Answer
import Keypad.Web.Route

namespace Keypad

/-- What the service keeps between requests: the sessions, the state of the
store of the log, and the metrics. -/
structure Service (σ : Type) where
  sessions : SessionTable SessionKey
  log : σ
  metrics : Metrics

/-- What a request finds when it arrives: the instant, the time in seconds, and
an id that no entry of the log has had. -/
structure Moment where
  instant : Instant
  timestamp : Int
  freshId : Text
deriving DecidableEq, Repr

namespace Service

variable {σ : Type}

/-- A service to which no request has been made. -/
def start (log : σ) : Service σ := ⟨.empty, log, .empty⟩

/-- A response, and the service after it. -/
abbrev Served (σ : Type) := Response × Service σ

/-- Answers with a result that is counted under a label. -/
def answerMeasured (service : Service σ) (label : Label)
    (result : Except ServiceFailure Response) : Served σ :=
  let (result, metrics) := measured label result service.metrics
  (.ofResult result, { service with metrics := metrics })

/-- A label of the layer that serves requests. -/
def requestLabel (operation : String) : Label := .of "controller" operation

/-- The most octets that a document may have. -/
def largestBody : Nat := Nat.pow 2 20

/-- The fields of the document in a body, or the status of the refusal. -/
def readBody (fields : List (Json.Field Text)) (body : Text) : Except Nat (List Text) :=
  if largestBody < (Utf8.encode body).length then .error 413
  else
    match Json.readRecord fields body with
    | .ok values => .ok values
    | .error .malformed => .error 400
    | .error .unfitting => .error 422

/-- Evaluates the formula in the body. -/
def serveEvaluate (service : Service σ) (body : Text) : Served σ :=
  match readBody [.text "expression"] body with
  | .ok [formula] =>
      service.answerMeasured (requestLabel "evaluate") <|
        match evaluate formula with
        | .ok value => .ok <| .document 200
            [Json.member "value" (.double value), Json.member "result" (.string value.shown)]
        | .error failure => .error (.invalidFormula failure)
  | .ok _ => (.bare 422, service)
  | .error status => (.bare status, service)

/-- Decides on the key in the body, behind the text in the body. -/
def serveJudgeKey (service : Service σ) (body : Text) : Served σ :=
  match readBody [.text "candidate", .character "input"] body with
  | .ok [candidate, [key]] =>
      (.document 200 [Json.member "decision" (.string (accept candidate key).name)], service)
  | .ok _ => (.bare 422, service)
  | .error status => (.bare status, service)

/-- Runs a request that needs a session, with the key that it names. -/
def withKey (service : Service σ) (request : Request) (serve : SessionKey → Served σ) :
    Served σ :=
  match request.sessionId.bind SessionKey.ofText? with
  | some key => serve key
  | none => (.bare 400, service)

/-- Shows a session. -/
def serveView (service : Service σ) (limits : Limits) (moment : Moment) (key : SessionKey) :
    Served σ :=
  (.document 200 (sessionDocument (service.sessions.view limits key moment.instant)), service)

/-- Uses a session and answers with what the use gives. -/
def serveUse (service : Service σ) (limits : Limits) (moment : Moment) (key : SessionKey)
    (use : Session → List (Text × Json) × Session) : Served σ :=
  let (members, sessions) := service.sessions.use limits key moment.instant use
  (.document 200 members, { service with sessions := sessions })

/-- Types the key in the body. -/
def serveTypeKey (service : Service σ) (limits : Limits) (moment : Moment) (key : SessionKey)
    (body : Text) : Served σ :=
  match readBody [.character "input"] body with
  | .ok [[typed]] =>
      service.serveUse limits moment key fun session =>
        let (decision, session) := session.type typed
        (sessionDocument session ++ [Json.member "decision" (.string decision.name)], session)
  | .ok _ => (.bare 422, service)
  | .error status => (.bare status, service)

/-- Takes away the last character. -/
def serveDeleteLast (service : Service σ) (limits : Limits) (moment : Moment)
    (key : SessionKey) : Served σ :=
  service.serveUse limits moment key fun session =>
    (sessionDocument session.deleteLast, session.deleteLast)

/-- Forgets a session, so that the next use finds an empty one. -/
def serveClear (service : Service σ) (key : SessionKey) : Served σ :=
  (.document 200 (sessionDocument .start),
    { service with sessions := service.sessions.remove key })

/-- The entry of the log for a calculation. -/
def logEntry (moment : Moment) (calculation : Calculation) : LogEntry :=
  ⟨moment.freshId, calculation.operation, calculation.result, moment.timestamp⟩

/-- Has a calculation recorded in the log. -/
def record (service : Service σ) (store : LogStore σ) (moment : Moment)
    (calculation : Calculation) : Service σ :=
  let (log, metrics) := store.record (logEntry moment calculation) service.log service.metrics
  { service with log := log, metrics := metrics }

/-- Evaluates a session.  A calculation is recorded, and the response does not
depend on what becomes of the record. -/
def serveEquals (service : Service σ) (store : LogStore σ) (limits : Limits)
    (moment : Moment) (key : SessionKey) : Served σ :=
  let (result, sessions) := service.sessions.use limits key moment.instant fun session =>
    let (outcome, session) := session.equals
    ((sessionDocument session, outcome), session)
  let (members, outcome) := result
  let (response, service) := { service with sessions := sessions }.answerMeasured
    (requestLabel "session_equals") (.ok (.document 200 members))
  match outcome with
  | some (.ok calculation) => (response, service.record store moment calculation)
  | _ => (response, service)

/-- Asks the store of the log, and counts and answers with what it gives. -/
def askLog {α : Type} (service : Service σ) (operation : String)
    (asked : Except LogFailure α × σ) (respond : α → Response) : Served σ :=
  let (result, log) := asked
  { service with log := log }.answerMeasured (requestLabel operation)
    ((result.mapError ServiceFailure.ofLog).map respond)

/-- Lists the log. -/
def serveListLog (service : Service σ) (store : LogStore σ) : Served σ :=
  service.askLog "logs_list" (store.list service.log) fun entries =>
    ⟨200, .json (.array (entries.map entryDocument))⟩

/-- Deletes an entry of the log. -/
def serveDeleteEntry (service : Service σ) (store : LogStore σ) (id : Text) : Served σ :=
  service.askLog "logs_delete" (store.delete id service.log) fun _ => .bare 204

/-- Deletes all entries of the log. -/
def serveClearLog (service : Service σ) (store : LogStore σ) : Served σ :=
  service.askLog "logs_delete_all" (store.deleteAll service.log) fun count =>
    .document 200 [Json.member "deleted" (.integer count)]

/-- Serves a request by a route.  The key of a session is looked at before the
body. -/
def serve (service : Service σ) (store : LogStore σ) (limits : Limits) (moment : Moment)
    (request : Request) : Route → Served σ
  | .status => (.document 200 [Json.member "status" (.string "ok".toList)], service)
  | .metrics => (⟨200, .text service.metrics.exposition⟩, service)
  | .evaluate => service.serveEvaluate request.body
  | .judgeKey => service.serveJudgeKey request.body
  | .viewSession => service.withKey request fun key => service.serveView limits moment key
  | .typeKey => service.withKey request fun key =>
      service.serveTypeKey limits moment key request.body
  | .deleteLast => service.withKey request fun key => service.serveDeleteLast limits moment key
  | .clear => service.withKey request fun key => service.serveClear key
  | .equals => service.withKey request fun key => service.serveEquals store limits moment key
  | .listLog => service.serveListLog store
  | .deleteEntry id => service.serveDeleteEntry store id
  | .clearLog => service.serveClearLog store

/-- The answer to a request for the head of an answer has no body. -/
def headOnly (request : Request) (response : Response) : Response :=
  if request.effectiveMethod = .head then .bare response.status else response

/-- Answers a request.  What is no target is a bad request, and what no route
serves is not found. -/
def handle (service : Service σ) (store : LogStore σ) (limits : Limits) (moment : Moment)
    (request : Request) : Served σ :=
  match Target.parse? request.target with
  | none => (.bare 400, service)
  | some target =>
      match Route.serving? request target with
      | none => (.bare 404, service)
      | some route =>
          let (response, service) := service.serve store limits moment request route
          (headOnly request response, service)

end Service

end Keypad
