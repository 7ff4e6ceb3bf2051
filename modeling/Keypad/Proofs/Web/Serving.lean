/-
Module: Keypad.Proofs.Web.Serving
Layer: proofs
Purpose: What one request does to the sessions, and what the answer to it depends on.
Trusted boundary: none
Main exports:
  Request.route?, Request.sessionKey?, Request.used, Request.isOf, Response.text?,
  Service.AnswersBy, Service.Idle, Service.handle_cases
-/
import Keypad.Proofs.Session.Table
import Keypad.Web.Service

namespace Keypad

/-!
A request makes one call to the table of sessions, or none.  Which one it is can be told
from the request, and so can all of the answer but what is shown of the session.
-/

namespace Route

/-- Whether a session is what is asked for. -/
def ofSession : Route → Bool
  | .viewSession | .typeKey | .deleteLast | .clear | .equals => true
  | _ => false

/-- Whether a session is asked for in order to be used. -/
def usesSession : Route → Bool
  | .typeKey | .deleteLast | .equals => true
  | _ => false

end Route

namespace Request

/-- What a request asks for, if there is such a thing. -/
def route? (request : Request) : Option Route :=
  (Target.parse? request.target).bind (Route.serving? request)

/-- The key that a request names. -/
def sessionKey? (request : Request) : Option SessionKey :=
  request.sessionId.bind SessionKey.ofText?

/-- The key of the session that a request has used, as far as the answer tells. -/
def used (request : Request) (response : Response) : List SessionKey :=
  if request.route?.any Route.usesSession ∧ response.status = 200 then
    request.sessionKey?.toList
  else []

/-- Whether a request is one that a client makes about its session: it names the key of the
client, and it asks for a session, if for anything that there is. -/
def isOf (key : SessionKey) (request : Request) : Bool :=
  request.sessionKey? = some key && request.route?.all Route.ofSession

end Request

/-- The use of a session that a request has made at an instant, as far as the answer tells. -/
def Request.usesAt (instant : Instant) (request : Request) (response : Response) :
    List (Instant × SessionKey) :=
  (request.used response).map fun key => (instant, key)

/-- The text that the document of a response has under a name. -/
def Response.text? (response : Response) (name : String) : Option Text :=
  match response.content with
  | .json (.object members) =>
      match members.lookup name.toList with
      | some (.string text) => some text
      | _ => none
  | _ => none

/-! ### The routes -/

namespace Service

variable {σ : Type} {store : LogStore σ} {limits : Limits} {moment : Moment}
  {request : Request} {key : SessionKey}

theorem withKey_of_some (named : request.sessionKey? = some key) (service : Service σ)
    (serve : SessionKey → Served σ) : service.withKey request serve = serve key := by
  unfold Request.sessionKey? at named
  simp only [withKey, named]

theorem withKey_of_none (named : request.sessionKey? = none) (service : Service σ)
    (serve : SessionKey → Served σ) : service.withKey request serve = (.bare 400, service) := by
  unfold Request.sessionKey? at named
  simp only [withKey, named]

/-- What holds of the refusal and of what is served with the key that the request names. -/
theorem withKey_cases (holds : Served σ → Prop) {service : Service σ}
    {serve : SessionKey → Served σ} (refused : holds (.bare 400, service))
    (each : ∀ key, request.sessionKey? = some key → holds (serve key)) :
    holds (service.withKey request serve) := by
  cases named : request.sessionKey? with
  | none =>
      rw [withKey_of_none named]
      exact refused
  | some key =>
      rw [withKey_of_some named]
      exact each key named

/-- A body that cannot be read is refused. -/
theorem readBody_error {fields : List (Json.Field Text)} {body : Text} {status : Nat}
    (refused : readBody fields body = .error status) : status ≠ 200 := by
  unfold readBody at refused
  split at refused
  · cases refused
    decide
  · split at refused
    · cases refused
    · cases refused
      decide
    · cases refused
      decide

/-! ### What answers to requests do to the sessions -/

/-- An answer is given by one call to the table of sessions, and it depends on the session
that the key of the call names. -/
structure AnswersBy (limits : Limits) (moment : Moment) (answer : Service σ → Served σ)
    (asked : TableCall SessionKey) : Prop where
  status : ∀ service, (answer service).1.status = 200
  sessions : ∀ service,
    (answer service).2.sessions = (service.sessions.call limits moment.instant asked).2
  response : ∀ service other,
    service.sessions.view limits asked.key moment.instant =
        other.sessions.view limits asked.key moment.instant →
      (answer service).1 = (answer other).1

/-- An answer is a refusal, and nothing is done. -/
def Refuses (answer : Service σ → Served σ) : Prop :=
  ∃ status, status ≠ 200 ∧ ∀ service, answer service = (.bare status, service)

theorem AnswersBy.congr {answer other : Service σ → Served σ} {asked : TableCall SessionKey}
    (answers : AnswersBy limits moment other asked)
    (same : ∀ service, answer service = other service) :
    AnswersBy limits moment answer asked :=
  funext same ▸ answers

theorem Refuses.congr {answer other : Service σ → Served σ} (refuses : Refuses other)
    (same : ∀ service, answer service = other service) : Refuses answer :=
  funext same ▸ refuses

theorem serveView_answersBy :
    AnswersBy (σ := σ) limits moment (fun service => service.serveView limits moment key)
      (.view key) where
  status := fun _ => rfl
  sessions := fun _ => rfl
  response := fun service other same => by
    simp only [serveView, TableCall.key] at same ⊢
    rw [same]

theorem serveUse_answersBy (use : Session → List (Text × Json) × Session) :
    AnswersBy (σ := σ) limits moment (fun service => service.serveUse limits moment key use)
      (.use key fun session => (use session).2) where
  status := fun _ => rfl
  sessions := fun _ => rfl
  response := fun service other same => by
    simp only [serveUse, SessionTable.use_fst, TableCall.key] at same ⊢
    rw [same]

theorem serveDeleteLast_answersBy :
    AnswersBy (σ := σ) limits moment (fun service => service.serveDeleteLast limits moment key)
      (.use key Session.deleteLast) :=
  serveUse_answersBy _

theorem serveClear_answersBy :
    AnswersBy (σ := σ) limits moment (fun service => service.serveClear key)
      (.remove key) where
  status := fun _ => rfl
  sessions := fun _ => rfl
  response := fun _ _ _ => rfl

/-- Nothing but the session goes into the answer, whatever becomes of the record. -/
theorem serveEquals_answersBy :
    AnswersBy limits moment (fun service => service.serveEquals store limits moment key)
      (.use key fun session => session.equals.2) := by
  have first (service : Service σ) : (service.serveEquals store limits moment key).1 =
      .document 200 (sessionDocument
        (service.sessions.view limits key moment.instant).equals.2) := by
    unfold serveEquals
    dsimp only
    split <;> rfl
  constructor
  · intro service
    rw [first]
    rfl
  · intro service
    unfold serveEquals
    dsimp only
    split <;> rfl
  · intro service other same
    rw [first, first]
    simp only [TableCall.key] at same
    rw [same]

/-- A key is typed if it can be read. -/
theorem serveTypeKey_cases (limits : Limits) (moment : Moment) (key : SessionKey)
    (body : Text) :
    Refuses (σ := σ) (fun service => service.serveTypeKey limits moment key body) ∨
      ∃ change, AnswersBy (σ := σ) limits moment
        (fun service => service.serveTypeKey limits moment key body) (.use key change) := by
  unfold serveTypeKey
  cases read : readBody [.character "input"] body with
  | error status => exact .inl ⟨status, readBody_error read, fun _ => rfl⟩
  | ok values =>
      split
      · exact .inr ⟨_, serveUse_answersBy _⟩
      · exact .inl ⟨422, by decide, fun _ => rfl⟩
      · contradiction

/-- Where a session is asked for without a key, the request is refused. -/
theorem serve_refuses (unnamed : request.sessionKey? = none) {route : Route}
    (ofSession : route.ofSession = true) :
    Refuses fun service : Service σ => service.serve store limits moment request route := by
  refine ⟨400, by decide, fun service => ?_⟩
  cases route with
  | viewSession | typeKey | deleteLast | clear | equals =>
      exact withKey_of_none unnamed service _
  | _ => cases ofSession

/-- Where a session is asked for with a key, it is the session of this key that is used,
shown or removed. -/
theorem serve_cases (named : request.sessionKey? = some key) {route : Route}
    (ofSession : route.ofSession = true) :
    Refuses (fun service : Service σ => service.serve store limits moment request route) ∨
      ∃ asked, asked.key = key ∧
        asked.used = (if route.usesSession then [key] else []) ∧
        AnswersBy limits moment
          (fun service => service.serve store limits moment request route) asked := by
  cases route with
  | viewSession =>
      exact .inr ⟨.view key, rfl, rfl,
        serveView_answersBy.congr fun service => withKey_of_some named service _⟩
  | typeKey =>
      rcases serveTypeKey_cases limits moment key request.body with refuses | ⟨change, answers⟩
      · exact .inl (refuses.congr fun service => withKey_of_some named service _)
      · exact .inr ⟨.use key change, rfl, rfl,
          answers.congr fun service => withKey_of_some named service _⟩
  | deleteLast =>
      exact .inr ⟨.use key Session.deleteLast, rfl, rfl,
        serveDeleteLast_answersBy.congr fun service => withKey_of_some named service _⟩
  | clear =>
      exact .inr ⟨.remove key, rfl, rfl,
        serveClear_answersBy.congr fun service => withKey_of_some named service _⟩
  | equals =>
      exact .inr ⟨.use key fun session => session.equals.2, rfl, rfl,
        serveEquals_answersBy.congr fun service => withKey_of_some named service _⟩
  | _ => cases ofSession

theorem serveEvaluate_sessions (service : Service σ) (body : Text) :
    (service.serveEvaluate body).2.sessions = service.sessions := by
  unfold serveEvaluate
  split <;> rfl

theorem serveJudgeKey_sessions (service : Service σ) (body : Text) :
    (service.serveJudgeKey body).2.sessions = service.sessions := by
  unfold serveJudgeKey
  split <;> rfl

/-- Where no session is asked for, nothing becomes of the sessions. -/
theorem serve_sessions_of_other (service : Service σ) {route : Route}
    (other : route.ofSession = false) :
    (service.serve store limits moment request route).2.sessions = service.sessions := by
  cases route with
  | evaluate => exact serveEvaluate_sessions service request.body
  | judgeKey => exact serveJudgeKey_sessions service request.body
  | status | metrics | listLog | deleteEntry id | clearLog => rfl
  | _ => cases other

/-! ### What requests do to the sessions -/

theorem handle_of_route {route : Route} (asked : request.route? = some route)
    (service : Service σ) :
    service.handle store limits moment request =
      (headOnly request (service.serve store limits moment request route).1,
        (service.serve store limits moment request route).2) := by
  obtain ⟨target, parsed, serving⟩ := Option.bind_eq_some_iff.mp asked
  simp only [handle, parsed, serving]

theorem handle_of_no_route (asked : request.route? = none) :
    ∃ status, ∀ service : Service σ,
      service.handle store limits moment request = (.bare status, service) := by
  unfold Request.route? at asked
  cases parsed : Target.parse? request.target with
  | none => exact ⟨400, fun service => by simp only [handle, parsed]⟩
  | some target =>
      rw [parsed, Option.bind_some] at asked
      exact ⟨404, fun service => by simp only [handle, parsed, asked]⟩

theorem headOnly_status (request : Request) (response : Response) :
    (headOnly request response).status = response.status := by
  unfold headOnly
  split <;> rfl

/-- A request has nothing done to the sessions.  Where it is one about a session even so, the
answer is the same whatever state the service is in. -/
structure Idle (request : Request) (answer : Service σ → Served σ) : Prop where
  used : ∀ service, request.used (answer service).1 = []
  sessions : ∀ service, (answer service).2.sessions = service.sessions
  response : ∀ key, request.isOf key = true →
    ∀ service other, (answer service).1 = (answer other).1

/-- What is refused has nothing done. -/
theorem idle_of_refuses {route : Route} (asked : request.route? = some route)
    (refuses : Refuses fun service : Service σ =>
      service.serve store limits moment request route) :
    Idle request fun service : Service σ => service.handle store limits moment request := by
  obtain ⟨status, failed, refused⟩ := refuses
  have handled (service : Service σ) : service.handle store limits moment request =
      (headOnly request (.bare status), service) := by
    have served : service.serve store limits moment request route = (.bare status, service) :=
      refused service
    rw [handle_of_route asked, served]
  constructor
  · intro service
    rw [handled]
    exact if_neg fun success => failed ((headOnly_status request _).symm.trans success.2)
  · intro service
    rw [handled]
  · intro key _ service other
    rw [handled, handled]

theorem idle_of_no_route (asked : request.route? = none) :
    Idle request fun service : Service σ => service.handle store limits moment request := by
  obtain ⟨status, handled⟩ := handle_of_no_route (σ := σ) asked
  constructor
  · intro service
    simp [Request.used, asked]
  · intro service
    rw [handled]
  · intro key _ service other
    rw [handled, handled]

/-- What is not about a session has nothing done to the sessions. -/
theorem idle_of_other {route : Route} (asked : request.route? = some route)
    (other : route.ofSession = false) :
    Idle request fun service : Service σ => service.handle store limits moment request := by
  constructor
  · intro service
    have unused : route.usesSession = false := by
      cases route with
      | typeKey | deleteLast | equals => cases other
      | _ => rfl
    simp [Request.used, asked, unused]
  · intro service
    rw [handle_of_route asked]
    exact serve_sessions_of_other service other
  · intro key isOf
    simp [Request.isOf, asked, other] at isOf

/-- An answer without its body is given by the same call as the whole of it. -/
theorem AnswersBy.handle {route : Route} {call : TableCall SessionKey}
    (answers : AnswersBy limits moment
      (fun service : Service σ => service.serve store limits moment request route) call)
    (asked : request.route? = some route) :
    AnswersBy limits moment
      (fun service : Service σ => service.handle store limits moment request) call := by
  constructor
  · intro service
    rw [handle_of_route asked]
    exact (headOnly_status request _).trans (answers.status service)
  · intro service
    rw [handle_of_route asked]
    exact answers.sessions service
  · intro service other same
    rw [handle_of_route asked, handle_of_route asked]
    exact congrArg (headOnly request) (answers.response service other same)

/-- A request makes one call to the table of sessions, or none. -/
theorem handle_cases (store : LogStore σ) (limits : Limits) (moment : Moment)
    (request : Request) :
    Idle request (fun service => service.handle store limits moment request) ∨
      ∃ call, request.isOf call.key = true ∧
        (∀ response, response.status = 200 → request.used response = call.used) ∧
        AnswersBy limits moment
          (fun service => service.handle store limits moment request) call := by
  cases asked : request.route? with
  | none => exact .inl (idle_of_no_route asked)
  | some route =>
      cases ofSession : route.ofSession with
      | false => exact .inl (idle_of_other asked ofSession)
      | true =>
          cases named : request.sessionKey? with
          | none => exact .inl (idle_of_refuses asked (serve_refuses named ofSession))
          | some key =>
              rcases serve_cases named ofSession with refuses | ⟨call, rfl, used, answers⟩
              · exact .inl (idle_of_refuses asked refuses)
              · refine .inr ⟨call, ?_, fun response success => ?_, answers.handle asked⟩
                · simp [Request.isOf, named, asked, ofSession]
                · simp [Request.used, asked, named, success, used]

end Service

end Keypad
