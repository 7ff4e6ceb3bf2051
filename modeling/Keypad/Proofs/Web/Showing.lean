/-
Module: Keypad.Proofs.Web.Showing
Layer: proofs
Purpose: Which sessions the service keeps, and which ones its responses show.
Trusted boundary: none
Main exports:
  Response.Shows, Service.Typed, Service.ShowsTyped, Service.Typed.after,
  Service.handle_shown
-/
import Keypad.Proofs.Session.Contents
import Keypad.Proofs.Web.Run

namespace Keypad

/-! ### Responses that show a session -/

namespace Response

/-- A response shows a session: its document is that of the session, with the decision on a
key behind it if one was typed. -/
def Shows (response : Response) (session : Session) : Prop :=
  ∃ decision : Option Decision, response.content = .json (.object
    (sessionDocument session ++
      Json.member? "decision" (decision.map fun decision => .string decision.name)))

variable {response : Response} {session : Session}

/-- The document of a session shows it. -/
theorem shows_document (status : Nat) (session : Session) :
    (Response.document status (sessionDocument session)).Shows session :=
  ⟨none, by simp [document, Json.member?]⟩

theorem Shows.expression (shows : response.Shows session) :
    response.text? "expression" = some session.candidate := by
  obtain ⟨decision, shown⟩ := shows
  rw [text?, shown]
  rfl

theorem Shows.error (shows : response.Shows session) :
    response.text? "error" = session.failure.map Failure.message := by
  obtain ⟨decision, shown⟩ := shows
  obtain ⟨candidate, failure⟩ := session
  rw [text?, shown]
  cases failure <;> cases decision <;> rfl

theorem Shows.kind (shows : response.Shows session) :
    response.text? "kind" = session.failure.map Failure.kind := by
  obtain ⟨decision, shown⟩ := shows
  obtain ⟨candidate, failure⟩ := session
  rw [text?, shown]
  cases failure <;> cases decision <;> rfl

end Response

/-! ### What is shown has been brought about by keys -/

theorem Session.reachable_start : Session.start.Reachable := ⟨[], rfl⟩

namespace Service

variable {σ : Type} {store : LogStore σ} {limits : Limits} {moment : Moment}
  {request : Request} {key : SessionKey} {service : Service σ}

/-- All sessions of a service have been brought about by keys. -/
def Typed (service : Service σ) : Prop := service.sessions.Contains Session.Reachable

/-- A session that is shown has been brought about by keys, and so have all that are kept. -/
structure ShowsTyped (served : Served σ) : Prop where
  typed : served.2.Typed
  shown : served.1.content = .none ∨
    ∃ session : Session, session.Reachable ∧ served.1.Shows session

theorem Typed.view (typed : service.Typed) (key : SessionKey) (now : Instant) :
    (service.sessions.view limits key now).Reachable :=
  SessionTable.Contains.view typed Session.reachable_start key now

theorem bare_showsTyped (typed : service.Typed) (status : Nat) :
    ShowsTyped (.bare status, service) where
  typed := typed
  shown := .inl rfl

theorem serveView_showsTyped (typed : service.Typed) :
    ShowsTyped (service.serveView limits moment key) where
  typed := typed
  shown := .inr ⟨_, typed.view key moment.instant, Response.shows_document 200 _⟩

/-- A session is used by an action, and then shown. -/
theorem serveUse_showsTyped (typed : service.Typed)
    {use : Session → List (Text × Json) × Session} (action : Action)
    (acts : ∀ session, (use session).2 = session.act action)
    (shows : ∀ session, (Response.document 200 (use session).1).Shows (use session).2) :
    ShowsTyped (service.serveUse limits moment key use) := by
  have kept : (use (service.sessions.view limits key moment.instant)).2.Reachable := by
    rw [acts]
    exact (typed.view key moment.instant).act action
  exact ⟨SessionTable.Contains.use typed kept, .inr ⟨_, kept, shows _⟩⟩

theorem serveTypeKey_showsTyped (typed : service.Typed) (body : Text) :
    ShowsTyped (service.serveTypeKey limits moment key body) := by
  unfold serveTypeKey
  split
  · rename_i key _
    exact serveUse_showsTyped typed (.type key) (fun _ => rfl)
      fun session => ⟨some (session.type key).1, rfl⟩
  · exact bare_showsTyped typed 422
  · exact bare_showsTyped typed _

theorem serveDeleteLast_showsTyped (typed : service.Typed) :
    ShowsTyped (service.serveDeleteLast limits moment key) :=
  serveUse_showsTyped typed .deleteLast (fun _ => rfl) fun _ => Response.shows_document 200 _

theorem serveClear_showsTyped (typed : service.Typed) :
    ShowsTyped (service.serveClear key) where
  typed := SessionTable.Contains.remove typed key
  shown := .inr ⟨.start, Session.reachable_start, Response.shows_document 200 _⟩

/-- The answer to an evaluation shows the session that it leaves. -/
theorem serveEquals_response (service : Service σ) :
    (service.serveEquals store limits moment key).1 = .document 200 (sessionDocument
      (service.sessions.view limits key moment.instant).equals.2) := by
  unfold serveEquals
  dsimp only
  split <;> rfl

theorem serveEquals_showsTyped (typed : service.Typed) :
    ShowsTyped (service.serveEquals store limits moment key) := by
  have kept : (service.sessions.view limits key moment.instant).equals.2.Reachable :=
    (typed.view key moment.instant).act .equals
  constructor
  · rw [Typed, serveEquals_answersBy.sessions service]
    exact SessionTable.Contains.use typed kept
  · rw [serveEquals_response]
    exact .inr ⟨_, kept, Response.shows_document 200 _⟩

/-- A request without a key is refused. -/
theorem withKey_showsTyped (typed : service.Typed) {serve : SessionKey → Served σ}
    (each : ∀ key, ShowsTyped (serve key)) : ShowsTyped (service.withKey request serve) :=
  withKey_cases ShowsTyped (bare_showsTyped typed 400) fun key _ => each key

/-- Where a session is asked for, one that keys have brought about is shown. -/
theorem serve_showsTyped (typed : service.Typed) {route : Route}
    (ofSession : route.ofSession = true) :
    ShowsTyped (service.serve store limits moment request route) := by
  cases route with
  | viewSession => exact withKey_showsTyped typed fun key => serveView_showsTyped typed
  | typeKey => exact withKey_showsTyped typed fun key => serveTypeKey_showsTyped typed _
  | deleteLast => exact withKey_showsTyped typed fun key => serveDeleteLast_showsTyped typed
  | clear => exact withKey_showsTyped typed fun key => serveClear_showsTyped typed
  | equals => exact withKey_showsTyped typed fun key => serveEquals_showsTyped typed
  | _ => cases ofSession

/-- Requests keep all sessions such as keys have brought about. -/
theorem Typed.handle (typed : service.Typed) (moment : Moment) (request : Request) :
    (service.handle store limits moment request).2.Typed := by
  cases asked : request.route? with
  | none =>
      obtain ⟨status, handled⟩ := handle_of_no_route (σ := σ) asked
      rw [handled]
      exact typed
  | some route =>
      rw [handle_of_route asked]
      cases ofSession : route.ofSession with
      | true => exact (serve_showsTyped typed ofSession).typed
      | false =>
          rw [Typed, serve_sessions_of_other service ofSession]
          exact typed

theorem Typed.start (log : σ) : (Service.start log).Typed := SessionTable.Contains.empty

theorem Typed.after (typed : service.Typed) (arrivals : List Arrival) :
    (service.after store limits arrivals).Typed :=
  after_induction (fun _ typed => typed.handle) arrivals typed

/-- What the response to a request about a session shows has been brought about by keys. -/
theorem handle_shown (typed : service.Typed) {route : Route}
    (asked : request.route? = some route) (ofSession : route.ofSession = true) :
    (service.handle store limits moment request).1.content = .none ∨
      ∃ session : Session, session.Reachable ∧
        (service.handle store limits moment request).1.Shows session := by
  rw [handle_of_route asked, headOnly]
  split
  · exact .inl rfl
  · exact (serve_showsTyped typed ofSession).shown

end Service

end Keypad
