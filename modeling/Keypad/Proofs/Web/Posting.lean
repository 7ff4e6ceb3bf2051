/-
Module: Keypad.Proofs.Web.Posting
Layer: proofs
Purpose: The failure that is shown beside a formula, and the answer to posting this formula.
Trusted boundary: none
Main exports:
  Request.Posts, Request.posting, Request.posting_posts, Request.posting_refused,
  Request.Types, Request.Types.view_after, Service.handle_equals, failure_belongs_to_text
-/
import Keypad.Proofs.Json.PlainText
import Keypad.Proofs.Text.Utf8
import Keypad.Proofs.Typing.StoredFailure
import Keypad.Proofs.Web.Showing

namespace Keypad

/-! ### Posting a formula -/

/-- A request asks for a formula to be evaluated: it is what is read from the body. -/
structure Request.Posts (request : Request) (formula : Text) : Prop where
  route : request.route? = some .evaluate
  body : Service.readBody [.text "expression"] request.body = .ok [formula]

/-- The request that posts a formula as it is written. -/
def Request.posting (formula : Text) : Request :=
  ⟨.post, "/api/v1/evaluate".toList, none, some "application/json".toList,
    Json.textRecord "expression".toList formula⟩

theorem Request.posting_route? (formula : Text) :
    (posting formula).route? = some .evaluate := by
  have target : Target.parse? "/api/v1/evaluate".toList =
      some ⟨["api".toList, "v1".toList, "evaluate".toList]⟩ := by decide +kernel
  have mediaType : (posting formula).mediaType? =
      some ⟨"application".toList, "json".toList⟩ := by
    show MediaType.parse? "application/json".toList = _
    decide +kernel
  have method : (posting formula).effectiveMethod = .post := by
    unfold effectiveMethod
    rw [mediaType]
    rfl
  have json : (posting formula).declaresJson = true := by
    unfold declaresJson
    rw [mediaType]
    rfl
  have parsed : Target.parse? (posting formula).target =
      some ⟨["api".toList, "v1".toList, "evaluate".toList]⟩ := target
  rw [route?, parsed, Option.bind_some, Route.serving?, method, json]
  rfl

/-- The formula is read back from the request that posts it, unless it is too long for a body. -/
theorem Request.posting_posts {formula : Text} (plain : ∀ c ∈ formula, Json.isPlain c = true)
    (fits : (Utf8.encode (posting formula).body).length ≤ Service.largestBody) :
    (posting formula).Posts formula where
  route := posting_route? formula
  body := by
    have plainName : ∀ c ∈ "expression".toList, Json.isPlain c = true := by
      simp [Json.isPlain]
    have read : Json.readRecord [.text "expression"] (posting formula).body = .ok [formula] :=
      Json.readRecord_textRecord plainName plain
    rw [Service.readBody, if_neg (Nat.not_lt.mpr fits), read]

/-- A formula that fails to evaluate is answered with its failure. -/
theorem Request.Posts.answer {σ : Type} {request : Request} {formula : Text} {failure : Failure}
    (posts : request.Posts formula) (failed : evaluate formula = .error failure)
    (service : Service σ) (store : LogStore σ) (limits : Limits) (moment : Moment) :
    (service.handle store limits moment request).1 =
      .document 400 [Json.member "message" (.string failure.message),
        Json.member "kind" (.string failure.kind)] := by
  have notGet : Route.method .evaluate ≠ .get := by decide
  rw [Service.handle_of_route posts.route, Service.headOnly_eq_self posts.route notGet]
  simp only [Service.serve, Service.serveEvaluate, posts.body, failed]
  rfl

/-- The texts that keys bring about stand in a document as they are. -/
theorem Typeable.isPlain {text : Text} (typeable : Typeable text) :
    ∀ c ∈ text, Json.isPlain c = true := by
  intro c member
  rcases typeable.keys c member with digit | symbol
  · have printable : '0'.toNat ≤ c.toNat := by
      simp only [Char.isDigit, Bool.and_eq_true, decide_eq_true_eq] at digit
      exact digit.1
    have notQuote : c ≠ '"' := by rintro rfl; cases digit
    have notEscape : c ≠ '\\' := by rintro rfl; cases digit
    have visible : 0x20 ≤ c.toNat := Nat.le_trans (by decide) printable
    simp [Json.isPlain, notQuote, notEscape, visible]
  · simp only [List.mem_cons, List.not_mem_nil, or_false] at symbol
    rcases symbol with rfl | rfl | rfl | rfl | rfl | rfl | rfl <;> decide

/-- A formula that alone is as long as a body may be is too long to be posted. -/
theorem Request.posting_refused {σ : Type} {formula : Text}
    (long : Service.largestBody ≤ formula.length) (service : Service σ) (store : LogStore σ)
    (limits : Limits) (moment : Moment) :
    (service.handle store limits moment (posting formula)).1 = .bare 413 := by
  have longer : formula.length < (posting formula).body.length := by
    simp only [posting, Json.textRecord, List.length_cons, List.length_append]
    omega
  have octets := Utf8.length_le (posting formula).body
  have refused : Service.readBody [.text "expression"] (posting formula).body = .error 413 :=
    if_pos (by omega)
  have notGet : Route.method .evaluate ≠ .get := by decide
  rw [Service.handle_of_route (posting_route? formula),
    Service.headOnly_eq_self (posting_route? formula) notGet]
  simp only [Service.serve, Service.serveEvaluate, refused]

/-! ### Requests that type and evaluate -/

/-- A request types a key for a session: it is what is read from the body. -/
structure Request.Types (request : Request) (key : SessionKey) (typed : Char) : Prop where
  route : request.route? = some .typeKey
  named : request.sessionKey? = some key
  body : Service.readBody [.character "input"] request.body = .ok [[typed]]

section Typing

variable {σ : Type} {store : LogStore σ} {limits : Limits} {key : SessionKey} {typed : Char}

/-- What a request types is on view as long as the session is live. -/
theorem Request.Types.view_handle {request : Request} (types : request.Types key typed)
    (service : Service σ) {moment : Moment} {later : Instant}
    (soon : later - moment.instant < limits.idle) :
    (service.handle store limits moment request).2.sessions.view limits key later =
      (service.sessions.view limits key moment.instant).act (.type typed) := by
  rw [Service.handle_of_route types.route]
  simp only [Service.serve, Service.withKey_of_some types.named, Service.serveTypeKey, types.body,
    Service.serveUse]
  exact SessionTable.view_use_self service.sessions key soon _

/-- A key that is typed again and again at an instant. -/
theorem Request.Types.view_after {arrival : Arrival} (types : arrival.request.Types key typed)
    (idle : 0 < limits.idle) (count : Nat) :
    ∀ service : Service σ,
      (service.after store limits (List.replicate count arrival)).sessions.view limits key
          arrival.moment.instant =
        (service.sessions.view limits key arrival.moment.instant).after
          (List.replicate count (.type typed)) := by
  have soon : arrival.moment.instant - arrival.moment.instant < limits.idle := by
    rw [Nat.sub_self]
    exact idle
  induction count with
  | zero => exact fun _ => rfl
  | succ count inductionHypothesis =>
      intro service
      rw [List.replicate_succ, Service.after_cons, inductionHypothesis,
        types.view_handle service soon]
      rfl

/-- A request to evaluate a session is answered with what the evaluation leaves. -/
theorem Service.handle_equals {request : Request} (asked : request.route? = some .equals)
    (named : request.sessionKey? = some key) (service : Service σ) (moment : Moment) :
    (service.handle store limits moment request).1 = .document 200 (sessionDocument
      (service.sessions.view limits key moment.instant).equals.2) := by
  have notGet : Route.method .equals ≠ .get := by decide
  rw [handle_of_route asked, headOnly_eq_self asked notGet]
  simp only [serve, withKey_of_some named]
  exact serveEquals_response service

end Typing

/-! ### A formula that is too long to post -/

/-- Points are accepted one behind another, however many they are. -/
theorem Session.after_points (count : Nat) :
    start.after (List.replicate count (.type '.')) = ⟨List.replicate count '.', none⟩ := by
  induction count with
  | zero => rfl
  | succ count inductionHypothesis =>
      rw [List.replicate_succ', after_concat, inductionHypothesis, List.replicate_succ']
      rfl

/-- There is no number among points. -/
theorem evaluate_points {count : Nat} (nonzero : count ≠ 0) :
    ∃ fault, evaluate (List.replicate count '.') = .error (.syntaxError fault) := by
  have points : ∀ c ∈ List.replicate count '.', c = '.' := fun c => List.eq_of_mem_replicate
  have maximal : MaximalRun [] (List.replicate count '.') [] :=
    .atStart (by simp [nonzero]) (fun c member => .inr (points c member)) nofun
  have broken : BrokenRun (List.replicate count '.') :=
    .noDigit fun c member => points c member ▸ rfl
  have failed := evaluate_of_broken maximal broken
  rw [List.append_nil] at failed
  exact failed

/-- A point is typed. -/
def pointArrival : Arrival :=
  clientArrival 0 .post "a" "session/input" "\x7b\"input\":\".\"\x7d"

/-- What has been typed is evaluated. -/
def equalsArrival : Arrival := clientArrival 0 .post "a" "session/equals" ""

theorem pointArrival_types : pointArrival.request.Types ⟨['a'], rfl⟩ '.' where
  route := by decide +kernel
  named := by decide +kernel
  body := by decide +kernel

/-- Points come to be shown with their failure, however many they are. -/
theorem points_are_shown {σ : Type} (store : LogStore σ) {limits : Limits} (log : σ)
    (idle : 0 < limits.idle) {count : Nat} (nonzero : count ≠ 0) :
    ∃ failure, evaluate (List.replicate count '.') = .error failure ∧
      ∃ exchange ∈ (Service.start log).conversation store limits
          (List.replicate count pointArrival ++ [equalsArrival]),
        exchange.1 = equalsArrival ∧
          exchange.2.Shows ⟨List.replicate count '.', some failure⟩ := by
  let typed := (Service.start log).after store limits (List.replicate count pointArrival)
  have asked : equalsArrival.request.route? = some .equals := by decide +kernel
  have named : equalsArrival.request.sessionKey? = some ⟨['a'], rfl⟩ := by decide +kernel
  obtain ⟨fault, failed⟩ := evaluate_points nonzero
  have view : typed.sessions.view limits ⟨['a'], rfl⟩ 0 = ⟨List.replicate count '.', none⟩ := by
    rw [← Session.after_points count]
    exact pointArrival_types.view_after idle count (.start log)
  have significant : Text.isBlank (List.replicate count '.') = false := by
    rw [Text.isBlank, List.all_replicate, if_neg nonzero]
    rfl
  have left : (typed.sessions.view limits ⟨['a'], rfl⟩ 0).equals.2 =
      ⟨List.replicate count '.', some (.syntaxError fault)⟩ := by
    rw [view, Session.equals_of_error significant failed]
  have answer : (typed.handle store limits equalsArrival.moment equalsArrival.request).1 =
      .document 200 (sessionDocument ⟨List.replicate count '.', some (.syntaxError fault)⟩) :=
    left ▸ typed.handle_equals asked named equalsArrival.moment
  refine ⟨.syntaxError fault, failed, (equalsArrival, _), ?_, rfl,
    answer ▸ Response.shows_document 200 _⟩
  rw [Service.conversation_append]
  exact List.mem_append_right _ List.mem_cons_self

/-! ### The failure on display -/

/-- A stored failure always belongs to the text on display: it is what this text, which is not
empty, evaluates to.  It is stored exactly when an evaluation that fails with it was the
last thing done.  So when the response to a request about a session carries a failure, then
whoever posts the formula beside it is answered with the same failure; and it can be posted
as it is written, if it is not too long for a body. -/
theorem failure_belongs_to_text :
    (∀ (actions : List Action) (failure : Failure),
      ((Session.start.after actions).failure = some failure →
        (Session.start.after actions).candidate ≠ [] ∧
          evaluate (Session.start.after actions).candidate = .error failure) ∧
      ((Session.start.after actions).failure = some failure ↔
        Session.start.EndsFailing actions failure)) ∧
    ∀ {σ : Type} (store : LogStore σ) (limits : Limits) (log : σ) (arrivals : List Arrival),
      ∀ exchange ∈ (Service.start log).conversation store limits arrivals,
      ∀ route, exchange.1.request.route? = some route → route.ofSession = true →
      ∀ message kind, exchange.2.text? "error" = some message →
        exchange.2.text? "kind" = some kind →
        ∃ formula, exchange.2.text? "expression" = some formula ∧
          ((Utf8.encode (Request.posting formula).body).length ≤ Service.largestBody →
            (Request.posting formula).Posts formula) ∧
          ∀ request : Request, request.Posts formula →
            ∀ {τ : Type} (service : Service τ) (store : LogStore τ) (limits : Limits)
              (moment : Moment),
              (service.handle store limits moment request).1 =
                .document 400 [Json.member "message" (.string message),
                  Json.member "kind" (.string kind)] := by
  constructor
  · intro actions failure
    exact ⟨Session.Reachable.evaluate_eq_error ⟨actions, rfl⟩,
      Session.after_failure_iff actions failure⟩
  · intro σ store limits log arrivals exchange member route asked ofSession message kind
      carriesMessage carriesKind
    obtain ⟨before, _, answered⟩ := Service.mem_conversation member
    have typed : ((Service.start log).after store limits before).Typed :=
      (Service.Typed.start log).after before
    have shown : exchange.2.content = .none ∨
        ∃ session : Session, session.Reachable ∧ exchange.2.Shows session :=
      answered ▸ Service.handle_shown typed asked ofSession
    rcases shown with silent | ⟨session, reachable, shows⟩
    · rw [Response.text?, silent] at carriesMessage
      cases carriesMessage
    · rw [shows.error, Option.map_eq_some_iff] at carriesMessage
      obtain ⟨failure, stored, rfl⟩ := carriesMessage
      rw [shows.kind, stored] at carriesKind
      cases carriesKind
      obtain ⟨_, failed⟩ := reachable.evaluate_eq_error stored
      exact ⟨session.candidate, shows.expression,
        Request.posting_posts reachable.typeable.isPlain,
        fun request posts τ service => posts.answer failed service⟩

/-- A division by zero is typed and evaluated.  The session is then shown again, after an
evaluation of another one, in which there is nothing to evaluate. -/
def divisionArrivals : List Arrival :=
  let arrival (instant : Instant) (method : Method) (id path body : String) : Arrival :=
    ⟨⟨instant, 0, []⟩, method, ("/api/v1/session" ++ path).toList, some id.toList,
      some "application/json".toList, body.toList⟩
  [arrival 0 .post "a" "/input" "\x7b\"input\":\"1\"\x7d",
   arrival 1 .post "a" "/input" "\x7b\"input\":\"/\"\x7d",
   arrival 2 .post "a" "/input" "\x7b\"input\":\"0\"\x7d",
   arrival 3 .post "a" "/equals" "",
   arrival 4 .post "b" "/equals" "",
   arrival 5 .get "a" "" ""]

theorem failure_belongs_to_text_division :
    let typed : List Action := [.type '1', .type '/', .type '0', .equals]
    let service := Service.start Journal.empty
    let limits : Limits := ⟨1000, 5⟩
    (Session.start.after typed).failure = some .divisionByZero ∧
    Session.start.EndsFailing typed .divisionByZero ∧
    ∃ exchange ∈ service.conversation Journal.store limits divisionArrivals,
      exchange.1.request.route? = some .viewSession ∧
      exchange.2.text? "error" = some "Division By Zero".toList ∧
      exchange.2.text? "kind" = some "division_by_zero".toList ∧
      exchange.2.text? "expression" = some "1/0".toList ∧
      (service.handle Journal.store limits ⟨6, 0, []⟩ (Request.posting "1/0".toList)).1 =
        .document 400 [Json.member "message" (.string "Division By Zero".toList),
          Json.member "kind" (.string "division_by_zero".toList)] := by
  intro typed service limits
  have stored : (Session.start.after typed).failure = some .divisionByZero := by decide +kernel
  have shown : ((service.conversation Journal.store limits divisionArrivals)[5]?.map
      fun exchange => (exchange.1.request.route?, exchange.2.text? "error",
        exchange.2.text? "kind", exchange.2.text? "expression")) =
      some (some .viewSession, some "Division By Zero".toList, some "division_by_zero".toList,
        some "1/0".toList) := by
    decide +kernel
  obtain ⟨exchange, last, shown⟩ := Option.map_eq_some_iff.mp shown
  obtain ⟨asked, message, kind, expression⟩ := by simpa only [Prod.mk.injEq] using shown
  have member := List.mem_of_getElem? last
  obtain ⟨formula, same, posts, answer⟩ := failure_belongs_to_text.2 Journal.store limits
    Journal.empty divisionArrivals exchange member .viewSession asked rfl _ _ message kind
  cases expression.symm.trans same
  exact ⟨stored, (failure_belongs_to_text.1 typed .divisionByZero).2.mp stored, exchange, member,
    asked, message, kind, expression, answer _ (posts (by decide +kernel)) service _ _ _⟩

/-- Not every formula that fails can be posted for the same failure: one of as many points as a
body may have octets is on display with its failure, and posting it is refused for its length. -/
theorem long_failure_is_refused :
    let arrivals := List.replicate Service.largestBody pointArrival ++ [equalsArrival]
    let limits : Limits := ⟨1000, 5⟩
    ∃ exchange ∈ (Service.start Journal.empty).conversation Journal.store limits arrivals,
      exchange.1.request.route? = some .equals ∧
      ∃ formula failure, exchange.2.text? "expression" = some formula ∧
        exchange.2.text? "error" = some (Failure.message failure) ∧
        exchange.2.text? "kind" = some (Failure.kind failure) ∧
        evaluate formula = .error failure ∧
        ∀ (service : Service Journal) (moment : Moment),
          (service.handle Journal.store limits moment (Request.posting formula)).1 =
            .bare 413 := by
  intro arrivals limits
  have nonzero : Service.largestBody ≠ 0 := by decide
  have idle : 0 < limits.idle := by decide
  obtain ⟨failure, failed, exchange, member, asked, shows⟩ :=
    points_are_shown Journal.store Journal.empty idle nonzero
  have long : Service.largestBody ≤ (List.replicate Service.largestBody '.').length :=
    Nat.le_of_eq (List.length_replicate ..).symm
  refine ⟨exchange, member, ?_, _, failure, shows.expression, shows.error, shows.kind, failed,
    fun service moment => Request.posting_refused long service _ _ moment⟩
  rw [asked]
  decide +kernel

end Keypad
