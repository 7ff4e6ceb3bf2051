/-
Module: Keypad.Proofs.Web.LogHistory
Layer: proofs
Purpose: The log that the service keeps in memory against the requests that were made.
Trusted boundary: none
Main exports:
  Service.calculated?, Service.logEvent?, Service.handle_log, Service.log_after,
  Service.Visit.Records, log_lists_history
-/
import Keypad.Proofs.Log.History
import Keypad.Proofs.Typing.Equals
import Keypad.Proofs.Web.Showing

namespace Keypad

/-- There is no value in a blank text. -/
theorem isBlank_eq_false_of_evaluate {text : Text} {value : Binary64}
    (evaluated : evaluate text = .ok value) : text.isBlank = false := by
  by_contra blank
  have spells : Spells (text ++ []) [] :=
    .blanks (List.all_eq_true.mp (Bool.eq_true_of_not_eq_false blank)) .nil
  rw [List.append_nil] at spells
  have scanned : Token.scan text = .ok [] := Token.scan_eq_ok_iff.mpr spells
  rw [evaluate, scanned] at evaluated
  cases evaluated

/-- Whether the store of the log is asked for anything. -/
def Route.asksStore : Route → Bool
  | .equals | .listLog | .deleteEntry _ | .clearLog => true
  | _ => false

namespace Service

variable {σ : Type} {store : LogStore σ} {limits : Limits}

/-! ### What a request makes of the log -/

/-- The entry for what a request calculates: what its session holds on arrival, and the
value of this as it is shown. -/
def calculated? (service : Service σ) (limits : Limits) (arrival : Arrival) :
    Option LogEntry :=
  match arrival.request.sessionKey? with
  | none => none
  | some key =>
      let held := (service.sessions.view limits key arrival.moment.instant).candidate
      match evaluate held with
      | .ok value => some ⟨arrival.moment.freshId, held, value.shown, arrival.moment.timestamp⟩
      | .error _ => none

/-- What a request makes of the log. -/
def logEvent? (service : Service σ) (limits : Limits) (arrival : Arrival) : Option LogEvent :=
  match arrival.request.route? with
  | some .equals => (service.calculated? limits arrival).map .created
  | some (.deleteEntry id) => some (.deleted id)
  | some .clearLog => some .cleared
  | _ => none

/-- A calculation is handed to the store. -/
theorem serveEquals_log_of_ok {service : Service σ} {moment : Moment} {key : SessionKey}
    {calculation : Calculation}
    (done : (service.sessions.view limits key moment.instant).equals.1 =
      some (.ok calculation)) :
    (service.serveEquals store limits moment key).2.log =
      (store.create (logEntry moment calculation) service.log).2 := by
  unfold serveEquals
  simp only [SessionTable.use_fst, done]
  rfl

/-- Without a calculation the store is not asked. -/
theorem serveEquals_log_of_not_ok {service : Service σ} {moment : Moment} {key : SessionKey}
    (failed : ∀ calculation, (service.sessions.view limits key moment.instant).equals.1 ≠
      some (.ok calculation)) :
    (service.serveEquals store limits moment key).2.log = service.log := by
  unfold serveEquals
  dsimp only
  split
  · rename_i calculation done
    exact absurd done (failed calculation)
  · rfl

/-- What is calculated is what the evaluation of the session comes to. -/
theorem calculated?_eq {service : Service σ} {moment : Moment} {request : Request}
    {key : SessionKey} (named : request.sessionKey? = some key) :
    service.calculated? limits ⟨moment, request⟩ =
      ((service.sessions.view limits key moment.instant).equals.1.bind Except.toOption).map
        (logEntry moment) := by
  simp only [calculated?, named]
  cases evaluated : evaluate (service.sessions.view limits key moment.instant).candidate with
  | ok value =>
      have done := Session.equals_of_ok (isBlank_eq_false_of_evaluate evaluated) evaluated
      rw [done]
      rfl
  | error failure =>
      cases blank : (service.sessions.view limits key moment.instant).candidate.isBlank with
      | true =>
          rw [Session.equals_of_isBlank blank]
          rfl
      | false =>
          rw [Session.equals_of_error blank evaluated]
          rfl

theorem serveEquals_log {service : Service Journal} {moment : Moment} {request : Request}
    {key : SessionKey} (named : request.sessionKey? = some key) :
    (service.serveEquals Journal.store limits moment key).2.log =
      service.log.recordAll
        ((service.calculated? limits ⟨moment, request⟩).map LogEvent.created).toList := by
  rw [calculated?_eq named]
  cases done : (service.sessions.view limits key moment.instant).equals.1 with
  | none => exact serveEquals_log_of_not_ok (by simp [done])
  | some outcome =>
      cases outcome with
      | ok calculation => exact serveEquals_log_of_ok done
      | error failure => exact serveEquals_log_of_not_ok (by simp [done])

/-- Where the store is not asked, nothing becomes of the log. -/
theorem serve_log_of_other {service : Service σ} {moment : Moment} {request : Request}
    {route : Route} (other : route.asksStore = false) :
    (service.serve store limits moment request route).2.log = service.log := by
  have keyed (serve : SessionKey → Served σ) (each : ∀ key, (serve key).2.log = service.log) :
      (service.withKey request serve).2.log = service.log :=
    withKey_cases (fun served => served.2.log = service.log) rfl fun key _ => each key
  cases route with
  | status | metrics => rfl
  | evaluate =>
      show (service.serveEvaluate request.body).2.log = service.log
      unfold serveEvaluate
      split <;> rfl
  | judgeKey =>
      show (service.serveJudgeKey request.body).2.log = service.log
      unfold serveJudgeKey
      split <;> rfl
  | viewSession => exact keyed _ fun _ => rfl
  | typeKey =>
      refine keyed _ fun key => ?_
      unfold serveTypeKey
      split <;> rfl
  | deleteLast => exact keyed _ fun _ => rfl
  | clear => exact keyed _ fun _ => rfl
  | _ => cases other

/-- An id without an entry is erased in vain. -/
theorem store_delete (journal : Journal) (id : Text) :
    (Journal.store.delete id journal).2 = journal.erase id := by
  by_cases holds : journal.holds id = true
  · exact congrArg Prod.snd (if_pos holds)
  · have absent : ∀ entry ∈ journal.entries, ¬decide (entry.id = id) = true := by
      intro entry member same
      exact holds (List.any_eq_true.mpr ⟨entry, member, same⟩)
    have kept : journal.erase id = journal := by
      unfold Journal.erase
      rw [List.eraseP_of_forall_not absent]
    rw [kept]
    exact congrArg Prod.snd (if_neg holds)

/-- A request puts on record what it makes of the log. -/
theorem handle_log (service : Service Journal) (moment : Moment) (request : Request) :
    (service.handle Journal.store limits moment request).2.log =
      service.log.recordAll (service.logEvent? limits ⟨moment, request⟩).toList := by
  unfold logEvent?
  cases asked : request.route? with
  | none =>
      obtain ⟨status, handled⟩ := handle_of_no_route (σ := Journal) asked
      rw [handled]
      rfl
  | some route =>
      rw [handle_of_route asked]
      cases route with
      | equals =>
          cases named : request.sessionKey? with
          | none =>
              simp only [calculated?, named]
              exact congrArg (fun served => served.2.log) (withKey_of_none named service _)
          | some key =>
              rw [← serveEquals_log named]
              exact congrArg (fun served => served.2.log) (withKey_of_some named service _)
      | deleteEntry id => exact store_delete service.log id
      | clearLog => rfl
      | listLog => rfl
      | _ => exact serve_log_of_other rfl

/-- What requests that arrive one after another make of the log. -/
def logEvents (service : Service Journal) (limits : Limits) (arrivals : List Arrival) :
    List LogEvent :=
  (service.visits Journal.store limits arrivals).filterMap fun visit =>
    visit.service.logEvent? limits visit.arrival

theorem logEvents_cons (service : Service Journal) (arrival : Arrival)
    (arrivals : List Arrival) :
    service.logEvents limits (arrival :: arrivals) =
      (service.logEvent? limits arrival).toList ++
        (service.handle Journal.store limits arrival.moment arrival.request).2.logEvents limits
          arrivals := by
  rw [logEvents, visits_cons, List.filterMap_cons]
  cases service.logEvent? limits arrival <;> rfl

/-- Requests put on record what they make of the log. -/
theorem log_after (arrivals : List Arrival) :
    ∀ service : Service Journal,
      (service.after Journal.store limits arrivals).log =
        service.log.recordAll (service.logEvents limits arrivals) := by
  induction arrivals with
  | nil =>
      intro service
      rfl
  | cons arrival arrivals inductionHypothesis =>
      intro service
      rw [after_cons, inductionHypothesis, handle_log, logEvents_cons, Journal.recordAll_append]

/-! ### The requests behind the entries -/

namespace Visit

/-- A request about a session is one to evaluate it, and what the session holds on arrival is
evaluated and goes on record with its result. -/
structure Records (limits : Limits) (visit : Visit σ) (entry : LogEntry) : Prop where
  route : visit.arrival.request.route? = some .equals
  held : ∃ key, visit.arrival.request.sessionKey? = some key ∧ entry.operation =
    (visit.service.sessions.view limits key visit.arrival.moment.instant).candidate
  significant : entry.operation ≠ []
  evaluated : ∃ value, evaluate entry.operation = .ok value ∧ entry.result = value.shown
  id : entry.id = visit.arrival.moment.freshId
  timestamp : entry.timestamp = visit.arrival.moment.timestamp

/-- A request is one to delete the entry of an id, or all entries. -/
def Deletes (visit : Visit σ) (id : Text) : Prop :=
  visit.arrival.request.route? = some (.deleteEntry id) ∨
    visit.arrival.request.route? = some .clearLog

variable {visit : Visit σ} {entry : LogEntry}

/-- An empty text has no value. -/
theorem ne_nil_of_evaluate {text : Text} {value : Binary64}
    (evaluated : evaluate text = .ok value) : text ≠ [] := by
  rintro rfl
  cases isBlank_eq_false_of_evaluate evaluated

theorem records_iff :
    visit.service.logEvent? limits visit.arrival = some (.created entry) ↔
      visit.Records limits entry := by
  constructor
  · intro created
    unfold logEvent? at created
    split at created
    · rename_i asked
      obtain ⟨calculated, calculates, same⟩ := Option.map_eq_some_iff.mp created
      cases same
      unfold calculated? at calculates
      split at calculates
      · cases calculates
      · rename_i key named
        dsimp only at calculates
        split at calculates
        · rename_i value evaluated
          cases calculates
          exact ⟨asked, ⟨key, named, rfl⟩, ne_nil_of_evaluate evaluated,
            ⟨value, evaluated, rfl⟩, rfl, rfl⟩
        · cases calculates
    · cases created
    · cases created
    · cases created
  · rintro ⟨asked, ⟨key, named, held⟩, _, ⟨value, evaluated, shown⟩, id, timestamp⟩
    obtain ⟨entryId, operation, result, entryTimestamp⟩ := entry
    dsimp only at held evaluated shown id timestamp
    subst held shown id timestamp
    simp only [logEvent?, asked, calculated?, named, evaluated, Option.map_some]

theorem deletes_iff {id : Text} :
    (∃ event, visit.service.logEvent? limits visit.arrival = some event ∧
      event.removes id = true) ↔ visit.Deletes id := by
  unfold logEvent? Deletes
  split
  · rename_i asked
    simp [asked, LogEvent.removes]
  · rename_i other asked
    simp [asked, LogEvent.removes]
  · rename_i asked
    simp [asked, LogEvent.removes]
  · rename_i notDeletes notClears
    apply iff_of_false
    · rintro ⟨event, nothing, removes⟩
      cases nothing
    · rintro (deletes | clears)
      · exact notDeletes id deletes
      · exact notClears clears

/-- The response to an evaluation that goes on record shows the result. -/
theorem Records.response {visit : Visit σ} {arrivals : List Arrival} {service : Service σ}
    (records : visit.Records limits entry)
    (member : visit ∈ service.visits store limits arrivals) :
    visit.response.status = 200 ∧ visit.response.text? "expression" = some entry.result := by
  obtain ⟨asked, ⟨key, named, held⟩, _, ⟨value, evaluated, shown⟩, _, _⟩ := records
  have notGet : Route.equals.method ≠ .get := by decide
  have served : visit.service.serve store limits visit.arrival.moment visit.arrival.request
      .equals = visit.service.serveEquals store limits visit.arrival.moment key :=
    withKey_of_some named visit.service _
  rw [held] at evaluated
  have done := Session.equals_of_ok (isBlank_eq_false_of_evaluate evaluated) evaluated
  rw [response_of_mem_visits member, handle_of_route asked, headOnly_eq_self asked notGet, served,
    serveEquals_response, done, shown]
  exact ⟨rfl, (Response.shows_document 200 _).expression⟩

end Visit

/-! ### The log on request -/

/-- The entries are created with the fresh ids of the requests. -/
theorem createdIds_sublist (arrivals : List Arrival) :
    ∀ service : Service Journal,
      ((service.logEvents limits arrivals).filterMap LogEvent.createdId?).Sublist
        (arrivals.map fun arrival => arrival.moment.freshId) := by
  induction arrivals with
  | nil =>
      intro service
      exact .slnil
  | cons arrival arrivals inductionHypothesis =>
      intro service
      rw [logEvents_cons, List.filterMap_append]
      have first : ((service.logEvent? limits arrival).toList.filterMap
          LogEvent.createdId?).Sublist [arrival.moment.freshId] := by
        cases makes : service.logEvent? limits arrival with
        | none => exact List.nil_sublist _
        | some event =>
            cases event with
            | created entry =>
                have records : (Visit.mk service arrival (.bare 200)).Records limits entry :=
                  Visit.records_iff.mp makes
                rw [← records.id]
                exact .refl _
            | deleted id => exact List.nil_sublist _
            | cleared => exact List.nil_sublist _
      exact first.append (inductionHypothesis _)

/-- What stands of the log are the entries of requests that no later request has deleted. -/
theorem mem_standing_logEvents_iff {service : Service Journal} {arrivals : List Arrival}
    {entry : LogEntry} :
    entry ∈ LogEvent.standing (service.logEvents limits arrivals) ↔
      ∃ before visit later, service.visits Journal.store limits arrivals =
          before ++ visit :: later ∧
        visit.Records limits entry ∧ ∀ other ∈ later, ¬other.Deletes entry.id := by
  rw [LogEvent.mem_standing_iff]
  constructor
  · rintro ⟨earlierEvents, laterEvents, parts, stays⟩
    obtain ⟨front, back, visits, _, events⟩ := List.filterMap_eq_append_iff.mp parts
    obtain ⟨between, visit, later, rfl, _, creates, rfl⟩ := List.filterMap_eq_cons_iff.mp events
    refine ⟨front ++ between, visit, later, ?_, Visit.records_iff.mp creates, ?_⟩
    · rw [visits, List.append_assoc]
    · intro other member deletes
      have taken : ∃ event, other.service.logEvent? limits other.arrival = some event ∧
          event.removes entry.id = true := Visit.deletes_iff.mpr deletes
      obtain ⟨event, makes, removes⟩ := taken
      have inLater : event ∈ later.filterMap fun visit =>
          visit.service.logEvent? limits visit.arrival :=
        List.mem_filterMap.mpr ⟨other, member, makes⟩
      exact List.any_eq_false.mp stays event inLater removes
  · rintro ⟨before, visit, later, parts, records, kept⟩
    rw [logEvents, parts, List.filterMap_append, List.filterMap_cons,
      Visit.records_iff.mpr records]
    refine ⟨_, _, rfl, List.any_eq_false.mpr fun event inLater removes => ?_⟩
    obtain ⟨other, member, makes⟩ := List.mem_filterMap.mp inLater
    have deletes : other.Deletes entry.id := Visit.deletes_iff.mp ⟨event, makes, removes⟩
    exact kept other member deletes

end Service

/-- The log is exactly the history of the calculations.  When all ids are different, it lists,
the latest first, one entry for each request that has evaluated what its session held, so
that this had a value, and that was not followed by a request to delete the entry.  The
entry has what was held for its operation, and for its result the value as it is shown,
which is what this request was answered with. -/
theorem log_lists_history (limits : Limits) {arrivals : List Arrival}
    (fresh : (arrivals.map fun arrival => arrival.moment.freshId).Nodup) :
    let service := Service.start Journal.empty
    let entries := LogEvent.standing (service.logEvents limits arrivals)
    (∀ moment request, request.route? = some .listLog → request.method = .get →
      ((service.after Journal.store limits arrivals).handle Journal.store limits moment
        request).1 = ⟨200, .json (.array (entries.reverse.map entryDocument))⟩) ∧
    (entries.map LogEntry.id).Sublist (arrivals.map fun arrival => arrival.moment.freshId) ∧
    (∀ entry, entry ∈ entries ↔
      ∃ before visit later, service.visits Journal.store limits arrivals =
          before ++ visit :: later ∧
        visit.Records limits entry ∧ ∀ other ∈ later, ¬other.Deletes entry.id) ∧
    ∀ visit ∈ service.visits Journal.store limits arrivals, ∀ entry,
      visit.Records limits entry →
        visit.response.status = 200 ∧ visit.response.text? "expression" = some entry.result := by
  intro service entries
  have created : ((service.logEvents limits arrivals).filterMap LogEvent.createdId?).Sublist
      (arrivals.map fun arrival => arrival.moment.freshId) :=
    Service.createdIds_sublist arrivals service
  have held : (service.after Journal.store limits arrivals).log.entries = entries := by
    rw [Service.log_after]
    apply Journal.entries_recordAll
    exact created.nodup fresh
  refine ⟨fun moment request asked get => ?_, ?_, fun entry => Service.mem_standing_logEvents_iff,
    fun visit member entry records => records.response member⟩
  · have whole : request.effectiveMethod ≠ .head := by
      rw [Request.effectiveMethod, if_neg (by simp [get]), get]
      decide
    rw [Service.handle_of_route asked, Service.headOnly, if_neg whole, ← held]
    rfl
  · exact (LogEvent.standing_ids_sublist _).trans created

/-- Two clients of a service in which a session lives for ten milliseconds.  Three formulas
are evaluated; one of them has no value, and the first entry is deleted again.  The
session of the first client has expired when it is evaluated once more. -/
def loggedArrivals : List Arrival :=
  let arrival (instant : Instant) (freshId : String) (method : Method) (id path body : String) :
      Arrival :=
    ⟨⟨instant, 0, freshId.toList⟩, method, ("/api/v1/" ++ path).toList, some id.toList,
      some "application/json".toList, body.toList⟩
  [arrival 0 "r" .post "a" "session/input" "\x7b\"input\":\"7\"\x7d",
   arrival 1 "s" .post "a" "session/equals" "",
   arrival 2 "t" .post "b" "session/input" "\x7b\"input\":\"-\"\x7d",
   arrival 3 "u" .post "b" "session/equals" "",
   arrival 4 "v" .post "b" "session/input" "\x7b\"input\":\"2\"\x7d",
   arrival 5 "w" .post "b" "session/equals" "",
   arrival 6 "x" .delete "b" "logs/%73" "",
   arrival 7 "y" .post "b" "session/equals" "",
   arrival 20 "z" .post "a" "session/equals" ""]

theorem log_lists_history_shared :
    let service := Service.start Journal.empty
    let limits : Limits := ⟨10, 5⟩
    (loggedArrivals.map fun arrival => arrival.moment.freshId).Nodup ∧
    ((service.after Journal.store limits loggedArrivals).handle Journal.store limits
        ⟨21, 0, []⟩ ⟨.get, "/api/v1/logs".toList, none, none, []⟩).1 =
      ⟨200, .json (.array
        [entryDocument ⟨['y'], "-2".toList, "-2".toList, 0⟩,
         entryDocument ⟨['w'], "-2".toList, "-2".toList, 0⟩])⟩ := by
  intro service limits
  have fresh : (loggedArrivals.map fun arrival => arrival.moment.freshId).Nodup := by
    decide +kernel
  have stands : LogEvent.standing (service.logEvents limits loggedArrivals) =
      [⟨['w'], "-2".toList, "-2".toList, 0⟩, ⟨['y'], "-2".toList, "-2".toList, 0⟩] := by
    decide +kernel
  obtain ⟨lists, _⟩ := log_lists_history limits fresh
  have listed := lists ⟨21, 0, []⟩ ⟨.get, "/api/v1/logs".toList, none, none, []⟩
    (by decide +kernel) rfl
  rw [stands] at listed
  exact ⟨fresh, listed⟩

end Keypad
