/-
Module: Keypad.Proofs.Web.Accounting
Layer: proofs
Purpose: What the metrics say of the requests that have been made.
Trusted boundary: none
Main exports:
  Metrics.tally_update, Tally.Grows, Metrics.countAll, Request.operation?, Service.Visit.works,
  Service.handle_metrics, Service.Accounts, metrics_account_for_work
-/
import Keypad.Proofs.Web.LogHistory

namespace Keypad

/-! ### Counting -/

namespace Metrics

/-- The entries of a label are replaced, and those of other labels stay. -/
theorem lookup_map_replace (tallies : List (Label × Tally)) (label other : Label)
    (changed : Tally) :
    (tallies.map fun entry => if entry.1 = label then (label, changed) else entry).lookup other =
      if other = label then (tallies.lookup label).map fun _ => changed
      else tallies.lookup other := by
  induction tallies with
  | nil =>
      split <;> rfl
  | cons entry tallies inductionHypothesis =>
      rw [List.map_cons, List.lookup_cons, List.lookup_cons, inductionHypothesis]
      grind

/-- A label is in use when something is found under it. -/
theorem any_eq_isSome_lookup (tallies : List (Label × Tally)) (label : Label) :
    (tallies.any fun entry => entry.1 = label) = (tallies.lookup label).isSome := by
  induction tallies with
  | nil => rfl
  | cons entry tallies inductionHypothesis =>
      rw [List.any_cons, List.lookup_cons, inductionHypothesis]
      by_cases same : label = entry.1
      · simp [same]
      · simp [Ne.symm same, beq_false_of_ne same]

/-- Only the tally of the label is changed. -/
theorem tally_update (metrics : Metrics) (label other : Label) (change : Tally → Tally) :
    (metrics.update label change).tally other =
      if other = label then change (metrics.tally label) else metrics.tally other := by
  unfold update tally
  rw [any_eq_isSome_lookup]
  cases found : metrics.tallies.lookup label with
  | some tally =>
      rw [Option.isSome_some, if_pos rfl, lookup_map_replace, found]
      split <;> rfl
  | none =>
      rw [Option.isSome_none, if_neg Bool.false_ne_true, List.lookup_append, List.lookup_cons,
        List.lookup_nil]
      by_cases same : other = label
      · subst same
        simp [found]
      · simp [same, beq_false_of_ne same]

/-- Counts runs of operations, each with whether it has failed. -/
def countAll (metrics : Metrics) (works : List (Label × Bool)) : Metrics :=
  works.foldl (fun metrics work => metrics.count work.1 work.2) metrics

end Metrics

namespace Tally

/-- A tally has grown by a number of runs, of which some have failed. -/
structure Grows (before after : Tally) (runs failures : Nat) : Prop where
  timed : after.timed = before.timed + runs
  failure : after.failure = before.failure + failures
  success : ∃ successes, after.success = before.success + successes ∧
    successes + failures = runs

theorem Grows.refl (tally : Tally) : tally.Grows tally 0 0 := ⟨rfl, rfl, 0, rfl, rfl⟩

theorem Grows.trans {before between after : Tally} {runs failures laterRuns laterFailures : Nat}
    (first : before.Grows between runs failures)
    (later : between.Grows after laterRuns laterFailures) :
    before.Grows after (runs + laterRuns) (failures + laterFailures) := by
  obtain ⟨timed, failure, successes, success, balance⟩ := first
  obtain ⟨laterTimed, laterFailure, laterSuccesses, laterSuccess, laterBalance⟩ := later
  exact ⟨by omega, by omega, successes + laterSuccesses, by omega, by omega⟩

/-- Without a run nothing has grown. -/
theorem Grows.eq_of_none {before after : Tally} (grows : before.Grows after 0 0) :
    after = before := by
  obtain ⟨success, failure, timed⟩ := before
  obtain ⟨laterSuccess, laterFailure, laterTimed⟩ := after
  obtain ⟨sameTimed, sameFailure, successes, grown, balance⟩ := grows
  have none : successes = 0 := by omega
  simp_all

end Tally

namespace Metrics

/-- One run of one operation is counted. -/
theorem tally_count (metrics : Metrics) (label other : Label) (failed : Bool) :
    (metrics.tally other).Grows ((metrics.count label failed).tally other)
      (if other = label then 1 else 0) (if other = label ∧ failed then 1 else 0) := by
  unfold count
  rw [tally_update]
  by_cases same : other = label
  · subst same
    cases failed with
    | false => exact ⟨by simp, by simp, 1, by simp⟩
    | true => exact ⟨by simp, by simp, 0, by simp⟩
  · simp only [same, if_false, false_and]
    exact .refl _

/-- Every tally grows by the runs under its label, and by the failures among them. -/
theorem tally_countAll (works : List (Label × Bool)) (label : Label) :
    ∀ metrics : Metrics, (metrics.tally label).Grows ((metrics.countAll works).tally label)
      (works.countP fun work => label = work.1)
      (works.countP fun work => label = work.1 ∧ work.2) := by
  induction works with
  | nil => exact fun metrics => .refl _
  | cons work works inductionHypothesis =>
      intro metrics
      have first := tally_count metrics work.1 label work.2
      have later := inductionHypothesis (metrics.count work.1 work.2)
      rw [List.countP_cons, List.countP_cons, Nat.add_comm, Nat.add_comm (List.countP _ _)]
      simp only [decide_eq_true_eq]
      exact first.trans later

end Metrics

/-! ### The work of a request -/

/-- The operation that a request has run, if it comes to one that is counted.  What is refused
before has run none. -/
def Request.operation? (request : Request) : Option String :=
  match request.route? with
  | some .evaluate =>
      match Service.readBody [.text "expression"] request.body with
      | .ok [_] => some "evaluate"
      | _ => none
  | some .equals => request.sessionKey?.map fun _ => "session_equals"
  | some .listLog => some "logs_list"
  | some (.deleteEntry _) => some "logs_delete"
  | some .clearLog => some "logs_delete_all"
  | _ => none

namespace Service

variable {σ : Type} {store : LogStore σ} {limits : Limits} {moment : Moment}
  {request : Request} {service : Service σ}

namespace Visit

/-- Whether the request has run an operation. -/
def runs (operation : String) (visit : Visit σ) : Bool :=
  visit.arrival.request.operation? = some operation

/-- Whether the request has run an operation and was answered with a failure of the service. -/
def fails (operation : String) (visit : Visit σ) : Bool :=
  visit.runs operation && visit.response.status = 500

/-- The entry that the request has had written to the log, if it has evaluated a session
and this had a value. -/
def recorded? (limits : Limits) (visit : Visit σ) : Option LogEntry :=
  match visit.service.logEvent? limits visit.arrival with
  | some (.created entry) => some entry
  | _ => none

theorem recorded?_eq_some_iff {visit : Visit σ} {entry : LogEntry} :
    visit.recorded? limits = some entry ↔ visit.Records limits entry := by
  rw [← records_iff]
  unfold recorded?
  split <;> simp_all

/-- Whether the store has failed to write the entry. -/
def writeFails (store : LogStore σ) (limits : Limits) (visit : Visit σ) : Bool :=
  (visit.recorded? limits).any fun entry => !(store.create entry visit.service.log).1.isOk

/-- What an evaluation of a session calculates is recorded. -/
theorem recorded?_of_equals {visit : Visit σ}
    (asked : visit.arrival.request.route? = some .equals) :
    visit.recorded? limits = visit.service.calculated? limits visit.arrival := by
  unfold recorded? logEvent?
  rw [asked]
  cases visit.service.calculated? limits visit.arrival <;> rfl

/-- Only the evaluation of a session has anything recorded. -/
theorem operation?_of_recorded? {visit : Visit σ} {entry : LogEntry}
    (recorded : visit.recorded? limits = some entry) :
    visit.arrival.request.operation? = some "session_equals" := by
  obtain ⟨asked, ⟨key, named, _⟩, _⟩ := recorded?_eq_some_iff.mp recorded
  simp only [Request.operation?, asked, named, Option.map_some]

/-- A store that fails to create an entry does not say that this is not there. -/
theorem writeFails_eq (creates : ∀ entry log, (store.create entry log).1 ≠ .error .notFound)
    {visit : Visit σ} {entry : LogEntry} (recorded : visit.recorded? limits = some entry) :
    visit.writeFails store limits = isFailure (store.create entry visit.service.log).1 := by
  rw [writeFails, recorded, Option.any_some]
  cases created : (store.create entry visit.service.log).1 with
  | ok _ => rfl
  | error failure =>
      cases failure with
      | notFound => exact absurd created (creates entry visit.service.log)
      | unavailable => rfl

/-- What is counted for the request. -/
def works (store : LogStore σ) (limits : Limits) (visit : Visit σ) : List (Label × Bool) :=
  (visit.arrival.request.operation?.map fun operation =>
      (requestLabel operation, decide (visit.response.status = 500))).toList ++
    ((visit.recorded? limits).map fun _ => (recordLabel, visit.writeFails store limits)).toList

/-- Where no operation is run nothing is counted. -/
theorem works_of_uncounted {visit : Visit σ}
    (uncounted : visit.arrival.request.operation? = none) : visit.works store limits = [] := by
  have unrecorded : visit.recorded? limits = none := by
    apply Option.eq_none_iff_forall_ne_some.mpr
    intro entry recorded
    cases uncounted.symm.trans (operation?_of_recorded? recorded)
  rw [works, uncounted, unrecorded]
  rfl

end Visit

/-- A failure counts as one of the service when it is answered as such. -/
theorem answerMeasured_metrics (service : Service σ) (label : Label)
    {result : Except ServiceFailure Response}
    (fine : ∀ response, result = .ok response → response.status ≠ 500) :
    (service.answerMeasured label result).2.metrics =
      service.metrics.count label
        (decide ((service.answerMeasured label result).1.status = 500)) := by
  cases result with
  | ok response =>
      have notFailed : decide (response.status = 500) = false := decide_eq_false (fine response rfl)
      show service.metrics.count label false = service.metrics.count label (decide _)
      rw [← notFailed]
      rfl
  | error failure => cases failure <;> rfl

/-- What is asked of the log is counted as a failure when it is answered as one. -/
theorem askLog_metrics {α : Type} (service : Service σ) (operation : String)
    (asked : Except LogFailure α × σ) {respond : α → Response}
    (fine : ∀ value, (respond value).status ≠ 500) :
    (service.askLog operation asked respond).2.metrics =
      service.metrics.count (requestLabel operation)
        (decide ((service.askLog operation asked respond).1.status = 500)) := by
  apply answerMeasured_metrics
  intro response responds
  obtain ⟨result, log⟩ := asked
  cases result with
  | ok value =>
      cases responds
      exact fine value
  | error failure => cases responds

/-- An evaluation is counted, and it is never a failure of the service. -/
theorem serveEvaluate_metrics {body formula : Text} (service : Service σ)
    (read : readBody [.text "expression"] body = .ok [formula]) :
    (service.serveEvaluate body).2.metrics =
      service.metrics.count (requestLabel "evaluate")
        (decide ((service.serveEvaluate body).1.status = 500)) := by
  unfold serveEvaluate
  rw [read]
  apply answerMeasured_metrics
  intro response responds
  split at responds
  · cases responds
    show (200 : Nat) ≠ 500
    decide
  · cases responds

/-- The evaluation of a session is counted, and then the record of it if there is one. -/
theorem serveEquals_metrics {service : Service σ} {moment : Moment} {request : Request}
    {key : SessionKey} (named : request.sessionKey? = some key) :
    (service.serveEquals store limits moment key).2.metrics =
      (service.metrics.count (requestLabel "session_equals") false).countAll
        ((service.calculated? limits ⟨moment, request⟩).map fun entry =>
          (recordLabel, isFailure (store.create entry service.log).1)).toList := by
  rw [calculated?_eq named]
  unfold serveEquals
  simp only [SessionTable.use_fst]
  cases (service.sessions.view limits key moment.instant).equals.1 with
  | none => rfl
  | some outcome => cases outcome <;> rfl

/-- Where no operation is run the metrics stay. -/
theorem serve_metrics_of_uncounted {route : Route} (asked : request.route? = some route)
    (uncounted : request.operation? = none) :
    (service.serve store limits moment request route).2.metrics = service.metrics := by
  have keyed (serve : SessionKey → Served σ)
      (each : ∀ key, request.sessionKey? = some key → (serve key).2.metrics = service.metrics) :
      (service.withKey request serve).2.metrics = service.metrics :=
    withKey_cases (fun served => served.2.metrics = service.metrics) rfl each
  simp only [Request.operation?, asked] at uncounted
  cases route with
  | status | metrics => rfl
  | evaluate =>
      show (service.serveEvaluate request.body).2.metrics = service.metrics
      unfold serveEvaluate
      split
      · rename_i formula read
        rw [read] at uncounted
        cases uncounted
      · rfl
      · rfl
  | judgeKey =>
      show (service.serveJudgeKey request.body).2.metrics = service.metrics
      unfold serveJudgeKey
      split <;> rfl
  | viewSession => exact keyed _ fun _ _ => rfl
  | typeKey =>
      refine keyed _ fun key _ => ?_
      unfold serveTypeKey
      split <;> rfl
  | deleteLast => exact keyed _ fun _ _ => rfl
  | clear => exact keyed _ fun _ _ => rfl
  | equals =>
      refine keyed _ fun key named => ?_
      rw [named] at uncounted
      cases uncounted
  | listLog | deleteEntry | clearLog => cases uncounted

/-- An operation is counted, as a failure if it is answered as one. -/
theorem serve_metrics_of_counted {route : Route} (asked : request.route? = some route)
    {operation : String} (counted : request.operation? = some operation)
    (other : route ≠ .equals) :
    (service.serve store limits moment request route).2.metrics =
      service.metrics.count (requestLabel operation)
        (decide ((service.serve store limits moment request route).1.status = 500)) := by
  simp only [Request.operation?, asked] at counted
  cases route with
  | evaluate =>
      dsimp only at counted
      split at counted
      · rename_i formula read
        cases counted
        exact serveEvaluate_metrics service read
      · cases counted
  | listLog =>
      cases counted
      exact askLog_metrics service _ _ fun _ => Nat.ne_of_lt (by decide : 200 < 500)
  | deleteEntry id =>
      cases counted
      exact askLog_metrics service _ _ fun _ => Nat.ne_of_lt (by decide : 204 < 500)
  | clearLog =>
      cases counted
      exact askLog_metrics service _ _ fun _ => Nat.ne_of_lt (by decide : 200 < 500)
  | equals => exact absurd rfl other
  | _ => cases counted

/-- The evaluation of a session is counted, and then the record of it. -/
theorem serve_metrics_of_equals
    (creates : ∀ entry log, (store.create entry log).1 ≠ .error .notFound)
    (asked : request.route? = some .equals) {key : SessionKey}
    (named : request.sessionKey? = some key) :
    let served := service.serve store limits moment request .equals
    served.2.metrics =
      service.metrics.countAll (Visit.works store limits ⟨service, ⟨moment, request⟩, served.1⟩) := by
  intro served
  let visit : Visit σ := ⟨service, ⟨moment, request⟩, served.1⟩
  have serves : served = service.serveEquals store limits moment key :=
    withKey_of_some named service _
  have success : served.1.status = 200 := by
    rw [serves, serveEquals_response]
    rfl
  have counted : request.operation? = some "session_equals" := by
    simp only [Request.operation?, asked, named, Option.map_some]
  have works : visit.works store limits = (requestLabel "session_equals", false) ::
      ((service.calculated? limits ⟨moment, request⟩).map fun entry =>
        (recordLabel, isFailure (store.create entry service.log).1)).toList := by
    have recorded : visit.recorded? limits = service.calculated? limits ⟨moment, request⟩ :=
      Visit.recorded?_of_equals asked
    rw [Visit.works, recorded, counted, success]
    cases calculates : service.calculated? limits ⟨moment, request⟩ with
    | none => rfl
    | some entry =>
        rw [Option.map_some, Option.map_some,
          Visit.writeFails_eq creates (recorded.trans calculates)]
        rfl
  rw [works, serves]
  exact serveEquals_metrics named

/-- What is served has its work counted. -/
theorem serve_metrics (creates : ∀ entry log, (store.create entry log).1 ≠ .error .notFound)
    {route : Route} (asked : request.route? = some route) :
    let served := service.serve store limits moment request route
    served.2.metrics =
      service.metrics.countAll (Visit.works store limits ⟨service, ⟨moment, request⟩, served.1⟩) := by
  intro served
  let visit : Visit σ := ⟨service, ⟨moment, request⟩, served.1⟩
  show served.2.metrics = service.metrics.countAll (visit.works store limits)
  cases counted : request.operation? with
  | none =>
      have none : visit.works store limits = [] := Visit.works_of_uncounted counted
      rw [none]
      exact serve_metrics_of_uncounted asked counted
  | some operation =>
      by_cases equals : route = .equals
      · subst equals
        cases named : request.sessionKey? with
        | none => simp [Request.operation?, asked, named] at counted
        | some key => exact serve_metrics_of_equals creates asked named
      · have unrecorded : visit.recorded? limits = none := by
          apply Option.eq_none_iff_forall_ne_some.mpr
          intro entry recorded
          have onlyEquals := (Visit.recorded?_eq_some_iff.mp recorded).route
          exact equals (Option.some.inj (asked.symm.trans onlyEquals))
        rw [Visit.works, unrecorded, counted]
        exact serve_metrics_of_counted asked counted equals

/-- A request has its work counted. -/
theorem handle_metrics (creates : ∀ entry log, (store.create entry log).1 ≠ .error .notFound)
    (service : Service σ) (arrival : Arrival) :
    let served := service.handle store limits arrival.moment arrival.request
    served.2.metrics =
      service.metrics.countAll (Visit.works store limits ⟨service, arrival, served.1⟩) := by
  intro served
  cases asked : arrival.request.route? with
  | none =>
      have kept : served.2.metrics = service.metrics := by
        obtain ⟨status, handled⟩ := handle_of_no_route asked
        exact congrArg (fun served => served.2.metrics) (handled service)
      have uncounted : arrival.request.operation? = none := by
        simp only [Request.operation?, asked]
      rw [Visit.works_of_uncounted uncounted]
      exact kept
  | some route =>
      have handled : served = _ := handle_of_route asked service
      rw [handled, Visit.works, headOnly_status]
      exact serve_metrics creates asked

/-! ### The labels -/

theorem requestLabel_inj {operation other : String} :
    requestLabel operation = requestLabel other ↔ operation = other := by
  constructor
  · intro same
    exact String.toList_injective (congrArg Label.operation same)
  · exact congrArg requestLabel

theorem requestLabel_ne_recordLabel (operation : String) :
    requestLabel operation ≠ recordLabel := by
  intro same
  have layers : "controller".toList = "sink".toList := congrArg Label.layer same
  exact absurd layers (by decide)

namespace Visit

/-- At most one operation is counted for a request, and at most one record. -/
theorem countP_works (counts : Label × Bool → Bool) (visit : Visit σ) :
    (visit.works store limits).countP counts =
      (if visit.arrival.request.operation?.any fun operation =>
          counts (requestLabel operation, decide (visit.response.status = 500)) then 1 else 0) +
      (if (visit.recorded? limits).isSome && counts (recordLabel, visit.writeFails store limits)
        then 1 else 0) := by
  rw [works, List.countP_append]
  cases visit.arrival.request.operation? <;> cases visit.recorded? limits <;>
    simp [List.countP_cons]

/-- The runs of an operation under a label, and the failures among them, are those of visits. -/
structure CountedBy (store : LogStore σ) (limits : Limits) (label : Label)
    (runs fails : Visit σ → Bool) : Prop where
  runs : ∀ visit, (works store limits visit).countP (fun work => label = work.1) =
    if runs visit then 1 else 0
  fails : ∀ visit, (works store limits visit).countP (fun work => label = work.1 ∧ work.2) =
    if fails visit then 1 else 0

/-- Under the label of an operation its runs are counted. -/
theorem countedBy_requestLabel (operation : String) :
    CountedBy store limits (requestLabel operation) (runs operation) (fails operation) := by
  have notRecord := requestLabel_ne_recordLabel operation
  constructor
  · intro visit
    rw [countP_works, runs]
    cases visit.arrival.request.operation? <;>
      simp [notRecord, requestLabel_inj, eq_comm (a := operation)]
  · intro visit
    rw [countP_works, fails, runs]
    cases visit.arrival.request.operation? <;>
      simp [notRecord, requestLabel_inj, eq_comm (a := operation)]

/-- Under its own label the writing of records is counted. -/
theorem countedBy_recordLabel :
    CountedBy store limits recordLabel (fun visit => (visit.recorded? limits).isSome)
      (writeFails store limits) := by
  have notRequest (operation : String) : recordLabel ≠ requestLabel operation :=
    (requestLabel_ne_recordLabel operation).symm
  constructor
  · intro visit
    rw [countP_works]
    simp [notRequest]
  · intro visit
    rw [countP_works, writeFails]
    cases visit.recorded? limits <;> simp [notRequest]

/-- Under any other label nothing is counted. -/
theorem countedBy_other {label : Label} (notRequest : ∀ operation, label ≠ requestLabel operation)
    (notRecord : label ≠ recordLabel) :
    CountedBy store limits label (fun _ => false) (fun _ => false) where
  runs visit := by simp [countP_works, notRequest, notRecord]
  fails visit := by simp [countP_works, notRequest, notRecord]

end Visit

/-! ### The account of a run -/

/-- A tally grows by the visits that are counted under its label. -/
theorem tally_after (creates : ∀ entry log, (store.create entry log).1 ≠ .error .notFound)
    {label : Label} {runs fails : Visit σ → Bool}
    (counted : Visit.CountedBy store limits label runs fails) (arrivals : List Arrival) :
    ∀ service : Service σ,
      (service.metrics.tally label).Grows
        ((service.after store limits arrivals).metrics.tally label)
        ((service.visits store limits arrivals).countP runs)
        ((service.visits store limits arrivals).countP fails) := by
  induction arrivals with
  | nil => exact fun service => .refl _
  | cons arrival arrivals inductionHypothesis =>
      intro service
      let served := service.handle store limits arrival.moment arrival.request
      let visit : Visit σ := ⟨service, arrival, served.1⟩
      have first : (service.metrics.tally label).Grows (served.2.metrics.tally label)
          (if runs visit then 1 else 0) (if fails visit then 1 else 0) := by
        have step : served.2.metrics = service.metrics.countAll (visit.works store limits) :=
          handle_metrics creates service arrival
        rw [step, ← counted.runs visit, ← counted.fails visit]
        exact Metrics.tally_countAll _ label _
      rw [after_cons, visits_cons, List.countP_cons, List.countP_cons, Nat.add_comm,
        Nat.add_comm (List.countP fails _)]
      exact first.trans (inductionHypothesis served.2)

/-- The metrics are an account of the requests that have been made. -/
structure Accounts (store : LogStore σ) (limits : Limits) (service : Service σ)
    (arrivals : List Arrival) : Prop where
  /-- An operation is counted for the requests that have come to it, and as failed for those
  that were answered with a failure of the service. -/
  operations : ∀ operation,
    (service.metrics.tally (requestLabel operation)).Grows
      ((service.after store limits arrivals).metrics.tally (requestLabel operation))
      ((service.visits store limits arrivals).countP (Visit.runs operation))
      ((service.visits store limits arrivals).countP (Visit.fails operation))
  /-- A record is counted for the evaluations of sessions that had a value, and as failed for
  those that could not be written to the log. -/
  records : (service.metrics.tally recordLabel).Grows
    ((service.after store limits arrivals).metrics.tally recordLabel)
    ((service.visits store limits arrivals).countP fun visit => (visit.recorded? limits).isSome)
    ((service.visits store limits arrivals).countP (Visit.writeFails store limits))
  /-- Nothing else is counted. -/
  others : ∀ label, (∀ operation, label ≠ requestLabel operation) → label ≠ recordLabel →
    (service.after store limits arrivals).metrics.tally label = service.metrics.tally label
  /-- A formula without a value is a mistake of the caller. -/
  formulas : ∀ visit ∈ service.visits store limits arrivals, ∀ formula failure,
    visit.arrival.request.route? = some .evaluate →
      readBody [.text "expression"] visit.arrival.request.body = .ok [formula] →
      evaluate formula = .error failure → visit.response.status = 400
  /-- So is an id that the log does not have. -/
  ids : ∀ visit ∈ service.visits store limits arrivals, ∀ id,
    visit.arrival.request.route? = some (.deleteEntry id) →
      (store.delete id visit.service.log).1 = .error .notFound → visit.response.status = 404

theorem accounts (creates : ∀ entry log, (store.create entry log).1 ≠ .error .notFound)
    (arrivals : List Arrival) (service : Service σ) :
    service.Accounts store limits arrivals where
  operations operation :=
    tally_after creates (Visit.countedBy_requestLabel operation) arrivals service
  records := tally_after creates Visit.countedBy_recordLabel arrivals service
  others := by
    intro label notRequest notRecord
    have counted : Visit.CountedBy store limits label (fun _ => false) (fun _ => false) :=
      Visit.countedBy_other notRequest notRecord
    have grows := tally_after creates counted arrivals service
    rw [List.countP_false] at grows
    exact grows.eq_of_none
  formulas := by
    intro visit member formula failure asked read failed
    rw [response_of_mem_visits member, handle_of_route asked, headOnly_status]
    simp only [serve, serveEvaluate, read, failed]
    rfl
  ids := by
    intro visit member id asked notFound
    rw [response_of_mem_visits member, handle_of_route asked, headOnly_status]
    simp only [serve, serveDeleteEntry, askLog, notFound]
    rfl

end Service

/-- The metrics are an exact account of the work done.  In any run of requests to a service
that keeps its log in memory or whose log is out of order, the tally of every operation grows
by the requests that came to it: as failures those answered with status 500, among which are
neither formulas without a value nor unknown ids, and as successes all others.  The tally
of records grows by the evaluations of sessions that had a value: as failures those that
could not be written.  What was refused before is counted nowhere. -/
theorem metrics_account_for_work (limits : Limits) (arrivals : List Arrival) :
    (∀ service : Service Journal, service.Accounts Journal.store limits arrivals) ∧
    ∀ σ, ∀ service : Service σ, service.Accounts (.unavailable σ) limits arrivals :=
  ⟨Service.accounts nofun arrivals, fun _ => Service.accounts nofun arrivals⟩

/-- The log is out of order when a session is evaluated, and when its entries are asked for. -/
example :
    let arrival (method : Method) (path body : String) : Arrival :=
      ⟨⟨0, 0, []⟩, method, path.toList, some ['a'], some "application/json".toList, body.toList⟩
    let service := (Service.start ()).after (.unavailable Unit) ⟨10, 5⟩
      [arrival .post "/api/v1/session/input" "\x7b\"input\":\"7\"\x7d",
       arrival .post "/api/v1/session/equals" "", arrival .get "/api/v1/logs" ""]
    service.metrics.tallies = [(Service.requestLabel "session_equals", ⟨1, 0, 1⟩),
      (recordLabel, ⟨0, 1, 1⟩), (Service.requestLabel "logs_list", ⟨0, 1, 1⟩)] := by
  decide +kernel

end Keypad
