/-
Module: Keypad.Proofs.Web.Isolation
Layer: proofs
Purpose: What the answers to one client have to do with the requests of others.
Trusted boundary: none
Main exports:
  Arrival, Service.after, Service.conversation, Service.Rearranged, Service.Course,
  sessionUses, Service.courses_isolated
-/
import Keypad.Proofs.Session.Isolation
import Keypad.Proofs.Web.Serving

namespace Keypad

/-!
A course of requests of many clients is held beside the one that a single client would have
held alone.  Two services take part in them, and all that they need to have in common is what
is on view under the key of this client.  Both may go through their sessions in any order,
and in another one whenever a request arrives.
-/

/-- A request, and what it finds when it arrives. -/
structure Arrival where
  moment : Moment
  request : Request
deriving DecidableEq, Repr

/-- The service after requests that have arrived one after another. -/
def Service.after {σ : Type} (service : Service σ) (store : LogStore σ) (limits : Limits)
    (arrivals : List Arrival) : Service σ :=
  arrivals.foldl
    (fun service arrival => (service.handle store limits arrival.moment arrival.request).2)
    service

/-- The responses to requests that arrive one after another, each behind its request. -/
def Service.conversation {σ : Type} (service : Service σ) (store : LogStore σ)
    (limits : Limits) : List Arrival → List (Arrival × Response)
  | [] => []
  | arrival :: arrivals =>
      let (response, after) := service.handle store limits arrival.moment arrival.request
      (arrival, response) :: after.conversation store limits arrivals

theorem Service.conversation_cons {σ : Type} (service : Service σ) (store : LogStore σ)
    (limits : Limits) (arrival : Arrival) (arrivals : List Arrival) :
    service.conversation store limits (arrival :: arrivals) =
      (arrival, (service.handle store limits arrival.moment arrival.request).1) ::
        (service.handle store limits arrival.moment arrival.request).2.conversation
          store limits arrivals := rfl

/-! ### Courses of requests -/

/-- A service goes through its sessions in another order, and is the same otherwise. -/
structure Service.Rearranged {σ : Type} (service other : Service σ) : Prop where
  sessions : service.sessions.Rearranged other.sessions
  log : other.log = service.log
  metrics : other.metrics = service.metrics

/-- What can become of requests that arrive one after another, each with its response.  Before
each of them the sessions may come to stand in any order. -/
inductive Service.Course {σ : Type} (store : LogStore σ) (limits : Limits) :
    Service σ → List (Arrival × Response) → Prop where
  | done (service : Service σ) : Course store limits service []
  | next {service arranged : Service σ} {arrival : Arrival}
      {exchanges : List (Arrival × Response)} :
      service.Rearranged arranged →
      Course store limits
        (arranged.handle store limits arrival.moment arrival.request).2 exchanges →
      Course store limits service
        ((arrival, (arranged.handle store limits arrival.moment arrival.request).1) :: exchanges)

theorem Service.Rearranged.refl {σ : Type} (service : Service σ) : service.Rearranged service :=
  ⟨.refl _, rfl, rfl⟩

/-- A conversation is a course in which the sessions stay as they stand. -/
theorem Service.course_conversation {σ : Type} (store : LogStore σ) (limits : Limits)
    (arrivals : List Arrival) :
    ∀ service : Service σ, Course store limits service
      (service.conversation store limits arrivals) := by
  induction arrivals with
  | nil => exact .done
  | cons arrival arrivals inductionHypothesis =>
      intro service
      exact .next (.refl service) (inductionHypothesis _)

/-- Between two conversations the sessions may come to stand in another order. -/
theorem Service.course_rearranged {σ : Type} {store : LogStore σ} {limits : Limits}
    (front back : List Arrival) {arranged : Service σ} :
    ∀ {service : Service σ}, (service.after store limits front).Rearranged arranged →
      Course store limits service (service.conversation store limits front ++
        arranged.conversation store limits back) := by
  induction front with
  | nil =>
      intro service rearranged
      cases back with
      | nil => exact .done service
      | cons arrival back => exact .next rearranged (course_conversation store limits back _)
  | cons arrival front inductionHypothesis =>
      intro service rearranged
      exact .next (.refl service) (inductionHypothesis rearranged)

/-- The sessions that have been used, in turn, each with the instant of the use. -/
def sessionUses (exchanges : List (Arrival × Response)) : List (Instant × SessionKey) :=
  exchanges.flatMap fun exchange =>
    exchange.1.request.usesAt exchange.1.moment.instant exchange.2

theorem sessionUses_cons (arrival : Arrival) (response : Response)
    (exchanges : List (Arrival × Response)) :
    sessionUses ((arrival, response) :: exchanges) =
      arrival.request.usesAt arrival.moment.instant response ++ sessionUses exchanges := rfl

theorem Request.eq_of_isOf {request : Request} {key other : SessionKey}
    (isOf : request.isOf key = true) (isOfOther : request.isOf other = true) :
    key = other := by
  simp only [Request.isOf, Bool.and_eq_true, decide_eq_true_eq] at isOf isOfOther
  exact Option.some.inj (isOf.1.symm.trans isOfOther.1)

namespace Sharing

variable {σ : Type} {store : LogStore σ} {limits : Limits} {moment : Moment}
  {request : Request} {key : SessionKey} {past : List (Instant × SessionKey)}
  {shared alone : Service σ}

/-- A request of the client itself gets the same answer in both courses. -/
theorem handle_own
    (sharing : Sharing limits moment.instant key past shared.sessions alone.sessions)
    (isOf : request.isOf key = true) :
    (shared.handle store limits moment request).1 = (alone.handle store limits moment request).1 ∧
      Sharing limits moment.instant key
        (past ++ request.usesAt moment.instant (shared.handle store limits moment request).1)
        (shared.handle store limits moment request).2.sessions
        (alone.handle store limits moment request).2.sessions := by
  rcases Service.handle_cases store limits moment request with idle | ⟨call, isCall, used, answers⟩
  · refine ⟨idle.response key isOf shared alone, ?_⟩
    rw [Request.usesAt, idle.used, idle.sessions, idle.sessions, List.map_nil, List.append_nil]
    exact sharing
  · obtain rfl := Request.eq_of_isOf isCall isOf
    refine ⟨answers.response shared alone (sharing.view_eq _ (Nat.le_refl _)), ?_⟩
    rw [Request.usesAt, used _ (answers.status shared), answers.sessions, answers.sessions]
    exact sharing.own rfl

/-- A request of anyone else is made in the shared course only. -/
theorem handle_other
    (sharing : Sharing limits moment.instant key past shared.sessions alone.sessions)
    (notOf : request.isOf key = false)
    (room : (rivals key (past ++ request.usesAt moment.instant
      (shared.handle store limits moment request).1)).dedup.length < limits.room) :
    Sharing limits moment.instant key
      (past ++ request.usesAt moment.instant (shared.handle store limits moment request).1)
      (shared.handle store limits moment request).2.sessions alone.sessions := by
  rcases Service.handle_cases store limits moment request with idle | ⟨call, isCall, used, answers⟩
  · rw [Request.usesAt, idle.used, idle.sessions, List.map_nil, List.append_nil]
    exact sharing
  · have ne : call.key ≠ key := by
      rintro rfl
      cases isCall.symm.trans notOf
    rw [Request.usesAt, used _ (answers.status shared)] at room ⊢
    rw [answers.sessions]
    exact sharing.other ne room

/-- From a state in which the two services show the same under the key of the client, any two
courses go on with the same answers to it. -/
theorem courses {shared : Service σ} {exchanges : List (Arrival × Response)}
    (course : Service.Course store limits shared exchanges) :
    ∀ {start : Instant} {past : List (Instant × SessionKey)} {alone : Service σ}
      {own : List (Arrival × Response)},
      Sharing limits start key past shared.sessions alone.sessions →
      Service.Course store limits alone own →
      own.map Prod.fst = (exchanges.map Prod.fst).filter
        (fun arrival => arrival.request.isOf key) →
      (∀ exchange ∈ exchanges, start ≤ exchange.1.moment.instant) →
      (exchanges.Pairwise fun earlier later =>
        earlier.1.moment.instant ≤ later.1.moment.instant) →
      Uncrowded limits key (past ++ sessionUses exchanges) →
        exchanges.filter (fun exchange => exchange.1.request.isOf key) = own := by
  -- The services drift apart in everything else; what carries the induction is `Sharing`.
  induction course with
  | done =>
      intro start past alone own _ _ same _ _ _
      exact (List.map_eq_nil_iff.mp same).symm
  | @next shared arranged arrival exchanges rearranged _ inductionHypothesis =>
      intro start past alone own sharing courseAlone same after ordered uncrowded
      obtain ⟨first, others⟩ := List.pairwise_cons.mp ordered
      have now := sharing.later (after _ List.mem_cons_self)
      rw [sessionUses_cons, ← List.append_assoc] at uncrowded
      rw [List.map_cons, List.filter_cons] at same
      rw [List.filter_cons]
      cases isOf : arrival.request.isOf key with
      | true =>
          simp only [isOf, if_true] at same ⊢
          cases courseAlone with
          | done => cases same
          | @next _ arrangedAlone arrivalAlone own rearrangedAlone further =>
              obtain ⟨rfl, sameRest⟩ := List.cons.inj same
              obtain ⟨answer, next⟩ :=
                (now.rearranged rearranged.sessions rearrangedAlone.sessions).handle_own isOf
              rw [answer, inductionHypothesis next further sameRest first others uncrowded]
      | false =>
          simp only [isOf, Bool.false_eq_true, if_false] at same ⊢
          have next := (now.rearranged rearranged.sessions (.refl _)).handle_other isOf
            (uncrowded _ (List.prefix_append _ _))
          exact inductionHypothesis next courseAlone same first others uncrowded

end Sharing

/-- Clients are isolated.  When the instants of the requests do not decrease, and there are
never as many rivals of a client as there is room for sessions, then what the client gets
for its requests is what it would get if they were all that were made.  This is so in
whatever order the sessions are gone through, here and there, so whichever of several
sessions that have gone unused for longest is the one to go. -/
theorem Service.courses_isolated {σ : Type} (store : LogStore σ) (limits : Limits)
    (log : σ) {key : SessionKey} {exchanges own : List (Arrival × Response)}
    (course : Course store limits (.start log) exchanges)
    (alone : Course store limits (.start log) own)
    (same : own.map Prod.fst =
      (exchanges.map Prod.fst).filter fun arrival => arrival.request.isOf key)
    (ordered : exchanges.Pairwise fun earlier later =>
      earlier.1.moment.instant ≤ later.1.moment.instant)
    (uncrowded : Uncrowded limits key (sessionUses exchanges)) :
    exchanges.filter (fun exchange => exchange.1.request.isOf key) = own := by
  have sharing : Sharing limits 0 key [] (start log).sessions (start log).sessions :=
    .empty limits 0 key
  exact sharing.courses course alone same
    (fun exchange _ => Nat.zero_le exchange.1.moment.instant) ordered uncrowded

/-- A request of a client that arrives at an instant. -/
def clientArrival (instant : Instant) (method : Method) (id path body : String) : Arrival :=
  ⟨⟨instant, 0, []⟩, method, ("/api/v1/" ++ path).toList, some id.toList,
    some "application/json".toList, body.toList⟩

/-- Three clients who share a service with room for two sessions.  The session of the first
one has expired when the third one makes room for itself, and it goes unnoticed. -/
def sharedArrivals : List Arrival :=
  [clientArrival 0 .post "a" "session/input" "\x7b\"input\":\"1\"\x7d",
   clientArrival 1 .post "b" "session/input" "\x7b\"input\":\"2\"\x7d",
   clientArrival 2 .post "b" "evaluate" "\x7b\"expression\":\"1/0\"\x7d",
   clientArrival 3 .post "a" "session/equals" "",
   clientArrival 3 .post "c" "session/delete" "",
   clientArrival 4 .post "a" "session/input" "\x7b\"input\":\"12\"\x7d",
   clientArrival 5 .post "c" "session/clear" "",
   clientArrival 13 .post "c" "session/equals" "",
   clientArrival 13 .post "a" "session/input" "\x7b\"input\":\"5\"\x7d"]

theorem courses_isolated_shared :
    let key : SessionKey := ⟨['a'], rfl⟩
    let limits : Limits := ⟨10, 2⟩
    let service := Service.start Journal.empty
    let exchanges := service.conversation Journal.store limits sharedArrivals
    let own := service.conversation Journal.store limits
      (sharedArrivals.filter fun arrival => arrival.request.isOf key)
    Service.Course Journal.store limits service exchanges ∧
      Service.Course Journal.store limits service own ∧
      (exchanges.Pairwise fun earlier later =>
        earlier.1.moment.instant ≤ later.1.moment.instant) ∧
      Uncrowded limits key (sessionUses exchanges) ∧
      exchanges.filter (fun exchange => exchange.1.request.isOf key) = own ∧
      own.map (fun exchange => exchange.2.status) = [200, 200, 422, 200] := by
  intro key limits service exchanges own
  have course : Service.Course Journal.store limits service exchanges :=
    Service.course_conversation Journal.store limits sharedArrivals service
  have alone : Service.Course Journal.store limits service own :=
    Service.course_conversation Journal.store limits _ service
  have same : own.map Prod.fst =
      (exchanges.map Prod.fst).filter fun arrival => arrival.request.isOf key := by
    decide +kernel
  have ordered : exchanges.Pairwise fun earlier later =>
      earlier.1.moment.instant ≤ later.1.moment.instant := by
    decide +kernel
  have uncrowded : Uncrowded limits key (sessionUses exchanges) := by
    decide +kernel
  exact ⟨course, alone, ordered, uncrowded,
    Service.courses_isolated Journal.store limits Journal.empty course alone same ordered
      uncrowded,
    by decide +kernel⟩

/-- Two clients use their sessions at the same instant, and then a third one comes for whom there
is no room. -/
def tiedArrivals : List Arrival :=
  [clientArrival 0 .post "a" "session/input" "\x7b\"input\":\"1\"\x7d",
   clientArrival 0 .post "b" "session/input" "\x7b\"input\":\"2\"\x7d",
   clientArrival 1 .post "c" "session/input" "\x7b\"input\":\"3\"\x7d",
   clientArrival 2 .get "b" "session" ""]

/-- It is not enough to count the clients that come behind the last use of a session.  Of two
sessions with the same last use the one that has been used behind the other can be the one to go
for a third one, and its client notices. -/
theorem tied_session_goes :
    let key : SessionKey := ⟨['b'], rfl⟩
    let limits : Limits := ⟨10, 2⟩
    ∃ exchanges own,
      Service.Course Journal.store limits (.start Journal.empty) exchanges ∧
      Service.Course Journal.store limits (.start Journal.empty) own ∧
      exchanges.map Prod.fst = tiedArrivals ∧
      own.map Prod.fst = tiedArrivals.filter (fun arrival => arrival.request.isOf key) ∧
      (tiedArrivals.Pairwise fun earlier later =>
        earlier.moment.instant ≤ later.moment.instant) ∧
      Unfollowed limits key (sessionUses exchanges) ∧
      exchanges.filter (fun exchange => exchange.1.request.isOf key) ≠ own := by
  intro key limits
  let start := Service.start Journal.empty
  let full := start.after Journal.store limits (tiedArrivals.take 2)
  -- the third client finds the session of the second one first
  let arranged : Service Journal := { full with sessions := ⟨full.sessions.slots.reverse⟩ }
  have swapped : full.Rearranged arranged := ⟨(List.reverse_perm _).symm, rfl, rfl⟩
  have course := Service.course_rearranged (tiedArrivals.take 2) (tiedArrivals.drop 2) swapped
  have alone := Service.course_conversation Journal.store limits
    (tiedArrivals.filter fun arrival => arrival.request.isOf key) start
  refine ⟨_, _, course, alone, ?_, ?_, ?_, ?_, ?_⟩
  · decide +kernel
  · decide +kernel
  · decide +kernel
  · decide +kernel
  · intro same
    have shown := congrArg (List.map fun exchange => exchange.2.text? "expression") same
    revert shown
    decide +kernel

end Keypad
