/-
Module: Keypad.Proofs.Web.Run
Layer: proofs
Purpose: Where the service stands after requests, and what each of them finds.
Trusted boundary: none
Main exports:
  Route.method, Service.headOnly_eq_self, Service.after_induction,
  Service.Visit, Service.visits, Service.mem_conversation, Service.conversation_append
-/
import Keypad.Proofs.Web.Isolation

namespace Keypad

/-! ### The methods of routes -/

/-- The method by which a route is asked for. -/
def Route.method : Route → Method
  | .status | .metrics | .viewSession | .listLog => .get
  | .deleteEntry _ | .clearLog => .delete
  | _ => .post

theorem Route.method_of_find? {method : Method} {path : List Text} {declaresJson : Bool}
    {route : Route} (found : find? method path declaresJson = some route) :
    method = route.method := by
  unfold find? at found
  split at found
  all_goals grind [Route.method]

/-- Only what can be asked for by the method for it can be asked for without its body. -/
theorem Service.headOnly_eq_self {request : Request} {route : Route}
    (asked : request.route? = some route) (notGet : route.method ≠ .get) (response : Response) :
    headOnly request response = response := by
  obtain ⟨target, _, serving⟩ := Option.bind_eq_some_iff.mp asked
  unfold Route.serving? at serving
  dsimp only at serving
  unfold headOnly
  split
  · rename_i head
    rw [head] at serving
    exact absurd (Route.method_of_find? serving).symm notGet
  · rfl

/-! ### Runs of requests -/

namespace Service

variable {σ : Type} {store : LogStore σ} {limits : Limits}

theorem after_cons (service : Service σ) (arrival : Arrival) (arrivals : List Arrival) :
    service.after store limits (arrival :: arrivals) =
      (service.handle store limits arrival.moment arrival.request).2.after store limits
        arrivals := rfl

theorem conversation_append (front back : List Arrival) :
    ∀ service : Service σ, service.conversation store limits (front ++ back) =
      service.conversation store limits front ++
        (service.after store limits front).conversation store limits back := by
  induction front with
  | nil => exact fun _ => rfl
  | cons arrival front inductionHypothesis =>
      intro service
      rw [List.cons_append, conversation_cons, conversation_cons, inductionHypothesis]
      rfl

/-- What every request keeps is kept by a run of them. -/
theorem after_induction {kept : Service σ → Prop}
    (step : ∀ service : Service σ, kept service → ∀ moment request,
      kept (service.handle store limits moment request).2)
    (arrivals : List Arrival) :
    ∀ {service : Service σ}, kept service → kept (service.after store limits arrivals) := by
  induction arrivals with
  | nil => exact id
  | cons arrival arrivals inductionHypothesis =>
      intro service start
      exact inductionHypothesis (step service start arrival.moment arrival.request)

/-- A request with the service that it finds and the response to it. -/
structure Visit (σ : Type) where
  service : Service σ
  arrival : Arrival
  response : Response

/-- What requests that arrive one after another find, and the responses to them. -/
def visits (service : Service σ) (store : LogStore σ) (limits : Limits) :
    List Arrival → List (Visit σ)
  | [] => []
  | arrival :: arrivals =>
      let (response, after) := service.handle store limits arrival.moment arrival.request
      ⟨service, arrival, response⟩ :: after.visits store limits arrivals

theorem visits_cons (service : Service σ) (arrival : Arrival) (arrivals : List Arrival) :
    service.visits store limits (arrival :: arrivals) =
      ⟨service, arrival, (service.handle store limits arrival.moment arrival.request).1⟩ ::
        (service.handle store limits arrival.moment arrival.request).2.visits store limits
          arrivals := rfl

/-- The response of a visit is the one that the service gives. -/
theorem response_of_mem_visits {visit : Visit σ} {arrivals : List Arrival} :
    ∀ {service : Service σ}, visit ∈ service.visits store limits arrivals →
      visit.response = (visit.service.handle store limits visit.arrival.moment
        visit.arrival.request).1 := by
  induction arrivals with
  | nil => nofun
  | cons arrival arrivals inductionHypothesis =>
      intro service member
      rw [visits_cons] at member
      rcases List.mem_cons.mp member with rfl | later
      · rfl
      · exact inductionHypothesis later

/-- A response is given in the state that the requests before it have left. -/
theorem mem_conversation {exchange : Arrival × Response} {arrivals : List Arrival} :
    ∀ {service : Service σ}, exchange ∈ service.conversation store limits arrivals →
      ∃ before, before <+: arrivals ∧
        exchange.2 = ((service.after store limits before).handle store limits
          exchange.1.moment exchange.1.request).1 := by
  induction arrivals with
  | nil => nofun
  | cons arrival arrivals inductionHypothesis =>
      intro service member
      rw [conversation_cons] at member
      rcases List.mem_cons.mp member with rfl | later
      · exact ⟨[], List.nil_prefix, rfl⟩
      · obtain ⟨before, initial, answered⟩ := inductionHypothesis later
        exact ⟨arrival :: before, List.cons_prefix_cons.mpr ⟨rfl, initial⟩, answered⟩

end Service

end Keypad
