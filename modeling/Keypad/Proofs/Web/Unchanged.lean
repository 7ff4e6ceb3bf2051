/-
Module: Keypad.Proofs.Web.Unchanged
Layer: proofs
Purpose: Requests that fail and requests that only read leave everything as it was.
Trusted boundary: none
Main exports:
  LogStore.FailsWithoutEffect, Method.reads, Request.reads, Service.Keeps,
  Service.handle_keeps, failing_or_reading_keeps
-/
import Keypad.Proofs.Web.LogHistory

namespace Keypad

/-! ### Stores that fail without effect -/

/-- Listing changes nothing in a store, and neither does a deletion that fails. -/
structure LogStore.FailsWithoutEffect {σ : Type} (store : LogStore σ) : Prop where
  list : ∀ state, (store.list state).2 = state
  delete : ∀ id state failure, (store.delete id state).1 = .error failure →
    (store.delete id state).2 = state
  deleteAll : ∀ state failure, (store.deleteAll state).1 = .error failure →
    (store.deleteAll state).2 = state

theorem Journal.store_failsWithoutEffect : Journal.store.FailsWithoutEffect where
  list := fun _ => rfl
  delete := by
    intro id journal failure failed
    simp only [Journal.store] at failed ⊢
    split at failed
    · cases failed
    · rename_i absent
      rw [if_neg absent]
  deleteAll := by
    intro journal failure failed
    cases failed

theorem LogStore.unavailable_failsWithoutEffect (σ : Type) :
    (LogStore.unavailable σ).FailsWithoutEffect where
  list := fun _ => rfl
  delete := fun _ _ _ _ => rfl
  deleteAll := fun _ _ _ => rfl

/-! ### Requests that only read -/

/-- Whether a method only asks for something to be shown. -/
def Method.reads : Method → Bool
  | .get | .head => true
  | _ => false

/-- Whether a request only asks for something to be shown, by its own method or by the one
that it is served by. -/
def Request.reads (request : Request) : Bool :=
  request.method.reads || request.effectiveMethod.reads

/-- No form changes the method of a request that only reads. -/
theorem Request.effectiveMethod_reads {request : Request} (reads : request.reads = true) :
    request.effectiveMethod.reads = true := by
  rcases Bool.or_eq_true _ _ ▸ reads with own | served
  · have notPosted : request.method ≠ .post := by
      intro posted
      rw [posted] at own
      cases own
    rw [effectiveMethod, if_neg fun side => notPosted side.1]
    exact own
  · exact served

/-- What is served to a request that only reads can be asked for by the method for reading. -/
theorem Request.route_method_of_reads {request : Request} {route : Route}
    (reads : request.reads = true) (asked : request.route? = some route) :
    route.method = .get := by
  obtain ⟨target, _, serving⟩ := Option.bind_eq_some_iff.mp asked
  have served := effectiveMethod_reads reads
  unfold Route.serving? at serving
  cases method : request.effectiveMethod with
  | get | head =>
      rw [method] at serving
      exact (Route.method_of_find? serving).symm
  | _ =>
      rw [method] at served
      cases served

namespace Service

variable {σ : Type} {store : LogStore σ} {limits : Limits} {moment : Moment}
  {request : Request} {service : Service σ}

/-- All that a service keeps but its metrics is as it was: the sessions with their keys, their
texts, their failures and their last uses, and the log. -/
structure Keeps (service after : Service σ) : Prop where
  sessions : after.sessions = service.sessions
  log : after.log = service.log

theorem Keeps.refl (service : Service σ) : service.Keeps service := ⟨rfl, rfl⟩

/-! ### Reading -/

/-- To show something is to keep everything. -/
theorem serve_keeps_of_get (harmless : store.FailsWithoutEffect) {route : Route}
    (get : route.method = .get) :
    service.Keeps (service.serve store limits moment request route).2 := by
  cases route with
  | status | metrics => exact .refl service
  | viewSession =>
      exact withKey_cases (fun served => service.Keeps served.2) (.refl service)
        fun _ _ => .refl service
  | listLog => exact ⟨rfl, harmless.list service.log⟩
  | _ => cases get

/-! ### Failing -/

/-- A request about a session that fails has not reached the session. -/
theorem handle_sessions_of_failed
    (failed : 400 ≤ (service.handle store limits moment request).1.status) :
    (service.handle store limits moment request).2.sessions = service.sessions := by
  rcases handle_cases store limits moment request with idle | ⟨call, _, _, answers⟩
  · exact idle.sessions service
  · rw [answers.status service] at failed
    contradiction

/-- What is asked of the log fails when the store does. -/
theorem askLog_log_of_failed {α : Type} {operation : String} {asked : Except LogFailure α × σ}
    {respond : α → Response} (responds : ∀ value, (respond value).status < 400)
    (kept : ∀ failure, asked.1 = .error failure → asked.2 = service.log)
    (failed : 400 ≤ (service.askLog operation asked respond).1.status) :
    (service.askLog operation asked respond).2.log = service.log := by
  obtain ⟨result, log⟩ := asked
  cases result with
  | ok value => exact absurd failed (Nat.not_le.mpr (responds value))
  | error failure => exact kept failure rfl

/-- An evaluation fails only where no session is named. -/
theorem serveEquals_not_failed (service : Service σ) (key : SessionKey) :
    (service.serveEquals store limits moment key).1.status < 400 := by
  rw [serveEquals_response]
  exact show 200 < 400 by decide

/-- A route that fails has changed nothing in the log. -/
theorem serve_log_of_failed (harmless : store.FailsWithoutEffect) {route : Route}
    (failed : 400 ≤ (service.serve store limits moment request route).1.status) :
    (service.serve store limits moment request route).2.log = service.log := by
  cases route with
  | equals =>
      cases named : request.sessionKey? with
      | none => exact congrArg (fun served => served.2.log) (withKey_of_none named service _)
      | some key =>
          have served : service.serve store limits moment request .equals =
              service.serveEquals store limits moment key := withKey_of_some named service _
          rw [served] at failed
          exact absurd failed (Nat.not_le.mpr (serveEquals_not_failed service key))
  | listLog =>
      exact askLog_log_of_failed (fun _ => show 200 < 400 by decide)
        (fun _ _ => harmless.list service.log) failed
  | deleteEntry id =>
      exact askLog_log_of_failed (fun _ => show 204 < 400 by decide)
        (harmless.delete id service.log) failed
  | clearLog =>
      exact askLog_log_of_failed (fun _ => show 200 < 400 by decide)
        (harmless.deleteAll service.log) failed
  | _ => exact serve_log_of_other rfl

/-! ### Any request -/

/-- A request that fails, or that only reads, leaves everything as it was. -/
theorem handle_keeps (harmless : store.FailsWithoutEffect)
    (side : 400 ≤ (service.handle store limits moment request).1.status ∨
      request.reads = true) :
    service.Keeps (service.handle store limits moment request).2 := by
  cases asked : request.route? with
  | none =>
      obtain ⟨status, handled⟩ := handle_of_no_route (σ := σ) asked
      rw [handled]
      exact .refl service
  | some route =>
      rcases side with failed | reads
      · refine ⟨handle_sessions_of_failed failed, ?_⟩
        rw [handle_of_route asked, headOnly_status] at failed
        rw [handle_of_route asked]
        exact serve_log_of_failed harmless failed
      · rw [handle_of_route asked]
        exact serve_keeps_of_get harmless (Request.route_method_of_reads reads asked)

end Service

/-- Failed requests and requests that only read change nothing.  Whatever the state of the
service is, with the log in memory or with a store that fails whatever it is asked, after a
request that is answered with a status of 400 or above, and after one for something to be
shown, the sessions and the log are exactly as they were. -/
theorem failing_or_reading_keeps (limits : Limits) (moment : Moment) (request : Request) :
    (∀ service : Service Journal,
      400 ≤ (service.handle Journal.store limits moment request).1.status ∨
          request.reads = true →
        service.Keeps (service.handle Journal.store limits moment request).2) ∧
      ∀ (σ : Type) (service : Service σ),
        400 ≤ (service.handle (.unavailable σ) limits moment request).1.status ∨
            request.reads = true →
          service.Keeps (service.handle (.unavailable σ) limits moment request).2 :=
  ⟨fun _ side => Service.handle_keeps Journal.store_failsWithoutEffect side,
    fun σ _ side => Service.handle_keeps (LogStore.unavailable_failsWithoutEffect σ) side⟩

/-- To delete an entry that has been deleted before fails, a key that is two characters is
refused, and the session of a client is shown after it has expired. -/
theorem failing_or_reading_keeps_logged :
    let limits : Limits := ⟨10, 5⟩
    let service := (Service.start Journal.empty).after Journal.store limits loggedArrivals
    let deletion : Request := ⟨.delete, "/api/v1/logs/s".toList, none, none, []⟩
    let typing : Request := ⟨.post, "/api/v1/session/input".toList, some "b".toList,
      some "application/json".toList, "\x7b\"input\":\"12\"\x7d".toList⟩
    let showing : Request := ⟨.head, "/api/v1/session".toList, some "b".toList, none, []⟩
    (service.handle Journal.store limits ⟨21, 0, []⟩ deletion).1.status = 404 ∧
      service.Keeps (service.handle Journal.store limits ⟨21, 0, []⟩ deletion).2 ∧
      (service.handle Journal.store limits ⟨21, 0, []⟩ typing).1.status = 422 ∧
      service.Keeps (service.handle Journal.store limits ⟨21, 0, []⟩ typing).2 ∧
      showing.reads = true ∧
      service.Keeps (service.handle Journal.store limits ⟨21, 0, []⟩ showing).2 := by
  intro limits service deletion typing showing
  have missing : (service.handle Journal.store limits ⟨21, 0, []⟩ deletion).1.status = 404 := by
    decide +kernel
  have refused : (service.handle Journal.store limits ⟨21, 0, []⟩ typing).1.status = 422 := by
    decide +kernel
  have keeps (request : Request) :=
    (failing_or_reading_keeps limits ⟨21, 0, []⟩ request).1 service
  refine ⟨missing, keeps deletion (.inl ?_), refused, keeps typing (.inl ?_), rfl,
    keeps showing (.inr rfl)⟩
  · rw [missing]
    decide
  · rw [refused]
    decide

end Keypad
