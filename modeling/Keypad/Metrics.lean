/-
Module: Keypad.Metrics
Layer: accounting
Purpose: Counting what has been done, by label.
Trusted boundary: none
Main exports: Label, Tally, Metrics, Severity, measured, Metrics.series
-/
import Keypad.Text.Blank

namespace Keypad

/-- What is counted: an operation of a layer. -/
structure Label where
  layer : Text
  operation : Text
deriving DecidableEq, Repr

/-- A label of fixed words. -/
def Label.of (layer operation : String) : Label := ⟨layer.toList, operation.toList⟩

/-- How often an operation succeeded, how often it failed, and how often its
duration was taken. -/
structure Tally where
  success : Nat
  failure : Nat
  timed : Nat
deriving DecidableEq, Repr

/-- The tallies of all labels that are in use, in the order of their first
use. -/
structure Metrics where
  tallies : List (Label × Tally)
deriving DecidableEq, Repr

/-- The errors of a type tell whether they are failures of the service; the
others are mistakes of its caller. -/
class Severity (ε : Type) where
  isFailure : ε → Bool

/-- An error that says nothing is not held against the service. -/
instance : Severity Unit := ⟨fun _ => false⟩

/-- An error known by its words alone is a failure of the service. -/
instance : Severity String := ⟨fun _ => true⟩

namespace Metrics

/-- Nothing is counted yet. -/
def empty : Metrics := ⟨[]⟩

instance : Inhabited Metrics := ⟨empty⟩

/-- The tally of a label; a label that is not in use has counted nothing. -/
def tally (metrics : Metrics) (label : Label) : Tally :=
  (metrics.tallies.lookup label).getD ⟨0, 0, 0⟩

/-- Changes the tally of a label, and takes the label into use. -/
def update (metrics : Metrics) (label : Label) (change : Tally → Tally) : Metrics :=
  let changed := change (metrics.tally label)
  if metrics.tallies.any fun entry => entry.1 = label then
    ⟨metrics.tallies.map fun entry => if entry.1 = label then (label, changed) else entry⟩
  else ⟨metrics.tallies ++ [(label, changed)]⟩

/-- Counts one run of an operation. -/
def count (metrics : Metrics) (label : Label) (failed : Bool) : Metrics :=
  metrics.update label fun tally =>
    if failed then { tally with failure := tally.failure + 1, timed := tally.timed + 1 }
    else { tally with success := tally.success + 1, timed := tally.timed + 1 }

end Metrics

/-- Whether a result is a failure of the service. -/
def isFailure {ε α : Type} [Severity ε] : Except ε α → Bool
  | .ok _ => false
  | .error e => Severity.isFailure e

/-- Counts a result under a label.  The result itself is handed on. -/
def measured {ε α : Type} [Severity ε] (label : Label) (result : Except ε α)
    (metrics : Metrics) : Except ε α × Metrics :=
  (result, metrics.count label (isFailure result))

namespace Metrics

/-- A character of a label in a quoted place. -/
def escaped : Char → Text
  | '\\' => ['\\', '\\']
  | '\n' => ['\\', 'n']
  | '"' => ['\\', '"']
  | c => [c]

/-- The line of one counter. -/
def line (name : String) (label : Label) (count : Nat) : Text :=
  name.toList ++ "\x7blayer=\"".toList ++ label.layer.flatMap escaped ++
    "\",operation=\"".toList ++ label.operation.flatMap escaped ++ "\"\x7d ".toList ++
    Nat.toDigits 10 count

/-- The lines of one label. -/
def lines (label : Label) (tally : Tally) : List Text :=
  [line "calculator_duration_seconds_count" label tally.timed,
   line "calculator_failure_total" label tally.failure,
   line "calculator_success_total" label tally.success]

/-- Whether two texts stand in the order of their code points, the beginning of
a text before the text. -/
def inOrder : Text → Text → Bool
  | [], _ => true
  | _ :: _, [] => false
  | a :: as, b :: bs => if a = b then inOrder as bs else a.toNat < b.toNat

/-- The lines of all labels in use, in the order of code points. -/
def series (metrics : Metrics) : List Text :=
  (metrics.tallies.flatMap fun entry => lines entry.1 entry.2).mergeSort inOrder

/-- The series as one text. -/
def exposition (metrics : Metrics) : Text :=
  metrics.series.flatMap fun line => line ++ ['\n']

end Metrics

end Keypad
