/-
Module: Keypad.Json.Value
Layer: documents
Purpose: JSON documents as values.
Trusted boundary: none
Main exports: Json, Json.text
-/
import Keypad.Number.Binary64
import Keypad.Text.Blank

namespace Keypad

/-- A JSON document.  Numbers are integers or double precision numbers, and
the members of an object stand in order. -/
inductive Json where
  | null
  | bool (value : Bool)
  | integer (value : Int)
  | double (value : Binary64)
  | string (value : Text)
  | array (items : List Json)
  | object (members : List (Text × Json))

namespace Json

instance : Inhabited Json := ⟨null⟩

/-- A member of an object under a fixed name. -/
def member (name : String) (value : Json) : Text × Json := (name.toList, value)

/-- A member that is left out when it has no value. -/
def member? (name : String) (value : Option Json) : List (Text × Json) :=
  value.toList.map (member name)

end Json

end Keypad
