/-
Module: Keypad.Web.Form
Layer: web
Purpose: The fields of a form and the keys that their names are made of.
Trusted boundary: none
Main exports: FormField, FormField.ofText, FormField.firstKey, FormField.fields
-/
import Keypad.Web.Target

namespace Keypad

/-- A field of a form: its name and its value, as they are written. -/
structure FormField where
  name : Text
  value : Text
deriving DecidableEq, Repr

namespace FormField

/-- A field is its name up to the first equals sign and its value behind it. -/
def ofText (text : Text) : FormField :=
  ⟨text.takeWhile (· ≠ '='), (text.dropWhile (· ≠ '=')).drop 1⟩

/-- The fields of a form, in order.  Between two ampersands there may be none. -/
def fields (form : Text) : List FormField :=
  ((Text.separatedBy '&' form).filter fun text => !text.isEmpty).map ofText

/-- The characters that a further key of a name begins at. -/
def opensKey (c : Char) : Bool := c = '.' || c = '['

/-- The first key of a name.  Each key of a name may stand behind a full stop
or in brackets, and the first one also bare.  A bracket that nothing closes
holds all that is left. -/
def firstKey (field : FormField) : Text :=
  match field.name with
  | '[' :: name => name.takeWhile (· ≠ ']')
  | '.' :: name => name.takeWhile fun c => !opensKey c
  | name => name.takeWhile fun c => !opensKey c

end FormField

end Keypad
