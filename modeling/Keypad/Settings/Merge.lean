/-
Module: Keypad.Settings.Merge
Layer: settings
Purpose: Groups of settings put over one another.
Trusted boundary: none
Main exports: SettingValue.merge, SettingValue.nested
-/
import Keypad.Settings.Value

namespace Keypad.SettingValue

mutual

/-- A value over an earlier one of the same name.  A group is put into an
earlier group, and any other value takes its place. -/
def mergeValue (earlier : Option SettingValue) : SettingValue → SettingValue
  | .group later =>
      match earlier with
      | some (.group members) => .group (merge members later)
      | _ => .group later
  | value => value
termination_by structural value => value

/-- A group over an earlier one: each member over what the earlier group has
under its name. -/
def merge (earlier : List (Text × SettingValue)) :
    List (Text × SettingValue) → List (Text × SettingValue)
  | [] => earlier
  | member :: later => mergeMember (merge earlier later) member
termination_by structural later => later

/-- One member over a group. -/
def mergeMember (earlier : List (Text × SettingValue)) :
    Text × SettingValue → List (Text × SettingValue)
  | (name, value) => place name (mergeValue (earlier.lookup name) value) earlier
termination_by structural member => member

end

/-- The members of a value; only a group has some. -/
def membersOf : SettingValue → List (Text × SettingValue)
  | .group members => members
  | _ => []

/-- The value of a path of names as a group. -/
def nested : List Text → SettingValue → List (Text × SettingValue)
  | [], value => membersOf value
  | [name], value => [(name, value)]
  | name :: names, value => [(name, .group (nested names value))]

end Keypad.SettingValue
