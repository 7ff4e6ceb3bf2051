/-
Module: Keypad.Settings
Layer: settings
Purpose: The settings of the service and how the environment gives them.
Trusted boundary: none; the variables are arguments.
Main exports:
  StoreSettings, SessionSettings, Settings, Settings.ofEnvironment?,
  SessionSettings.limits
-/
import Keypad.Session.Table
import Keypad.Settings.Merge
import Keypad.Web.Target

namespace Keypad

/-- Where the log is kept.  Without an endpoint it is kept in memory. -/
structure StoreSettings where
  endpoint : Option Text
  project : Text
  key : Option Text
  database : Text
  collection : Text
  timeoutSeconds : Nat
deriving DecidableEq, Repr

/-- How long sessions live, and how many there may be. -/
structure SessionSettings where
  idleSeconds : Nat
  capacity : Nat
deriving DecidableEq, Repr

/-- All settings. -/
structure Settings where
  store : StoreSettings
  session : SessionSettings
deriving DecidableEq, Repr

/-- The settings of the log when nothing else is said. -/
def StoreSettings.standard : StoreSettings where
  endpoint := none
  project := "calculator".toList
  key := none
  database := "calculator".toList
  collection := "logs".toList
  timeoutSeconds := 5

/-- The settings of sessions when nothing else is said. -/
def SessionSettings.standard : SessionSettings where
  idleSeconds := 30 * 60
  capacity := 10000

/-- The limits that the settings set to the table of sessions. -/
def SessionSettings.limits (settings : SessionSettings) : Limits :=
  ⟨settings.idleSeconds * 1000, settings.capacity⟩

namespace Settings

/-- The variables come in two layers: the service's own ones, and those of the
server that it runs in, which stand over them. -/
inductive Layer where
  | service
  | server
deriving DecidableEq, Repr

/-- What the names of a layer's variables begin with; the case of letters does
not count. -/
def Layer.opening : Layer → Text
  | .service => "app_".toList
  | .server => "rocket_".toList

/-- Replaces the first underscore by a full stop. -/
def pointed : Text → Text
  | [] => []
  | '_' :: rest => '.' :: rest
  | c :: rest => c :: pointed rest

/-- The names of a path with full stops between them, from how a layer writes
it.  In the service's own variables the first underscore counts as one. -/
def Layer.dotted : Layer → Text → Text
  | .service, text => pointed text
  | .server, text => text

/-- The path of names that a variable of a layer sets, from what its name holds
behind the opening.  Blanks do not count at the ends of the variable's name, nor
at the ends of the path.  A variable with another opening sets nothing, and
neither does one with an empty name in its path. -/
def path? (layer : Layer) (fullName : Text) : Option (List Text) :=
  let name := (SettingValue.trimmed fullName).map Char.toLower
  if layer.opening.isPrefixOf name then
    let path := SettingValue.trimmed (layer.dotted (name.drop layer.opening.length))
    let names := Text.separatedBy '.' path
    if names.any List.isEmpty then none else some names
  else none

/-- All that the variables of a layer set, later ones over earlier ones. -/
def gather (layer : Layer) (environment : List (Text × Text)) : List (Text × SettingValue) :=
  environment.foldl (fun gathered (fullName, text) =>
    match path? layer fullName with
    | some path => SettingValue.merge gathered (SettingValue.nested path (.ofText text))
    | none => gathered) []

/-- A setting that is a text. -/
def text? : SettingValue → Option Text
  | .string value => some value
  | _ => none

/-- A setting that is a natural number. -/
def nat? : SettingValue → Option Nat
  | .integer value => if 0 ≤ value then some value.toNat else none
  | _ => none

/-- A setting that may be given or not, with what it is when it is not. -/
def given {α : Type} (value : Option SettingValue) (read : SettingValue → Option α)
    (standard : α) : Option α :=
  match value with
  | some value => read value
  | none => some standard

/-- The values of a group under the given names, or of an array in their
order. -/
def valuesOf (names : List String) : SettingValue → Option (List (Option SettingValue))
  | .group members => some (names.map fun name => members.lookup name.toList)
  | .array items => some ((names.zipIdx).map fun entry => items[entry.2]?)
  | _ => none

/-- The settings of the log from their value. -/
def store? (value : SettingValue) : Option StoreSettings := do
  match ← valuesOf ["endpoint", "project", "key", "database", "collection", "timeout_secs"]
      value with
  | [endpoint, project, key, database, collection, timeout] =>
      let standard := StoreSettings.standard
      return {
        endpoint := ← given endpoint (fun value => (text? value).map some) standard.endpoint
        project := ← given project text? standard.project
        key := ← given key (fun value => (text? value).map some) standard.key
        database := ← given database text? standard.database
        collection := ← given collection text? standard.collection
        timeoutSeconds := ← given timeout nat? standard.timeoutSeconds }
  | _ => none

/-- The settings of sessions from their value. -/
def session? (value : SettingValue) : Option SessionSettings := do
  match ← valuesOf ["idle_secs", "capacity"] value with
  | [idle, capacity] =>
      let standard := SessionSettings.standard
      return {
        idleSeconds := ← given idle nat? standard.idleSeconds
        capacity := ← given capacity nat? standard.capacity }
  | _ => none

/-- The settings that an environment gives, unless one of its values is of the
wrong type.  Names that are no settings are passed over. -/
def ofEnvironment? (environment : List (Text × Text)) : Option Settings := do
  let gathered := SettingValue.merge (gather .service environment) (gather .server environment)
  return {
    store := ← given (gathered.lookup "dao".toList) store? .standard
    session := ← given (gathered.lookup "session".toList) session? .standard }

end Settings

end Keypad
