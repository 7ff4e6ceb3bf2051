/-
Module: Keypad.Web.Request
Layer: web
Purpose: Requests to the service and its responses.
Trusted boundary: none; the wire format of headers and bodies is not covered.
Main exports: Method, Method.ofText?, Request, Request.effectiveMethod, Content, Response
-/
import Keypad.Json.Value
import Keypad.Web.Form
import Keypad.Web.MediaType

namespace Keypad

/-- The methods of requests. -/
inductive Method where
  | get
  | put
  | post
  | delete
  | options
  | head
  | trace
  | connect
  | patch
deriving DecidableEq, Repr

namespace Method

/-- All methods with their names. -/
def names : List (Text × Method) :=
  [("get".toList, .get), ("put".toList, .put), ("post".toList, .post),
   ("delete".toList, .delete), ("options".toList, .options), ("head".toList, .head),
   ("trace".toList, .trace), ("connect".toList, .connect), ("patch".toList, .patch)]

/-- The method of a name; the case of letters does not count. -/
def ofText? (name : Text) : Option Method :=
  names.lookup (name.map Char.toLower)

end Method

/-- A request: its method and target, the headers that count, and its body. -/
structure Request where
  method : Method
  target : Text
  sessionId : Option Text
  contentType : Option Text
  body : Text
deriving DecidableEq, Repr

namespace Request

/-- The media type of the body, if one is given and is well formed. -/
def mediaType? (request : Request) : Option MediaType :=
  request.contentType.bind MediaType.parse?

/-- Whether the body is declared to be a JSON document. -/
def declaresJson (request : Request) : Bool :=
  (request.mediaType?.map MediaType.isJson).getD false

/-- How many octets at the head of a form can name another method. -/
def longestOverride : Nat := "_method=delete".toList.length

/-- The method that the first field of a form names, if `_method` is the first
key of its name.  Only the head of the form is looked at, and nothing is found
in it if a character is cut at its end. -/
def overriding? (body : Text) : Option Method :=
  let octets := (Utf8.encode body).take longestOverride
  let head := Utf8.decodeLossy octets
  if Utf8.encode head ≠ octets then none
  else
    match FormField.fields head with
    | [] => none
    | field :: _ =>
        if field.firstKey = "_method".toList then Method.ofText? field.value else none

/-- The method that a request is served by.  A form that is posted may name
another one in its first field, since a browser cannot send it otherwise. -/
def effectiveMethod (request : Request) : Method :=
  if request.method = .post ∧ (request.mediaType?.map MediaType.isForm).getD false then
    (overriding? request.body).getD request.method
  else request.method

end Request

/-- The body of a response. -/
inductive Content where
  | none
  | json (document : Json)
  | text (text : Text)

/-- The answer to a request. -/
structure Response where
  status : Nat
  content : Content

/-- An answer without a body of its own. -/
def Response.bare (status : Nat) : Response := ⟨status, .none⟩

end Keypad
