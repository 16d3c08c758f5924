import DryKiln.Document.Basic
/-!
Requests to a unit, and what comes back.
-/

namespace DryKiln
namespace Http

/-- The methods that are used. -/
inductive Method where
  | get
  | post
deriving DecidableEq, Repr

/-- The name in requests. -/
def Method.label : Method → String
  | get => "GET"
  | post => "POST"

/-- A request; the body is sent as JSON. -/
structure Request where
  method : Method
  url : String
  body : Option Document
deriving Repr

/-- A response. The body is absent if it is no text. -/
structure Response where
  status : Nat
  body : Option String
deriving DecidableEq, Repr

/-- The unit did what it was asked. -/
def Response.isSuccess (response : Response) : Bool := 200 ≤ response.status && response.status < 300

/-- What comes back for a request: a response, or why there is none. -/
abbrev Reply := Except String Response

/-- A network as a function: what comes back for each request. -/
abbrev Network := Request → Reply

/-- A network on which no unit can be reached. -/
def unreachable : Network := fun request => .error ("cannot connect to " ++ request.url)

end Http
end DryKiln
