import PikeAnalysis.Json.Writer
import PikeAnalysis.Text.Utf8

/-!
# Requests

How a request goes over the wire, and the key under which equal requests share one answer.

Two texts are made of the parameters.  The line that is written has its fields in the order in which
they were given, and the key has them in sorted order at every depth, so that two callers who ask
for the same thing share a request even if they name its parameters in another order.
-/

namespace PikeAnalysis.Bridge

/-- A request to the worker. -/
structure Request where
  id : Int
  method : String
  params : List (String × Json)

/-- A request as one JSON object. -/
def Request.toJson (r : Request) : Json :=
  .obj [("id", .int r.id), ("method", .str r.method), ("params", .obj r.params)]

/-- The line of a request, with its newline. -/
def Request.line (r : Request) : String :=
  r.toJson.compact ++ "\n"

/-- The bytes of a request on the wire. -/
def Request.encode (r : Request) : List UInt8 :=
  Text.utf8Encode r.line.toList

/-- The key of a request: its method, and its parameters in one order of fields.  Lists keep their
order, as that is part of what is asked. -/
def requestKey (method : String) (params : List (String × Json)) : String :=
  method ++ ":" ++ (Json.sortKeys (.obj params)).compact

end PikeAnalysis.Bridge
