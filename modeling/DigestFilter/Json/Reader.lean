import DigestFilter.Json.Token
import DigestFilter.Json.Value

/-!
# Reading JSON

A text is read token by token. What is still open is kept on a stack, and one step says what a
token does to it; a text is a value when its tokens lead to a completed value with nothing open.
-/

namespace DigestFilter.Json

/-- An array or object that is still open, with what came before, the last first. -/
inductive Open where
  | array (before : List Json)
  | object (before : List Member) (key : Option String)

inductive Reading where
  | value (stack : List Open)
  | firstItem (stack : List Open)
  | firstMember (stack : List Open)
  | name (before : List Member) (stack : List Open)
  | colon (before : List Member) (key : Option String) (stack : List Open)
  | done (v : Json) (stack : List Open)

namespace Reading

def startValue (stack : List Open) : Token → Option Reading
  | .openArray => some (.firstItem stack)
  | .openObject => some (.firstMember stack)
  | .null => some (.done .null stack)
  | .bool b => some (.done (.bool b) stack)
  | .number n => some (.done (.number n) stack)
  | .string text => some (.done (.string text) stack)
  | _ => none

def step : Reading → Token → Option Reading
  | .value stack, t => startValue stack t
  | .firstItem stack, .closeArray => some (.done (.array []) stack)
  | .firstItem stack, t => startValue (.array [] :: stack) t
  | .firstMember stack, .closeObject => some (.done (.object []) stack)
  | .firstMember stack, .string key => some (.colon [] key stack)
  | .name before stack, .string key => some (.colon before key stack)
  | .colon before key stack, .colon => some (.value (.object before key :: stack))
  | .done v (.array before :: stack), .comma => some (.value (.array (v :: before) :: stack))
  | .done v (.array before :: stack), .closeArray =>
    some (.done (.array (v :: before).reverse) stack)
  | .done v (.object before key :: stack), .comma => some (.name ((key, v) :: before) stack)
  | .done v (.object before key :: stack), .closeObject =>
    some (.done (.object ((key, v) :: before).reverse) stack)
  | _, _ => none

end Reading

def ofTokens? (ts : List Token) : Option Json :=
  match ts.foldlM Reading.step (.value []) with
  | some (.done v []) => some v
  | _ => none

def parse? (text : String) : Option Json := (tokens? text.toList).bind ofTokens?

end DigestFilter.Json
