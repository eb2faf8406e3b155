import DigestFilter.Identifier.Text
import DigestFilter.Json.Number
import DigestFilter.Json.Token
import DigestFilter.Json.Writer
import DigestFilter.Text.Position

/-!
# Identifiers in JSON

An identifier is the JSON string of its hexadecimal text. Reading goes by the first token: when it
is not a string the rest of the document is not looked at, and what the string says is checked
before what follows it.
-/

namespace DigestFilter.Identifier

inductive JsonFault where
  | malformed
  | wrongKind (kind : String)
  | notHex (fault : Hex.Fault) (text : String)
  | refused (error : Error)

def JsonFault.message : JsonFault → String
  | .malformed => "malformed JSON"
  | .wrongKind kind => s!"invalid type: {kind}, expected a string"
  | .notHex fault text => Position.drop (fault.message ++ ": " ++ text)
  | .refused error => error.message

def toJson (x : Identifier) : Json := .ofText x.toHex

def ofHex (text : String) : Except JsonFault Identifier :=
  match Hex.decode (Utf8.encode text) with
  | .error fault => .error (.notHex fault text)
  | .ok bs => (ofBytes bs).mapError .refused

def numberKind? (n : Decimal.Literal) : Option String :=
  match Json.denotation? n with
  | some (.integer i) => some s!"integer \x60{i}\x60"
  | some (.double x) =>
    let digits := String.ofList (Decimal.Literal.ofDouble Json.numberStyle x).text
    some s!"floating point \x60{digits}\x60"
  | none => none

/-- How a message names the kind of the value that starts with a token, if one does. -/
def kindOf? : Json.Token → Option String
  | .null => some "null"
  | .bool b => some s!"boolean \x60{b}\x60"
  | .number n => numberKind? n
  | .openArray => some "sequence"
  | .openObject => some "map"
  | _ => none

def ofJson (document : String) : Except JsonFault Identifier :=
  match Json.Token.next? (Json.skipBlanks document.toList) with
  | some (.string (some text), rest) => do
    let x ← ofHex text
    if Json.skipBlanks rest = [] then .ok x else .error .malformed
  | some (token, _) =>
    match kindOf? token with
    | some kind => .error (.wrongKind kind)
    | none => .error .malformed
  | none => .error .malformed

end DigestFilter.Identifier
