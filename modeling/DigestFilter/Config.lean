import DigestFilter.Files.Program
import DigestFilter.Json.Number
import DigestFilter.Json.Reader
import DigestFilter.Json.Writer

/-!
# Settings

Settings are kept in a JSON file. A file that is not there means the defaults, and so does a field
that is not given; a file that cannot be read as settings is an error. Fields with other names are
left alone, and an array gives the fields in order.
-/

namespace DigestFilter

structure Config where
  /-- The size in bytes of new filters. -/
  defaultCapacity : UInt64 := 4096
  writeHeader : Bool := true
  deriving DecidableEq, Repr

namespace Config

instance : Inhabited Config := ⟨{}⟩

/-! ## JSON form -/

def toJson (c : Config) : Json :=
  .record [
    ("default_capacity", .ofNat c.defaultCapacity.toNat),
    ("write_header", .bool c.writeHeader)]

def word? : Json → Option UInt64
  | .number n => Json.word? n
  | _ => none

def flag? : Json → Option Bool
  | .bool b => some b
  | _ => none

/-- The one value of a field, or its default. A field that is given twice has no value. -/
def field? {α : Type} (read : Json → Option α) (fallback : α) : List Json → Option α
  | [] => some fallback
  | [v] => read v
  | _ => none

def valuesOf (name : String) (members : List Json.Member) : List Json :=
  members.filterMap fun m => if m.1 = some name then some m.2 else none

def ofFields? (capacity header : List Json) : Option Config := do
  return {
    defaultCapacity := ← field? word? (default : Config).defaultCapacity capacity
    writeHeader := ← field? flag? (default : Config).writeHeader header }

def ofJson? : Json → Option Config
  | .object members =>
    if members.all (·.1.isSome) then
      ofFields? (valuesOf "default_capacity" members) (valuesOf "write_header" members)
    else none
  | .array items => if items.length ≤ 2 then ofFields? (items.take 1) (items.drop 1) else none
  | _ => none

def check (c : Config) : Except Error Config :=
  if c.defaultCapacity = 0 then .error (.config .zeroCapacity) else .ok c

def parse (text : String) : Except Error Config :=
  match (Json.parse? text).bind ofJson? with
  | none => .error (.config .malformed)
  | some c => c.check

def decode (bs : List UInt8) : Except Error Config :=
  match Utf8.decode? bs with
  | none => .error (.config .unreadable)
  | some text => parse text

def encode (c : Config) : List UInt8 := Utf8.encode c.toJson.pretty

/-! ## Files -/

def load (path : String) : Attempt Error Config := do
  if ← Attempt.probe path then
    Attempt.ofExcept (decode (← Attempt.load (fun _ => .config .unreadable) path))
  else return {}

def save (c : Config) (path : String) : Attempt Error Unit := do
  Attempt.makeParents (fun _ => .config .noDirectory) path
  Attempt.store .device path c.encode

end Config

end DigestFilter
