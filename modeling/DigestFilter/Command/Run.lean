import DigestFilter.Command.Request
import DigestFilter.Config
import DigestFilter.Filter.File
import DigestFilter.Identifier.Text

/-!
# Running commands

A command prints one JSON document and ends with an exit code, or it ends with a complaint. Every
command that writes a file does so as its last act on the files, and prints after that.
-/

namespace DigestFilter

inductive Complaint where
  | usage
  | refused (error : Error)
  | unreadable (fault : DeviceFault)
  | unprinted (fault : DeviceFault)

def Complaint.message : Complaint → String
  | .usage => "error: the arguments fit no command"
  | .refused error => "Error: " ++ error.message
  | .unreadable fault => "Error: " ++ fault.message
  | .unprinted fault => "failed printing to stdout: " ++ fault.message

structure Reply where
  document : Json
  exit : Nat := 0

abbrev Act (α : Type) := Attempt Complaint α

namespace Act

def attempt {α : Type} (a : Attempt Error α) : Act α := ExceptT.adapt .refused a

def ofExcept {α : Type} (r : Except Error α) : Act α := attempt (Attempt.ofExcept r)

def content (path : String) : Act (List UInt8) := Attempt.load .unreadable path

def input : Act (List UInt8) := Attempt.input .unreadable

end Act

/-! ## Documents -/

namespace Reply

def identifierMembers (x : Identifier) : List (String × Json) := [
  ("id", .ofText x.toHex),
  ("size", .ofNat x.size),
  ("base64", .ofText x.toBase64),
  ("hashes", .array ((hashes x).map fun code => .ofNat code.toNat))]

def contentMembers (a : Option Alphabet) (source : String) (content : List UInt8) :
    List (String × Json) :=
  let x := Identifier.ofContent content
  identifierMembers x ++ [("source", .ofText source), ("bytes", .ofNat content.length)] ++
    match a with
    | none => []
    | some a => [(a.name, .ofText (x.encode a))]

def filterMembers (path : String) (f : Filter) : List (String × Json) := [
  ("path", .ofText path),
  ("bytesize", .ofNat f.size),
  ("bitsize", .ofNat f.bitSize),
  ("space", .ofFloat f.space),
  ("empty", .bool f.isEmpty)]

def malformed (e : Error) (exit : Nat) : Reply where
  document := .record [("status", .ofText "error"), ("message", .ofText e.message)]
  exit := exit

end Reply

/-! ## Commands -/

open Reply

def Command.runIdentify (files : List String) (stdin : Bool) (base : Option Nat) : Act Reply := do
  let alphabet ← base.mapM fun b => Act.ofExcept (Alphabet.ofBase b)
  let piped ←
    if stdin || files.isEmpty then do pure [("-", ← Act.input)] else pure []
  let named ← files.mapM fun path => do return (path, ← Act.content path)
  let items := (piped ++ named).map fun c => Json.record (contentMembers alphabet c.1 c.2)
  return { document := .record [("count", .ofNat items.length), ("ids", .array items)] }

def Command.runParse (hex : String) : Reply :=
  match Identifier.parse hex with
  | .ok x => { document := .record (identifierMembers x) }
  | .error e => malformed e 1

namespace FilterCommand

def runCreate (config : Config) (path : String) (capacity : Option Nat) : Act Reply := do
  let f ← Act.ofExcept (Filter.empty (capacity.getD config.defaultCapacity.toNat))
  Act.attempt (f.save path config.writeHeader)
  return { document := .record [
    ("status", .ofText "ok"), ("path", .ofText path), ("bytesize", .ofNat f.size)] }

def runInsert (config : Config) (path : String) (ids files : List String) : Act Reply := do
  let f ← Act.attempt (Filter.load path)
  let parsed ← ids.mapM fun hex => Act.ofExcept (Identifier.parse hex)
  let named ← files.mapM fun file => do return Identifier.ofContent (← Act.content file)
  let inserted := parsed ++ named
  let f ← Act.ofExcept (f.insertAll inserted)
  Act.attempt (f.save path config.writeHeader)
  return { document := .record [
    ("status", .ofText "ok"),
    ("inserted", .array (inserted.map fun x => .ofText x.toHex)),
    ("space", .ofFloat f.space)] }

/-- The exit code tells whether all were found: 0 if so, 1 if not, 2 if one is malformed. -/
def runCheck (path : String) (ids : List String) : Act Reply := do
  let f ← Act.attempt (Filter.load path)
  match ids.mapM Identifier.parse with
  | .error e => return malformed e 2
  | .ok xs =>
    let results := xs.map fun x =>
      Json.record [("id", .ofText x.toHex), ("present", .bool (f.contains x))]
    return {
      document := .record [("count", .ofNat results.length), ("results", .array results)]
      exit := if xs.all fun x => f.contains x then 0 else 1 }

def runInfo (path : String) : Act Reply := do
  let f ← Act.attempt (Filter.load path)
  return { document := .record (filterMembers path f) }

def runMerge (config : Config) (a b : String) (op : MergeOp) (output : String) : Act Reply := do
  let left ← Act.attempt (Filter.load a)
  let right ← Act.attempt (Filter.load b)
  let merged ← Act.ofExcept (left.merge right op)
  Act.attempt (merged.save output config.writeHeader)
  return { document := .record (filterMembers output merged ++ [("op", .ofText op.name)]) }

def run (config : Config) : FilterCommand → Act Reply
  | .create path capacity => runCreate config path capacity
  | .insert path ids files => runInsert config path ids files
  | .check path ids => runCheck path ids
  | .info path => runInfo path
  | .merge a b op output => runMerge config a b op output

end FilterCommand

def Command.run (config : Config) : Command → Act Reply
  | .identify files stdin base => Command.runIdentify files stdin base
  | .parse hex => return Command.runParse hex
  | .filter command => command.run config

/-! ## Requests -/

structure Outcome where
  exit : Nat
  complaint : Option Complaint := none

namespace Outcome

def failed (complaint : Complaint) : Outcome := { exit := 1, complaint := some complaint }

def misused : Outcome := { exit := 2, complaint := some .usage }

def unprinted (fault : DeviceFault) : Outcome :=
  { exit := 101, complaint := some (.unprinted fault) }

/-- A document that could not be printed hides the exit code of its command. -/
def ending (exit : Nat) : Except DeviceFault Unit → Outcome
  | .ok () => { exit }
  | .error fault => unprinted fault

end Outcome

namespace Request

def versionText : String := "bitcache 0.1.0\n"

def helpText : String := "Usage: bitcache [OPTIONS] <id|parse|filter>\n"

def configPath (directory : String) : String :=
  (if directory = "" then "" else directory ++ "/") ++ "bitcache/config.json"

def config (directory named : Option String) : Act Config :=
  match named, directory with
  | some path, _ => Act.attempt (Config.load path)
  | none, some d => Act.attempt (Config.load (configPath d))
  | none, none => return {}

def render (format : OutputFormat) (document : Json) : String :=
  (match format with
    | .compact => document.compact
    | .pretty => document.pretty) ++ "\n"

def report (format : OutputFormat) (reply : Reply) : Program Outcome :=
  .print (render format reply.document) fun answer => .done (.ending reply.exit answer)

/-- Nobody is told when a usage text cannot be printed. -/
def announce (text : String) : Program Outcome := .print text fun _ => .done { exit := 0 }

def runInvocation (directory : Option String) (i : Invocation) : Program Outcome := do
  let reply ← ExceptT.run do
    let config ← config directory i.config
    i.command.run config
  match reply with
  | .ok reply => report i.format reply
  | .error complaint => return .failed complaint

/-- Runs a command line. `directory` is where settings usually are, if there is such a place. -/
def execute (directory : Option String) (args : List String) : Program Outcome :=
  match ofArguments args with
  | none => return .misused
  | some .help => announce helpText
  | some .version => announce versionText
  | some (.run invocation) => runInvocation directory invocation

end Request

end DigestFilter
