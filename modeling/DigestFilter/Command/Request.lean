import DigestFilter.Command.Arguments
import DigestFilter.Filter.Merge

/-!
# What a command line asks for

The commands of the tool, and how they are spelled. `Request.ofArguments` gives nothing when the
arguments fit no command.
-/

namespace DigestFilter

inductive OutputFormat where
  | compact
  | pretty
  deriving DecidableEq

inductive FilterCommand where
  | create (path : String) (capacity : Option Nat)
  | insert (path : String) (ids : List String) (files : List String)
  | check (path : String) (ids : List String)
  | info (path : String)
  | merge (a b : String) (op : MergeOp) (output : String)

inductive Command where
  | identify (files : List String) (stdin : Bool) (base : Option Nat)
  | parse (hex : String)
  | filter (command : FilterCommand)

structure Invocation where
  format : OutputFormat
  config : Option String
  command : Command

inductive Request where
  | help
  | version
  | run (invocation : Invocation)

namespace Request

open Arguments

/-! ## Grammars -/

def format? : String → Option OutputFormat
  | "json" => some .compact
  | "text" => some .pretty
  | _ => none

def helpFlag : Flag := { name := "help", short := some 'h', effect := .help }

def topGrammar : Grammar where
  flags := [
    { name := "format", short := some 'f', effect := .value false,
      accepts := fun v => (format? v).isSome },
    { name := "verbose", short := some 'v', effect := .switch },
    { name := "config", effect := .value false, accepts := isPath },
    { name := "version", short := some 'V', effect := .version },
    helpFlag]
  subcommands := ["id", "parse", "filter", "help"]

def identifyGrammar : Grammar where
  flags := [
    { name := "stdin", effect := .switch },
    { name := "base", short := some 'b', effect := .value false,
      accepts := fun v => (nonNegative? 32 v).isSome },
    helpFlag]
  positionals := none
  accepts := fun _ => isPath

def parseGrammar : Grammar where
  flags := [helpFlag]
  positionals := some 1

def filterGrammar : Grammar where
  flags := [helpFlag]
  subcommands := ["new", "insert", "check", "info", "merge", "help"]

def createGrammar : Grammar where
  flags := [
    { name := "capacity", short := some 'c', effect := .value false,
      accepts := fun v => (unsigned? 64 v).isSome },
    helpFlag]
  positionals := some 1
  accepts := fun _ => isPath

/-- A path, and identifiers that are looked at only later. -/
def isPathThenIds (place : Nat) (text : String) : Bool := place != 0 || isPath text

def insertGrammar : Grammar where
  flags := [{ name := "file", effect := .value true, accepts := isPath }, helpFlag]
  positionals := none
  accepts := isPathThenIds

def checkGrammar : Grammar where
  flags := [helpFlag]
  positionals := none
  accepts := isPathThenIds

def infoGrammar : Grammar where
  flags := [helpFlag]
  positionals := some 1
  accepts := fun _ => isPath

def mergeGrammar : Grammar where
  flags := [
    { name := "op", effect := .value false, accepts := fun v => (MergeOp.ofName v).isOk },
    { name := "output", short := some 'o', effect := .value false, accepts := isPath },
    helpFlag]
  positionals := some 2
  accepts := fun _ => isPath

def isHelpTopic : List String → Bool
  | [] => true
  | [name] => topGrammar.subcommands.contains name
  | ["filter", name] => filterGrammar.subcommands.contains name
  | _ => false

/-! ## Commands -/

inductive Asked (α : Type) where
  | stop (s : Stop)
  | command (c : α)

def Asked.map {α β : Type} (f : α → β) : Asked α → Asked β
  | .stop s => .stop s
  | .command c => .command (f c)

/-- Goes through the arguments; `complete` says what they mean unless they ask for help. -/
def read {α : Type} (g : Grammar) (args : List String) (complete : Found → Option α) :
    Option (Asked α) := do
  let found ← scan g {} args
  match found.stop with
  | some s => return .stop s
  | none => return .command (← complete found)

def help? (topic : List String) : Option Stop := if isHelpTopic topic then some .help else none

def identify? (args : List String) : Option (Asked Command) :=
  read identifyGrammar args fun found =>
    some (.identify found.positionals (found.has "stdin")
      ((found.value? "base").bind (nonNegative? 32)))

def parse? (args : List String) : Option (Asked Command) :=
  read parseGrammar args fun found => do
    return .parse (← found.positionals.head?)

def create? (args : List String) : Option (Asked FilterCommand) :=
  read createGrammar args fun found => do
    let path ← found.positionals.head?
    return .create path ((found.value? "capacity").bind (unsigned? 64))

def insert? (args : List String) : Option (Asked FilterCommand) :=
  read insertGrammar args fun found => do
    let path ← found.positionals.head?
    return .insert path found.positionals.tail (found.valuesOf "file")

def check? (args : List String) : Option (Asked FilterCommand) :=
  read checkGrammar args fun found => do
    let path ← found.positionals.head?
    if found.positionals.tail = [] then none else return .check path found.positionals.tail

def info? (args : List String) : Option (Asked FilterCommand) :=
  read infoGrammar args fun found => do
    return .info (← found.positionals.head?)

def merge? (args : List String) : Option (Asked FilterCommand) :=
  read mergeGrammar args fun found => do
    match found.positionals with
    | [a, b] =>
      let op := (found.value? "op").bind fun name => (MergeOp.ofName name).toOption
      return .merge a b (op.getD default) (← found.value? "output")
    | _ => none

def filter? (args : List String) : Option (Asked FilterCommand) := do
  let found ← scan filterGrammar {} args
  match found.stop, found.subcommand with
  | some s, _ => return .stop s
  | none, some ("new", rest) => create? rest
  | none, some ("insert", rest) => insert? rest
  | none, some ("check", rest) => check? rest
  | none, some ("info", rest) => info? rest
  | none, some ("merge", rest) => merge? rest
  | none, some ("help", topic) => return .stop (← help? ("filter" :: topic))
  | none, _ => none

def command? : Option (String × List String) → Option (Asked Command)
  | some ("id", rest) => identify? rest
  | some ("parse", rest) => parse? rest
  | some ("filter", rest) => (filter? rest).map (.map .filter)
  | some ("help", topic) => (help? topic).map .stop
  | _ => none

def ofAsked (format : OutputFormat) (config : Option String) : Asked Command → Request
  | .stop .help => .help
  | .stop .version => .version
  | .command c => .run { format, config, command := c }

def ofArguments (args : List String) : Option Request := do
  let found ← scan topGrammar {} args
  let format := ((found.value? "format").bind format?).getD .compact
  let config := found.value? "config"
  match found.stop with
  | some s => return ofAsked format config (.stop s)
  | none => return ofAsked format config (← command? found.subcommand)

end Request

end DigestFilter
