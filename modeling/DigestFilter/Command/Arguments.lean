import DigestFilter.Numeral

/-!
# Command-line arguments

How the arguments of one command are told apart. Long flags start with two dashes and short ones
with one; short flags can stand together, and a value can be attached, behind `=` or as the next
argument. Two dashes alone end the flags. A flag that asks for help or for the version ends the
command where it stands, so only what stands before it has to fit.
-/

namespace DigestFilter.Arguments

inductive Effect where
  | switch
  /-- Takes a value; some flags may be given more than once. -/
  | value (repeatable : Bool)
  | help
  | version
  deriving DecidableEq

structure Flag where
  name : String
  short : Option Char := none
  effect : Effect
  accepts : String → Bool := fun _ => true

structure Grammar where
  flags : List Flag
  subcommands : List String := []
  positionals : Option Nat := some 0
  /-- What can stand at a place among them, counted from zero. -/
  accepts : Nat → String → Bool := fun _ _ => true

inductive Stop where
  | help
  | version

structure Found where
  switches : List String := []
  values : List (String × String) := []
  positionals : List String := []
  subcommand : Option (String × List String) := none
  stop : Option Stop := none

namespace Found

def has (f : Found) (name : String) : Bool := f.switches.contains name

def valuesOf (f : Found) (name : String) : List String :=
  f.values.filterMap fun v => if v.1 = name then some v.2 else none

def value? (f : Found) (name : String) : Option String := (f.valuesOf name).head?

def addValue (f : Found) (flag : Flag) (value : String) : Option Found :=
  if ¬flag.accepts value ∨ (flag.effect = .value false ∧ f.valuesOf flag.name ≠ []) then none
  else some { f with values := f.values ++ [(flag.name, value)] }

def addSwitch (f : Found) (flag : Flag) : Option Found :=
  if f.has flag.name then none else some { f with switches := f.switches ++ [flag.name] }

def addPositional (f : Found) (g : Grammar) (text : String) : Option Found :=
  let place := f.positionals.length
  if g.positionals.all (place < ·) && g.accepts place text then
    some { f with positionals := f.positionals ++ [text] }
  else none

end Found

/-- What is left to do after an argument that holds flags. -/
inductive Next where
  | go (f : Found)
  | wants (flag : Flag) (f : Found)
  | stop (f : Found)

def applyFlag (f : Found) (flag : Flag) (attached : Option String) : Option Next :=
  match flag.effect, attached with
  | .switch, none => (f.addSwitch flag).map .go
  | .value _, some v => (f.addValue flag v).map .go
  | .value _, none => some (.wants flag f)
  | .help, none => some (.stop { f with stop := some .help })
  | .version, none => some (.stop { f with stop := some .version })
  | _, some _ => none

def applyLong (g : Grammar) (f : Found) (cs : List Char) : Option Next := do
  let name := String.ofList (cs.takeWhile (· != '='))
  let flag ← g.flags.find? (·.name == name)
  match cs.dropWhile (· != '=') with
  | [] => applyFlag f flag none
  | _ :: value => applyFlag f flag (some (String.ofList value))

def applyShorts (g : Grammar) (f : Found) : List Char → Option Next
  | [] => some (.go f)
  | c :: cs => do
    let flag ← g.flags.find? (·.short == some c)
    match flag.effect, cs with
    | .value _, [] => applyFlag f flag none
    | .value _, '=' :: value => applyFlag f flag (some (String.ofList value))
    | .value _, value => applyFlag f flag (some (String.ofList value))
    | _, _ =>
      match ← applyFlag f flag none with
      | .go f' => applyShorts g f' cs
      | other => some other

def isFlags (arg : String) : Bool :=
  match arg.toList with
  | '-' :: _ :: _ => true
  | _ => false

def applyFlags (g : Grammar) (f : Found) (arg : String) : Option Next :=
  match arg.toList with
  | '-' :: '-' :: cs => applyLong g f cs
  | '-' :: cs => applyShorts g f cs
  | _ => none

def scanPositionals (g : Grammar) (f : Found) (args : List String) : Option Found :=
  args.foldlM (fun f arg => f.addPositional g arg) f

def scan (g : Grammar) (f : Found) : List String → Option Found
  | [] => some f
  | arg :: args =>
    if arg = "--" then scanPositionals g f args
    else if isFlags arg then
      match applyFlags g f arg with
      | none => none
      | some (.stop f') => some f'
      | some (.go f') => scan g f' args
      | some (.wants flag f') =>
        match args with
        | [] => none
        | value :: rest =>
          if isFlags value then none
          else
            match f'.addValue flag value with
            | none => none
            | some f'' => scan g f'' rest
    else if g.subcommands.contains arg then some { f with subcommand := some (arg, args) }
    else
      match f.addPositional g arg with
      | none => none
      | some f' => scan g f' args

/-! ## Values -/

/-- An unsigned number below `2 ^ bits`, with or without a plus sign. -/
def unsigned? (bits : Nat) (text : String) : Option Nat := do
  let digits := match text.toList with
    | '+' :: ds => ds
    | ds => ds
  let n ← Numeral.ofDecimal? digits
  if n < 1 <<< bits then some n else none

/-- A number that is read with its sign and must not be negative. -/
def nonNegative? (bits : Nat) (text : String) : Option Nat :=
  match text.toList with
  | '-' :: ds => (Numeral.ofDecimal? ds).filter (· == 0)
  | _ => unsigned? bits text

def isPath (text : String) : Bool := text != ""

end DigestFilter.Arguments
