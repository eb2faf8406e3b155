import DigestFilter.Files.Tree

/-!
# Programs over files

What a command does to the outside is a program: a tree of requests, each followed by what is done
with its answer. `Program.runOn` answers the requests from a `World` held in memory; the command
line answers them from the disk.
-/

namespace DigestFilter

inductive Program (α : Type) where
  | done (a : α)
  | probe (path : String) (next : Bool → Program α)
  | load (path : String) (next : Except DeviceFault (List UInt8) → Program α)
  | store (path : String) (content : List UInt8) (next : Except DeviceFault Unit → Program α)
  /-- Wait until the disk has what was stored. -/
  | sync (path : String) (next : Except DeviceFault Unit → Program α)
  | makeParents (path : String) (next : Except DeviceFault Unit → Program α)
  | input (next : Except DeviceFault (List UInt8) → Program α)
  | print (text : String) (next : Except DeviceFault Unit → Program α)

namespace Program

def bind {α β : Type} : Program α → (α → Program β) → Program β
  | .done a, f => f a
  | .probe path next, f => .probe path fun r => (next r).bind f
  | .load path next, f => .load path fun r => (next r).bind f
  | .store path content next, f => .store path content fun r => (next r).bind f
  | .sync path next, f => .sync path fun r => (next r).bind f
  | .makeParents path next, f => .makeParents path fun r => (next r).bind f
  | .input next, f => .input fun r => (next r).bind f
  | .print text next, f => .print text fun r => (next r).bind f

instance : Monad Program where
  pure := .done
  bind := bind

end Program

/-- Standard input and output hold what is left and what was printed, or refuse with a fault. -/
structure World where
  files : FileTree
  stdin : Except DeviceFault (List UInt8) := .ok []
  stdout : Except DeviceFault String := .ok ""
  sync : String → Except DeviceFault Unit := fun _ => .ok ()

namespace World

def change (w : World) (result : Except DeviceFault FileTree) :
    Except DeviceFault Unit × World :=
  match result with
  | .ok t => (.ok (), { w with files := t })
  | .error fault => (.error fault, w)

def print (w : World) (text : String) : Except DeviceFault Unit × World :=
  match w.stdout with
  | .ok before => (.ok (), { w with stdout := .ok (before ++ text) })
  | .error fault => (.error fault, w)

end World

namespace Program

def runOn {α : Type} : Program α → World → α × World
  | .done a, w => (a, w)
  | .probe path next, w => (next (w.files.isPresent path)).runOn w
  | .load path next, w => (next (w.files.read path)).runOn w
  | .store path content next, w =>
    let (answer, w') := w.change (w.files.write path content)
    (next answer).runOn w'
  | .sync path next, w => (next (w.sync path)).runOn w
  | .makeParents path next, w =>
    let (answer, w') := w.change (w.files.makeParents path)
    (next answer).runOn w'
  | .input next, w => (next w.stdin).runOn { w with stdin := w.stdin.map fun _ => [] }
  | .print text next, w =>
    let (answer, w') := w.print text
    (next answer).runOn w'

theorem runOn_bind {α β : Type} (p : Program α) (f : α → Program β) (w : World) :
    (p >>= f).runOn w = (f (p.runOn w).1).runOn (p.runOn w).2 := by
  change (p.bind f).runOn w = _
  induction p generalizing w with
  | done a => rfl
  | probe path next ih => exact ih _ w
  | load path next ih => exact ih _ w
  | store path content next ih => exact ih _ _
  | sync path next ih => exact ih _ w
  | makeParents path next ih => exact ih _ _
  | input next ih => exact ih _ _
  | print text next ih => exact ih _ _

end Program

abbrev Attempt (ε α : Type) := ExceptT ε Program α

namespace Attempt

variable {ε α : Type}

def ofAnswer {φ : Type} (onFault : φ → ε) : Except φ α → Attempt ε α
  | .ok a => pure a
  | .error fault => throw (onFault fault)

def ofExcept : Except ε α → Attempt ε α := ofAnswer fun e => e

def probe (path : String) : Attempt ε Bool := ExceptT.lift (.probe path .done)

def load (onFault : DeviceFault → ε) (path : String) : Attempt ε (List UInt8) := do
  ofAnswer onFault (← ExceptT.lift (.load path .done))

def store (onFault : DeviceFault → ε) (path : String) (content : List UInt8) : Attempt ε Unit := do
  ofAnswer onFault (← ExceptT.lift (.store path content .done))

def sync (onFault : DeviceFault → ε) (path : String) : Attempt ε Unit := do
  ofAnswer onFault (← ExceptT.lift (.sync path .done))

def makeParents (onFault : DeviceFault → ε) (path : String) : Attempt ε Unit := do
  ofAnswer onFault (← ExceptT.lift (.makeParents path .done))

def input (onFault : DeviceFault → ε) : Attempt ε (List UInt8) := do
  ofAnswer onFault (← ExceptT.lift (.input .done))

end Attempt

end DigestFilter
