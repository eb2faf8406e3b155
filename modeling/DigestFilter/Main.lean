import DigestFilter.Command.Run

/-!
# The command line

Answers the requests of a command from the disk, standard input and standard output, and ends with
its exit code. What a command does is decided in `Request.execute`.
-/

namespace DigestFilter.Disk

def faultOf : IO.Error → DeviceFault
  | .noFileOrDirectory .. => .notFound
  | e => .other (toString e)

def answer {α : Type} (act : IO α) : IO (Except DeviceFault α) := do
  match ← act.toBaseIO with
  | .ok a => return .ok a
  | .error e => return .error (faultOf e)

def isPresent (path : String) : IO Bool := do
  return (← answer (IO.FS.Handle.mk path .read)).isOk

/-- The directory that a path stands in, up to its last slash. -/
def parent (path : String) : String :=
  String.ofList (((path.toList.reverse.dropWhile (· != '/')).drop 1).reverse)

def makeParents (path : String) : IO Unit :=
  if parent path = "" then pure () else IO.FS.createDirAll (parent path)

def print (text : String) : IO Unit := do
  let out ← IO.getStdout
  out.putStr text
  out.flush

def perform {α : Type} : Program α → IO α
  | .done a => return a
  | .probe path next => do perform (next (← isPresent path))
  | .load path next => do
    let bytes ← answer (IO.FS.readBinFile path)
    perform (next (bytes.map fun b => b.data.toList))
  | .store path content next => do
    perform (next (← answer (IO.FS.writeBinFile path content.toByteArray)))
  -- What is stored is closed at once, and the runtime has no call to wait for the disk.
  | .sync _ next => perform (next (.ok ()))
  | .makeParents path next => do perform (next (← answer (makeParents path)))
  | .input next => do
    let bytes ← answer do (← IO.getStdin).readBinToEnd
    perform (next (bytes.map fun b => b.data.toList))
  | .print text next => do perform (next (← answer (print text)))

def configDirectory : IO (Option String) := do
  match ← IO.getEnv "XDG_CONFIG_HOME" with
  | some directory =>
    if directory.startsWith "/" then return some directory else home
  | none => home
where
  home : IO (Option String) := do
    return (← IO.getEnv "HOME").map (· ++ "/.config")

end DigestFilter.Disk

open DigestFilter in
def main (args : List String) : IO UInt32 := do
  let directory ← Disk.configDirectory
  let outcome ← Disk.perform (Request.execute directory args)
  -- The exit code stands even if nobody can be told why.
  if let some complaint := outcome.complaint then
    discard (Disk.answer (IO.eprintln complaint.message))
  return UInt32.ofNat outcome.exit
