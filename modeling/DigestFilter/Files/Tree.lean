import DigestFilter.Error

/-!
# File trees

A tree of directories with files in them, flat: every node stands under its list of names, and the
root has none. A path is followed name by name, so what it passes through has to be a directory. It
starts at the root if it starts with a slash, and else in the working directory.
-/

namespace DigestFilter

inductive Node where
  | file (content : List UInt8)
  | directory
  deriving DecidableEq

/-- The names on the way from the root. -/
abbrev Location := List String

structure FileTree where
  nodes : List (Location × Node) := []
  workingDirectory : Location := []

/-- Where a path leads; `slash` tells whether it ends in one, as only a directory's path may. -/
inductive Place where
  | file (location : Location) (content : List UInt8) (slash : Bool)
  | directory (location : Location)
  | vacant (location : Location) (slash : Bool)

namespace FileTree

def node? (t : FileTree) (l : Location) : Option Node :=
  if l = [] then some .directory else (t.nodes.find? (·.1 == l)).map (·.2)

def put (t : FileTree) (l : Location) (n : Node) : FileTree :=
  { t with nodes := (l, n) :: t.nodes.filter (·.1 != l) }

/-! ## Paths -/

def names (path : String) : List String := (path.toList.splitOn '/').map String.ofList

def route (t : FileTree) (path : String) : List String :=
  if path.toList.head? = some '/' then names path else t.workingDirectory ++ names path

def follow (t : FileTree) (here : Location) : List String → Except DeviceFault Place
  | [] => .ok (.directory here)
  | name :: rest =>
    if name = "" ∨ name = "." then t.follow here rest
    else if name = ".." then t.follow here.dropLast rest
    else
      match t.node? (here ++ [name]) with
      | some .directory => t.follow (here ++ [name]) rest
      | some (.file content) =>
        if rest.all (· == "") then .ok (.file (here ++ [name]) content (rest != []))
        else .error .notDirectory
      | none =>
        if rest.all (· == "") then .ok (.vacant (here ++ [name]) (rest != []))
        else .error .notFound

def locate (t : FileTree) (path : String) : Except DeviceFault Place := t.follow [] (t.route path)

/-! ## Reading and writing -/

def isPresent (t : FileTree) (path : String) : Bool :=
  match t.locate path with
  | .ok (.file _ _ false) | .ok (.directory _) => true
  | _ => false

def read (t : FileTree) (path : String) : Except DeviceFault (List UInt8) := do
  match ← t.locate path with
  | .file _ content false => .ok content
  | .file _ _ true => .error .notDirectory
  | .directory _ => .error .isDirectory
  | .vacant _ _ => .error .notFound

def write (t : FileTree) (path : String) (content : List UInt8) : Except DeviceFault FileTree := do
  match ← t.locate path with
  | .file l _ false | .vacant l false => .ok (t.put l (.file content))
  | .directory _ | .file _ _ true | .vacant _ true => .error .isDirectory

def makeDirectories (t : FileTree) (here : Location) :
    List String → Except DeviceFault FileTree
  | [] => .ok t
  | name :: rest =>
    if name = "" ∨ name = "." then t.makeDirectories here rest
    else if name = ".." then t.makeDirectories here.dropLast rest
    else
      match t.node? (here ++ [name]) with
      | some .directory => t.makeDirectories (here ++ [name]) rest
      | some (.file _) => .error .notDirectory
      | none => (t.put (here ++ [name]) .directory).makeDirectories (here ++ [name]) rest

def makeParents (t : FileTree) (path : String) : Except DeviceFault FileTree :=
  t.makeDirectories [] ((t.route path).filter fun n => n != "" && n != ".").dropLast

/-- The files below the working directory, in ascending order of their paths from there. -/
def files (t : FileTree) : List (String × List UInt8) :=
  let found := t.nodes.filterMap fun (l, n) =>
    match n, t.workingDirectory.isPrefixOf l with
    | .file content, true =>
      some ("/".intercalate (l.drop t.workingDirectory.length), content)
    | _, _ => none
  found.mergeSort fun a b => decide (a.1 ≤ b.1)

end FileTree

end DigestFilter
