import Propositional.CommandLine.Files

/-!
# A directory held in memory

One system among others: it has a working directory, with files and directories in it, and besides these
nothing but the directories above.

* `Entry`, `Directory` — a tree of files and directories, with the working directory as its root;
* `Directory.read` — the bytes of the file that a name leads to;
* `Directory.files` — the files of this system.
-/

namespace Propositional.CommandLine

/-- What a path inside the working directory leads to. -/
inductive Entry where
  | file (bytes : ByteArray)
  | directory

/-- Files and directories by their paths from the working directory, which has the empty path. -/
structure Directory where
  entries : List (List String × Entry)

namespace Directory

/-- The components of a name between its slashes, the empty ones included. -/
def componentsFrom (component : List Char) : List Char → List (List Char)
  | [] => [component.reverse]
  | c :: rest =>
    if c = '/' then component.reverse :: componentsFrom [] rest
    else componentsFrom (c :: component) rest

/-- The path of a name from the working directory, without empty components and single dots. -/
def pathOf (name : String) : List String :=
  ((componentsFrom [] name.toList).filter fun part => part != [] && part != ['.']).map
    String.ofList

/-- Where a name has led so far: to a path from the working directory, or out of it. -/
inductive Place where
  | inside (path : List String)
  | outside
  deriving DecidableEq, Repr

/-- The entry at a path. -/
def entry? (d : Directory) : List String → Option Entry
  | [] => some .directory
  | path => d.entries.lookup path

/-- The largest number of bytes in a component of a name. -/
def maxComponent : Nat := 255

/-- The largest number of bytes in a name. -/
def maxName : Nat := 4095

/-- A place, if it is a directory. -/
def requireDirectory (d : Directory) : Place → Except OpenError Unit
  | .outside => .ok ()
  | .inside path =>
    match d.entry? path with
    | some .directory => .ok ()
    | some (.file _) => .error .notDirectory
    | none => .error .notFound

/-- Go from a directory to one of its entries, or by two dots to the directory above it. -/
def enter (d : Directory) (component : List Char) : Place → Except OpenError Place
  | .outside => if component = ['.', '.'] then .ok .outside else .error .notFound
  | .inside path =>
    if component = ['.', '.'] then .ok (if path = [] then .outside else .inside path.dropLast)
    else
      match d.entry? (path ++ [String.ofList component]) with
      | some _ => .ok (.inside (path ++ [String.ofList component]))
      | none => .error .notFound

/-- Follow one component of a name.  An empty one and a single dot stay in the directory. -/
def follow (d : Directory) (place : Place) (component : List Char) : Except OpenError Place := do
  d.requireDirectory place
  if component = [] || component = ['.'] then .ok place
  else if maxComponent < (String.ofList component).utf8ByteSize then .error .nameTooLong
  else d.enter component place

/-- The place that a name leads to.  A name that begins with a slash leads out. -/
def resolve (d : Directory) (name : String) : Except OpenError Place :=
  if name.isEmpty then .error .notFound
  else if maxName < name.utf8ByteSize then .error .nameTooLong
  else
    let start := if name.toList.head? = some '/' then .outside else .inside []
    (componentsFrom [] name.toList).foldlM d.follow start

/-- The bytes of the file that a name leads to. -/
def read (d : Directory) (name : String) : Except OpenError ByteArray :=
  match d.resolve name with
  | .error e => .error e
  | .ok .outside => .error .isDirectory
  | .ok (.inside path) =>
    match d.entry? path with
    | some (.file bytes) => .ok bytes
    | some .directory => .error .isDirectory
    | none => .error .notFound

/-- The files of the system that has nothing else. -/
def files (d : Directory) : Files := ⟨d.read⟩

end Directory

end Propositional.CommandLine
