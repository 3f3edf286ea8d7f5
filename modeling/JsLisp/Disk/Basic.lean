/-
A disk: a tree of directories and files, and the few operations on it.

The tree is kept flat.  A place is the list of names that leads to it from the
root, and the disk lists what stands at each place.  Paths are walked one name
at a time, so that a walk through a file or through nothing fails as it does on
a system with directories.

The tree has neither symbolic nor hard links.  Two places are therefore two files,
and a file changes only through its own place.
-/
import JsLisp.Disk.Fault
import JsLisp.Disk.Path

namespace JsLisp

abbrev Place := List String

inductive Entry
  | file (content : ByteArray)
  | directory

/-- Files are compared by their bytes. -/
instance : DecidableEq Entry
  | .file content, .file other =>
    match decEq content.data other.data with
    | isTrue h => isTrue (congrArg Entry.file (ByteArray.ext h))
    | isFalse h => isFalse fun heq => h (by cases heq; rfl)
  | .file _, .directory => isFalse nofun
  | .directory, .file _ => isFalse nofun
  | .directory, .directory => isTrue rfl

structure Disk where
  /-- The working directory, from which relative paths start. -/
  here : Place
  entries : List (Place × Entry)
deriving DecidableEq

/-- An operation leaves a disk behind, also when it fails half way. -/
abbrev DiskM := ExceptT Fault (StateM Disk)

namespace Disk

/-- A disk with an empty working directory one step below its root. -/
def fresh : Disk :=
  { here := ["work"], entries := [(["work"], .directory)] }

/-- What stands at a place.  The root is always there. -/
def entry? (disk : Disk) (place : Place) : Option Entry :=
  if place.isEmpty then some .directory else disk.entries.lookup place

def put (disk : Disk) (place : Place) (entry : Entry) : Disk :=
  { disk with entries := (place, entry) :: disk.entries.filter (·.1 ≠ place) }

/-- Walk down by name or up by two dots.  Every place that is left has to be a
directory; the last one need not exist. -/
def walk (disk : Disk) : Place → List String → Except Fault Place
  | place, [] => .ok place
  | place, name :: names =>
    match disk.entry? place with
    | none => .error .notFound
    | some (.file _) => .error .notDirectory
    | some .directory =>
      disk.walk (if name == ".." then place.dropLast else place ++ [name]) names

/-- How a path ends.  A slash or a dot at the end asks for a directory. -/
inductive Ending
  | name
  | slash
  | dot
deriving DecidableEq

def ending (path : Path) : Ending :=
  match path.pieces.getLast? with
  | some "" => .slash
  | some "." => .dot
  | _ => .name

/-- The place a path leads to. -/
def locate (disk : Disk) (path : Path) : Except Fault Place :=
  if path.text.toList.contains (Char.ofNat 0) then .error .nulInPath
  else if path.text == "" then .error .notFound
  else
    disk.walk (if path.isAbsolute then [] else disk.here)
      (path.pieces.filter fun piece => !Path.isIdle piece)

def isFile (disk : Disk) (path : Path) : Bool :=
  match disk.locate path with
  | .ok place =>
    match disk.entry? place with
    | some (.file _) => ending path == .name
    | _ => false
  | .error _ => false

def isDirectory (disk : Disk) (path : Path) : Bool :=
  match disk.locate path with
  | .ok place => disk.entry? place == some .directory
  | .error _ => false

def read (disk : Disk) (path : Path) : Except Fault ByteArray := do
  let place ← disk.locate path
  match disk.entry? place with
  | none => .error .notFound
  | some .directory => .error .isDirectory
  | some (.file content) =>
    if ending path = .name then .ok content else .error .notDirectory

/-- The text of a file that holds UTF-8. -/
def readText (disk : Disk) (path : Path) : Except Fault String := do
  let content ← disk.read path
  match Text.Utf8.decode? content with
  | some text => .ok text
  | none => .error .notText

/-- Put a file where the path leads, over any file that stands there.  Nothing
can be created under a path that ends in a slash. -/
def write (path : Path) (content : ByteArray) : DiskM Unit := do
  let disk ← get
  let place ← liftExcept (disk.locate path)
  match ending path, disk.entry? place with
  | .slash, _ => throw .isDirectory
  | _, some .directory => throw .isDirectory
  | .dot, some (.file _) => throw .notDirectory
  | .dot, none => throw .notFound
  | .name, _ => set (disk.put place (.file content))

def makeDirectory (path : Path) : DiskM Unit := do
  let disk ← get
  let place ← liftExcept (disk.locate path)
  match disk.entry? place with
  | some _ => throw .alreadyExists
  | none => set (disk.put place .directory)

/-- Make a directory, or do nothing if it is there. -/
def ensureDirectory (path : Path) : DiskM Unit :=
  tryCatch (makeDirectory path) fun fault => do
    if (← get).isDirectory path then pure () else throw fault

/-- Make the first of the paths, a directory, with those after it as its
parents.  A parent is made only when its child cannot be for want of it. -/
def ensureChain : List Path → DiskM Unit
  | [] => pure ()
  | path :: parents =>
    if path.text == "" then pure ()
    else
      tryCatch (ensureDirectory path) fun fault =>
        if fault = .notFound then do
          ensureChain parents
          ensureDirectory path
        else throw fault

def ensureDirectories (path : Path) : DiskM Unit :=
  ensureChain path.ancestors

/-- Write a file together with the directories above it. -/
def install (path : Path) (content : ByteArray) : DiskM Unit := do
  if let some parent := path.parent? then ensureDirectories parent
  write path content

/-- Every file below the working directory, by relative path, in order. -/
def files (disk : Disk) : List (String × ByteArray) :=
  let below := disk.entries.filterMap fun (place, entry) =>
    match entry with
    | .file content =>
      if disk.here.isPrefixOf place then
        some ("/".intercalate (place.drop disk.here.length), content)
      else none
    | .directory => none
  below.mergeSort fun a b => a.1 ≤ b.1

end Disk
end JsLisp
