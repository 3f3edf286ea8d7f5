/-
Paths as text.

A path is kept as it was written, because messages show it so.  Slashes divide
it into pieces; empty pieces and single dots mean nothing, except that a
leading empty piece is the root and a leading dot is kept as the current
directory.
-/
namespace JsLisp

structure Path where
  text : String
deriving DecidableEq

namespace Path

inductive Component
  | root
  | current
  | parent
  | named (name : String)
deriving DecidableEq

/-- The texts between the slashes. -/
def pieces (path : Path) : List String :=
  (path.text.toList.splitOn '/').map String.ofList

def isAbsolute (path : Path) : Bool :=
  path.text.toList.head? == some '/'

/-- Pieces that take no step. -/
def isIdle (piece : String) : Bool :=
  piece == "" || piece == "."

def Component.ofPiece? (piece : String) : Option Component :=
  if isIdle piece then none
  else if piece == ".." then some .parent
  else some (.named piece)

/-- The part of a path that is kept in front of its steps. -/
def anchor (path : Path) : String :=
  if path.isAbsolute then "/"
  else if path.pieces.head? == some "." then "."
  else ""

/-- The pieces behind the anchor. -/
def body (path : Path) : List String :=
  if path.anchor == "" then path.pieces else path.pieces.tail

def components (path : Path) : List Component :=
  let front : List Component := match path.anchor with
    | "/" => [.root]
    | "." => [.current]
    | _ => []
  front ++ path.body.filterMap Component.ofPiece?

/-- The last component, when it is a name. -/
def fileName? (path : Path) : Option String :=
  match path.components.getLast? with
  | some (.named name) => some name
  | _ => none

/-- A file name up to its last dot.  A dot that starts the name divides
nothing. -/
def stem (name : String) : String :=
  match name.toList.reverse.dropWhile (· ≠ '.') with
  | [] => name
  | _ :: before => if before.isEmpty then name else String.ofList before.reverse

def fileStem? (path : Path) : Option String :=
  path.fileName?.map stem

/-- Put pieces behind an anchor. -/
def ofBody (anchor : String) (body : List String) : Path :=
  match anchor, body with
  | ".", [] => ⟨"."⟩
  | ".", body => ⟨"./" ++ "/".intercalate body⟩
  | anchor, body => ⟨anchor ++ "/".intercalate body⟩

/-- The path without its last component, and without anything idle before
that. -/
def parent? (path : Path) : Option Path :=
  match path.body.reverse.dropWhile isIdle with
  | [] => if path.anchor == "." then some ⟨""⟩ else none
  | _ :: before => some (ofBody path.anchor (before.dropWhile isIdle).reverse)

/-- The path and its parents, from the longest, as far as `limit` allows. -/
def ancestorsUpTo : Nat → Path → List Path
  | 0, path => [path]
  | limit + 1, path =>
    path :: match path.parent? with
      | some parent => ancestorsUpTo limit parent
      | none => []

/-- Every step up drops a piece, so the number of pieces bounds the steps. -/
def ancestors (path : Path) : List Path :=
  ancestorsUpTo (path.pieces.length + 1) path

/-- `file` seen from `dir`.  An absolute path stands for itself. -/
def join (dir file : Path) : Path :=
  if file.isAbsolute || dir.text == "" then file
  else if dir.text.toList.getLast? == some '/' then ⟨dir.text ++ file.text⟩
  else ⟨dir.text ++ "/" ++ file.text⟩

/-- Where the code of `source` is written: its stem with the extension, in the
output directory if there is one.  A source without a stem lends its whole
text. -/
def output (source : Path) (dir : Option Path) (extension : String) : Path :=
  let file : Path := ⟨source.fileStem?.getD source.text ++ "." ++ extension⟩
  match dir with
  | some dir => dir.join file
  | none => file

end Path
end JsLisp
