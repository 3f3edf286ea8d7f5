/-
Programs: what the parser builds and the emitter writes out.
-/
namespace JsLisp

/-- Calls nest at most this deep, both when read and when written. -/
def maxNesting : Nat := 256

/-- A dotted name.  The first segment is a field of its own, so that no name is
without segments. -/
structure Name where
  head : String
  members : List String
deriving DecidableEq

namespace Name

def segments (name : Name) : List String :=
  name.head :: name.members

/-- The segments with dots between them. -/
def text (name : Name) : String :=
  ".".intercalate name.segments

def isDotted (name : Name) : Bool :=
  !name.members.isEmpty

/-- Cut the text at every dot.  Segments may come out empty. -/
def ofPath (path : String) : Name :=
  match (path.toList.splitOn '.').map String.ofList with
  | [] => ⟨path, []⟩
  | head :: members => ⟨head, members⟩

/-- The name with one more segment at its end. -/
def extend (name : Name) (segment : String) : Name :=
  { name with members := name.members ++ [segment] }

theorem segments_ne_nil (name : Name) : name.segments ≠ [] := by
  simp [segments]

end Name

/-- An expression.  Numbers keep their spelling. -/
inductive Expr
  | call (callee : Name) (args : List Expr)
  | name (name : Name)
  | string (value : String)
  | number (raw : String)

structure Program where
  body : List Expr

namespace Expr

/- Lists of expressions recurse beside expressions, here and wherever an
expression is taken apart. -/
mutual

/-- How many calls the innermost call stands in, itself included. -/
def nesting : Expr → Nat
  | call _ args => nestingAll args + 1
  | name _ => 0
  | string _ => 0
  | number _ => 0

def nestingAll : List Expr → Nat
  | [] => 0
  | e :: es => max (nesting e) (nestingAll es)

end

mutual

/-- Structural comparison, as no instance is derived through a list of the
type itself. -/
def same : Expr → Expr → Bool
  | call f as, call g bs => f == g && sameAll as bs
  | name m, name n => m == n
  | string v, string w => v == w
  | number r, number s => r == s
  | _, _ => false

def sameAll : List Expr → List Expr → Bool
  | [], [] => true
  | a :: as, b :: bs => same a b && sameAll as bs
  | _, _ => false

end

mutual

theorem eq_of_same : ∀ {a b : Expr}, same a b = true → a = b
  | call f as, call g bs, h => by
    simp only [same, Bool.and_eq_true, beq_iff_eq] at h
    rw [h.1, eq_of_sameAll h.2]
  | name m, name n, h => by simpa [same] using h
  | string v, string w, h => by simpa [same] using h
  | number r, number s, h => by simpa [same] using h
  | call .., name _, h | call .., string _, h | call .., number _, h => by simp [same] at h
  | name _, call .., h | name _, string _, h | name _, number _, h => by simp [same] at h
  | string _, call .., h | string _, name _, h | string _, number _, h => by simp [same] at h
  | number _, call .., h | number _, name _, h | number _, string _, h => by simp [same] at h

theorem eq_of_sameAll : ∀ {as bs : List Expr}, sameAll as bs = true → as = bs
  | [], [], _ => rfl
  | a :: as, b :: bs, h => by
    simp only [sameAll, Bool.and_eq_true] at h
    rw [eq_of_same h.1, eq_of_sameAll h.2]
  | [], _ :: _, h => by simp [sameAll] at h
  | _ :: _, [], h => by simp [sameAll] at h

end

mutual

theorem same_self : ∀ a : Expr, same a a = true
  | call f as => by simp [same, sameAll_self as]
  | name _ | string _ | number _ => by simp [same]

theorem sameAll_self : ∀ as : List Expr, sameAll as as = true
  | [] => rfl
  | a :: as => by simp [sameAll, same_self a, sameAll_self as]

end

instance : DecidableEq Expr := fun a b =>
  if h : same a b = true then isTrue (eq_of_same h)
  else isFalse fun e => h (e ▸ same_self a)

end Expr

deriving instance DecidableEq for Program

end JsLisp
