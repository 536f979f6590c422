import Graft.Bytes
import Graft.Symbol

/-!
# Derivation trees

A leaf holds octets and an inner node holds a symbol over its children, which
need not fit any grammar. A tree renders to the concatenation of its leaves from
left to right. Trees are compared by shape, leaf octets and symbol numbers.
-/

namespace Graft

/-- A derivation tree. -/
inductive Tree where
  /-- Octets that stand for themselves. -/
  | text (octets : Bytes)
  /-- A symbol expanded into a list of subtrees. -/
  | expansion (symbol : Symbol) (children : List Tree)
deriving Repr, Inhabited

namespace Tree

/-- The symbol at the root, unless the tree is a leaf. -/
def symbol? : Tree → Option Symbol
  | .text _ => none
  | .expansion symbol _ => some symbol

/-- The subtrees below the root; a leaf has none. -/
def children : Tree → List Tree
  | .text _ => []
  | .expansion _ children => children

/-- Whether the tree is a leaf. -/
def isText : Tree → Bool
  | .text _ => true
  | .expansion _ _ => false

mutual

/-- The octets of all leaves, left to right. -/
def render : Tree → Bytes
  | .text octets => octets
  | .expansion _ children => renderAll children

/-- The octets of a row of trees. -/
def renderAll : List Tree → Bytes
  | [] => []
  | tree :: rest => render tree ++ renderAll rest

end

mutual

/-- The number of nodes, leaves included. -/
def count : Tree → Nat
  | .text _ => 1
  | .expansion _ children => 1 + countAll children

/-- The number of nodes in a row of trees. -/
def countAll : List Tree → Nat
  | [] => 0
  | tree :: rest => count tree + countAll rest

end

mutual

/-- How many levels of inner nodes there are below the root. -/
def innerHeight : Tree → Nat
  | .text _ => 0
  | .expansion _ children => innerHeightAll children

/-- The most levels of inner nodes that a row of trees has, their roots included. -/
def innerHeightAll : List Tree → Nat
  | [] => 0
  | tree :: rest =>
    max (if tree.isText then 0 else innerHeight tree + 1) (innerHeightAll rest)

end

mutual

/-- Equality of shape, leaf octets and symbol numbers. -/
def same : Tree → Tree → Bool
  | .text left, .text right => left == right
  | .expansion left lefts, .expansion right rights => left.same right && sameAll lefts rights
  | _, _ => false

/-- Equality of two rows of trees, one by one. -/
def sameAll : List Tree → List Tree → Bool
  | [], [] => true
  | left :: lefts, right :: rights => same left right && sameAll lefts rights
  | _, _ => false

end

mutual

/-- Decide whether two trees are equal, symbols compared with all they carry. -/
def decEq : (left right : Tree) → Decidable (left = right)
  | .text left, .text right =>
    if same : left = right then isTrue (by rw [same])
    else isFalse (by simpa using same)
  | .text _, .expansion _ _ => isFalse (by simp)
  | .expansion _ _, .text _ => isFalse (by simp)
  | .expansion left lefts, .expansion right rights =>
    match decEqAll lefts rights with
    | isTrue children =>
      if same : left = right then isTrue (by rw [same, children])
      else isFalse (by simp [same])
    | isFalse different => isFalse (by simp [different])

/-- Decide whether two rows of trees are equal. -/
def decEqAll : (lefts rights : List Tree) → Decidable (lefts = rights)
  | [], [] => isTrue rfl
  | [], _ :: _ => isFalse (by simp)
  | _ :: _, [] => isFalse (by simp)
  | left :: lefts, right :: rights =>
    match decEq left right with
    | isTrue first =>
      match decEqAll lefts rights with
      | isTrue rest => isTrue (by rw [first, rest])
      | isFalse different => isFalse (by simp [different])
    | isFalse different => isFalse (by simp [different])

end

instance : DecidableEq Tree := decEq

end Tree

end Graft
