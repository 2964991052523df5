import Reflection.ClassIndex
/-!
# Bases before derived classes

Orders the classes of a batch so that each comes after all its bases. Classes that do not depend on
each other keep their order. There is no such order exactly if bases run in a circle.
-/

namespace Reflection

/-- Classes that derive from each other in a circle: their names along it, the first one again at
the end. -/
structure DependencyCycle where
  names : List String
deriving DecidableEq, Repr

/-- The wording of the error. -/
def DependencyCycle.message (c : DependencyCycle) : String :=
  "cyclic base-class dependency: " ++ " -> ".intercalate c.names

namespace ClassIndex

/-- The classes in the batch that a class derives from, one for each base that is found. -/
def basesOf (x : ClassIndex) (i : Nat) : List Nat :=
  match x.get? i with
  | some d => d.bases.filterMap (x.resolve? d)
  | none => []

/-- Adds a class to the end of `order`, after those of its bases that are not in it. `path` leads
to the class; one that is on it already closes a circle, given as an error. The number bounds the
length of the path. -/
def visit (bases : Nat → List Nat) : Nat → List Nat → List Nat → Nat → Except (List Nat) (List Nat)
  | 0, _, order, _ => .ok order
  | n + 1, path, order, i =>
    if order.contains i then .ok order
    else if path.contains i then .error (path.dropWhile (· ≠ i) ++ [i])
    else ((bases i).foldlM (visit bases n (path ++ [i])) order).map (· ++ [i])

/-- The numbers of all classes, every base before the classes that derive from it. -/
def order (x : ClassIndex) : Except DependencyCycle (List Nat) :=
  ((List.range x.size).foldlM (visit x.basesOf (x.size + 1) []) []).mapError fun cycle =>
    ⟨cycle.map x.nameOf⟩

end ClassIndex
end Reflection
