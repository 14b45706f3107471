/-
Depth-first search of the call graph. A component is entered once, before the components that it
calls, and left once, behind all of them; shared components and cycles are allowed.
-/
import Verdicts.Result.Model

namespace Verdicts

/-- What a search has done so far. -/
structure Search where
  /-- The components entered, in the order in which they were. -/
  entered : List ComponentId := []
  /-- The components left, in the order in which they were. -/
  left : List ComponentId := []
  deriving DecidableEq, Repr, Inhabited

/-- Search from a component, along `next`. Each level of the recursion enters one component more, so
a `fuel` above the number of components is never used up. -/
def Search.visit (next : ComponentId → List ComponentId) : Nat → Search → ComponentId → Search
  | 0, s, _ => s
  | fuel + 1, s, id =>
    if id ∈ s.entered then s
    else
      let inner := (next id).foldl (visit next fuel) { s with entered := s.entered ++ [id] }
      { inner with left := inner.left ++ [id] }

namespace Model

/-- Search the call graph from several components, one after the other. -/
def search (m : Model) (starts : List ComponentId) : Search :=
  starts.foldl (Search.visit m.childrenOf (m.components.length + 1)) {}

/-- A component and everything that it calls, directly or not: callers before what they call first,
each component once. -/
def descendants (m : Model) (id : ComponentId) : List ComponentId :=
  (m.search [id]).entered

/-- All components, searched from the roots first. A component comes behind those that it calls,
unless they call it back. -/
def bottomUp (m : Model) : List ComponentId :=
  (m.search (m.roots.map (·.id) ++ m.components.map (·.id))).left

end Model

end Verdicts
