/-!
The elementary cycles of a graph: closed ways along its edges that meet no vertex twice. A cycle is
written as the list of its vertices from the smallest one on.
-/

namespace BusinessModel

/-- An edge from one vertex to another. -/
structure Edge where
  source : String
  target : String
deriving DecidableEq, Repr, Inhabited

namespace Cycle

/-- The members of a list, each once, sorted. -/
def sorted (xs : List String) : List String :=
  let sorted := xs.mergeSort fun a b => a ≤ b
  sorted.foldr (fun x rest => if rest.head? == some x then rest else x :: rest) []

/-- The vertices to which an edge leads, sorted. -/
def successors (edges : List Edge) (v : String) : List String :=
  sorted ((edges.filter (·.source == v)).map (·.target))

/-- The vertices from which a way along the edges leads into the given ones, these included. -/
def reaching (edges : List Edge) : Nat → List String → List String
  | 0, found => found
  | fuel + 1, found =>
    match edges.filter fun e => found.contains e.target && !found.contains e.source with
    | [] => found
    | more => reaching edges fuel (found ++ sorted (more.map (·.source)))

/-- The cycles that begin with a way: `way` is the way from `start` so far, its end first. -/
def closing (edges : List Edge) (start : String) : Nat → List String → List (List String)
  | 0, _ => []
  | fuel + 1, way =>
    (successors edges (way.headD start)).flatMap fun next =>
      if next == start then [way.reverse]
      else if way.contains next then []
      else closing edges start fuel (next :: way)

/-- The cycles whose smallest vertex is `start`: those along vertices that are not smaller and lead
back to it. -/
def startingAt (edges : List Edge) (start : String) : List (List String) :=
  let above := edges.filter fun e => start ≤ e.source && start ≤ e.target
  let back := reaching above (above.length + 1) [start]
  let inside := above.filter fun e => back.contains e.source && back.contains e.target
  closing inside start (inside.length + 1) [start]

/-- All elementary cycles of a graph, in the order of their vertices. -/
def all (edges : List Edge) : List (List String) :=
  (sorted (edges.map (·.source))).flatMap (startingAt edges)

end Cycle

end BusinessModel
