import Mathlib.Data.List.Lex
import Mathlib.Data.List.Sort
import Mathlib.Logic.Function.Basic
import Mathlib.Order.Fin.Basic

/-! The order in which the dashboard lists the nodes of a workflow, after
    `apps/dashboard/src/lib/workflow-execution-model.ts`. The functions are generic in the type of ids, of which they use
    the order only. -/

namespace Windylane.Dashboard

/-- A string of JavaScript: its UTF-16 code units, by which `sort` compares. -/
abbrev JSString := List (Fin 65536)

/-- The ids of the nodes of a definition, and the ends of its edges. -/
structure GraphOf (σ : Type) where
  nodes : List σ
  edges : List (σ × σ)

variable {σ : Type} [LinearOrder σ]

/-- `sort()` of an array. -/
def sort (ids : List σ) : List σ := ids.insertionSort (· ≤ ·)

/-- `new Set(ids)`, in the order of insertion. -/
def setOf (ids : List σ) : List σ := ids.foldl (fun set id => if id ∈ set then set else set ++ [id]) []

/-- The maps `incoming` and `outgoing`. Every node has an entry in both. -/
structure Links (σ : Type) where
  incoming : σ → Int
  outgoing : σ → List σ

def addEdge (nodeIDs : List σ) (links : Links σ) (edge : σ × σ) : Links σ :=
  if edge.1 ∉ nodeIDs ∨ edge.2 ∉ nodeIDs then links
  else
    { outgoing := Function.update links.outgoing edge.1 (links.outgoing edge.1 ++ [edge.2])
      incoming := Function.update links.incoming edge.2 (links.incoming edge.2 + 1) }

/-- What the `while` loop changes. -/
structure Walk (σ : Type) where
  incoming : σ → Int
  ready : List σ
  ordered : List σ

/-- One target of the node that was taken from `ready`. -/
def Walk.release (walk : Walk σ) (target : σ) : Walk σ :=
  let next := walk.incoming target - 1
  { walk with
    incoming := Function.update walk.incoming target next
    ready := if next = 0 then sort (walk.ready ++ [target]) else walk.ready }

/-- The `while` loop, for `fuel` rounds at most. -/
def Walk.loop (outgoing : σ → List σ) : Nat → Walk σ → Walk σ
  | 0, walk => walk
  | fuel + 1, walk =>
    match walk.ready with
    | [] => walk
    | id :: rest =>
      loop outgoing fuel ((outgoing id).foldl Walk.release { walk with ready := rest, ordered := walk.ordered ++ [id] })

namespace GraphOf

def nodeIDs (g : GraphOf σ) : List σ := setOf g.nodes

/-- The edges that `addEdge` does not skip. -/
def proper (g : GraphOf σ) : List (σ × σ) := g.edges.filter fun e => e.1 ∈ g.nodeIDs ∧ e.2 ∈ g.nodeIDs

def links (g : GraphOf σ) : Links σ := g.edges.foldl (addEdge g.nodeIDs) ⟨fun _ => 0, fun _ => []⟩

/-- The loop over all nodes: each round takes another one, so their number bounds the rounds. -/
def walk (g : GraphOf σ) : Walk σ :=
  Walk.loop (fun id => sort (g.links.outgoing id)) g.nodeIDs.length
    ⟨g.links.incoming, sort (g.nodeIDs.filter (g.links.incoming · = 0)), []⟩

def topologicalNodeIDs (g : GraphOf σ) : List σ :=
  g.walk.ordered ++ sort (g.nodeIDs.filter (· ∉ g.walk.ordered))

end GraphOf

end Windylane.Dashboard
