import Ecoa.Declared.Project

/-!
# Wirings

The wires of an assembly as a graph: its nodes are the services that wires join, numbered as wires
first name them, and its edges are the wires. An edge has no direction, and the edges at a node come
from either of their ends and in no order that matters; their numbers put them into that of the
wires.
-/

namespace Ecoa

/-- A wire between two nodes, with its number in the assembly. -/
structure WireEdge where
  source : Nat
  target : Nat
  number : Nat

namespace WireEdge

/-- The edge as seen from its target. -/
def reverse (e : WireEdge) : WireEdge := ⟨e.target, e.source, e.number⟩

/-- The other end, as seen from a node. -/
def farEnd (e : WireEdge) (node : Nat) : Nat := if e.source = node then e.target else e.source

/-- Put an edge before the first one whose number is not lower. -/
def insertByNumber (e : WireEdge) : List WireEdge → List WireEdge
  | [] => [e]
  | f :: rest => if e.number ≤ f.number then e :: f :: rest else f :: insertByNumber e rest

def sortByNumber (edges : List WireEdge) : List WireEdge := edges.foldr insertByNumber []

end WireEdge

structure Wiring where
  services : List ComponentService
  nodes : OrderedMap ComponentService Nat
  edges : List WireEdge

namespace Wiring

def empty : Wiring := ⟨[], ∅, []⟩

/-- The node of a service; a service that has none becomes the next node. -/
def intern (g : Wiring) (s : ComponentService) : Wiring × Nat :=
  match g.nodes.get? s with
  | some node => (g, node)
  | none =>
    let node := g.services.length
    ({ g with services := g.services ++ [s], nodes := g.nodes.insert s node }, node)

def connect (g : Wiring) (w : ComponentService × ComponentService) (number : Nat) : Wiring :=
  let (g, source) := g.intern w.1
  let (g, target) := g.intern w.2
  { g with edges := g.edges ++ [⟨source, target, number⟩] }

def ofWires (wires : List (ComponentService × ComponentService)) : Wiring :=
  wires.zipIdx.foldl (fun g w => g.connect w.1 w.2) empty

/-- The edges at a node, each as seen from there: the latest first, and those to the node last. -/
def edgesAt (g : Wiring) (node : Nat) : List WireEdge :=
  (g.edges.filter (·.source = node)).reverse ++
    (g.edges.filter fun e => e.target = node ∧ e.source ≠ node).reverse.map .reverse

/-- The services along the edges at the node of a service, in the order of the wires. -/
def servicesAlong (g : Wiring) (edgesAt : Nat → List WireEdge) (s : ComponentService) :
    List ComponentService :=
  match g.nodes.get? s with
  | some node => (WireEdge.sortByNumber (edgesAt node)).filterMap (g.services[·.farEnd node]?)
  | none => []

end Wiring

end Ecoa
