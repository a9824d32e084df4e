import TracePlayback.Graph.Input

/-!
# Graphs

A graph that can be trusted: every id names one node, every link joins two of its nodes, and no link
is there twice. It is made from an input by going through nodes and links once, in order; the first
use of an id, of a pair of ends and of a line wins.
-/
namespace TracePlayback

structure Node where
  id : NodeId
  kind : NodeKind
  label : String
  line : Option Int64
  deriving DecidableEq

namespace Node

def ofInput (n : NodeInput) : Node := ⟨n.id.toNodeId, n.kind, n.label, n.line⟩

end Node

/-- A directed link between two nodes. -/
structure Link where
  source : NodeId
  target : NodeId
  deriving DecidableEq, Repr

namespace Link

def ofInput (l : LinkInput) : Link := ⟨l.source.toNodeId, l.target.toNodeId⟩

end Link

/-- Nodes and links, each in the order of the input. -/
structure Graph where
  nodes : List Node
  links : List Link
  deriving DecidableEq

namespace Graph

def empty : Graph := ⟨[], []⟩

instance : Inhabited Graph := ⟨empty⟩

/-! ## Lookups -/

def size (g : Graph) : Nat := g.nodes.length

def contains (g : Graph) (id : NodeId) : Bool := g.nodes.any (·.id = id)

def node? (g : Graph) (id : NodeId) : Option Node := g.nodes.find? (·.id = id)

/-- The place of an id among the nodes. -/
def slot? (g : Graph) (id : NodeId) : Option Nat := g.nodes.findIdx? (·.id = id)

/-- The node that a source line shows: the first one on that line. -/
def nodeForLine? (g : Graph) (line : Int64) : Option Node := g.nodes.find? (·.line = some line)

/-- Whether a link joins two nodes, in either direction. -/
def isLinked (g : Graph) (a b : NodeId) : Bool := g.links.any fun l => l = ⟨a, b⟩ ∨ l = ⟨b, a⟩

/-! ## Intake -/

/-- A graph under construction, and what had to be left out: the ids used again, and how many links
had an end that is no node. -/
structure Intake where
  graph : Graph
  repeatedIds : List NodeId
  dangling : Nat

namespace Intake

/-- Takes in a node unless its id is taken. -/
def addNode (i : Intake) (n : NodeInput) : Intake :=
  let node := Node.ofInput n
  if i.graph.contains node.id then { i with repeatedIds := i.repeatedIds ++ [node.id] }
  else { i with graph := { i.graph with nodes := i.graph.nodes ++ [node] } }

/-- Takes in a link unless it dangles or is there already. -/
def addLink (i : Intake) (l : LinkInput) : Intake :=
  let link := Link.ofInput l
  if ¬ (i.graph.contains link.source ∧ i.graph.contains link.target) then
    { i with dangling := i.dangling + 1 }
  else if link ∈ i.graph.links then i
  else { i with graph := { i.graph with links := i.graph.links ++ [link] } }

end Intake

/-- Goes through an input. An input that reports an error gives nothing. -/
def intake (input : GraphInput) : Intake :=
  if input.error.isSome then ⟨empty, [], 0⟩
  else input.links.foldl Intake.addLink (input.nodes.foldl Intake.addNode ⟨empty, [], 0⟩)

def ofInput (input : GraphInput) : Graph := (intake input).graph

end Graph
end TracePlayback
