import Mathlib.Logic.Function.Basic
import TracePlayback.Proofs.Graph.Intake
import TracePlayback.Proofs.Safety.Guard

/-!
# A graph with tables

So that lookups need not go through all nodes, a graph is kept with two tables: the places of the
ids, and the ids on the lines. They are filled while an input is gone through, and a place that a
table holds is used to index the nodes.

* `ofInput_agrees`: after any input, the tables say what going through the nodes would say.
* `node_eq`, `nodeForLine_eq`: so no lookup faults, and each finds what it would find without a
  table.
-/
namespace TracePlayback.Graph

/-- A graph, the places of its ids, and the first id on each line. -/
structure Index where
  graph : Graph
  slots : NodeId → Option Nat
  lines : Int64 → Option NodeId

namespace Index

def empty : Index := ⟨.empty, fun _ => none, fun _ => none⟩

def addNode (x : Index) (n : NodeInput) : Index :=
  let node := Node.ofInput n
  if (x.slots node.id).isSome then x
  else
    { graph := { x.graph with nodes := x.graph.nodes ++ [node] }
      slots := Function.update x.slots node.id (some x.graph.size)
      lines := match node.line with
        | some line =>
          if (x.lines line).isSome then x.lines else Function.update x.lines line (some node.id)
        | none => x.lines }

def addLink (x : Index) (l : LinkInput) : Index :=
  let link := Link.ofInput l
  if (x.slots link.source).isSome ∧ (x.slots link.target).isSome ∧ link ∉ x.graph.links then
    { x with graph := { x.graph with links := x.graph.links ++ [link] } }
  else x

def ofInput (input : GraphInput) : Index :=
  if input.error.isSome then empty
  else input.links.foldl addLink (input.nodes.foldl addNode empty)

def node (x : Index) (id : NodeId) : Except Fault (Option Node) :=
  match x.slots id with
  | none => .ok none
  | some i => do return some (← Guard.read x.graph.nodes[i]?)

def nodeForLine (x : Index) (line : Int64) : Except Fault (Option Node) :=
  match x.lines line with
  | none => .ok none
  | some id => x.node id

/-- The tables say what the graph says. -/
structure Agrees (x : Index) (g : Graph) : Prop where
  graph : x.graph = g
  slots : ∀ id, x.slots id = g.slot? id
  lines : ∀ line, x.lines line = (g.nodeForLine? line).map Node.id

/-! ## Filling the tables -/

theorem empty_agrees : empty.Agrees .empty := ⟨rfl, fun _ => rfl, fun _ => rfl⟩

theorem slot?_append (g : Graph) (n : Node) (h : g.slot? n.id = none) (id : NodeId) :
    slot? { g with nodes := g.nodes ++ [n] } id =
      Function.update g.slot? n.id (some g.size) id := by
  simp only [slot?, List.findIdx?_append, Function.update_apply] at h ⊢
  by_cases hid : id = n.id
  · subst hid
    simp [h, size]
  · simp [hid, Ne.symm hid]

theorem nodeForLine?_append (g : Graph) (n : Node) (line : Int64) :
    nodeForLine? { g with nodes := g.nodes ++ [n] } line =
      (g.nodeForLine? line).or (if n.line = some line then some n else none) := by
  simp only [nodeForLine?, List.find?_append]
  by_cases hline : n.line = some line
  · simp [hline]
  · simp [hline]

theorem addNode_agrees {x : Index} {i : Intake} (h : x.Agrees i.graph) (n : NodeInput) :
    (x.addNode n).Agrees (i.addNode n).graph := by
  rw [addNode_graph]
  unfold addNode
  simp only [h.slots, slot?_isSome]
  split
  · exact h
  · rename_i hnew
    rw [← slot?_isSome, Option.not_isSome_iff_eq_none] at hnew
    have hslots : x.slots = i.graph.slot? := funext h.slots
    refine ⟨by rw [h.graph], fun id => ?_, fun line => ?_⟩
    · rw [slot?_append _ _ hnew, hslots, h.graph]
    · -- only a line that no node has had before goes into the table
      rw [nodeForLine?_append]
      cases hline : (Node.ofInput n).line with
      | none => simp [h.lines]
      | some l =>
        have hl := h.lines l
        by_cases hll : l = line
        · subst hll
          cases hf : i.graph.nodeForLine? l <;> simp [hl, hf]
        · simp only [hl]
          split <;> simp [hll, Ne.symm hll, h.lines]

theorem addLink_agrees {x : Index} {i : Intake} (h : x.Agrees i.graph) (l : LinkInput) :
    (x.addLink l).Agrees (i.addLink l).graph := by
  rw [addLink_graph]
  unfold addLink
  simp only [h.slots, slot?_isSome, h.graph]
  split
  · exact ⟨rfl, h.slots, h.lines⟩
  · exact h

theorem ofInput_agrees (input : GraphInput) : (ofInput input).Agrees (Graph.ofInput input) := by
  unfold ofInput Graph.ofInput intake
  split
  · exact empty_agrees
  · have hnodes : (input.nodes.foldl addNode empty).Agrees
        (input.nodes.foldl Intake.addNode ⟨.empty, [], 0⟩).graph :=
      List.foldl_rel (r := fun (x : Index) (i : Intake) => x.Agrees i.graph) empty_agrees
        fun n _ _ _ h => addNode_agrees h n
    exact List.foldl_rel (r := fun (x : Index) (i : Intake) => x.Agrees i.graph) hnodes
      fun l _ _ _ h => addLink_agrees h l

/-! ## Looking up -/

variable {x : Index} {g : Graph}

theorem node_eq (h : x.Agrees g) (id : NodeId) : x.node id = .ok (g.node? id) := by
  have hnode : g.node? id = (g.slot? id).bind (g.nodes[·]?) := List.find?_eq_bind_findIdx?_getElem?
  unfold node
  rw [h.slots, h.graph, hnode]
  cases hs : g.slot? id with
  | none => rfl
  | some i => simp [List.getElem?_eq_getElem (slot?_lt hs)]

theorem node?_of_mem (hg : g.WellFormed) {n : Node} (hn : n ∈ g.nodes) : g.node? n.id = some n :=
  find?_key hg.ids_nodup hn

theorem nodeForLine_eq (h : x.Agrees g) (hg : g.WellFormed) (line : Int64) :
    x.nodeForLine line = .ok (g.nodeForLine? line) := by
  unfold nodeForLine
  rw [h.lines]
  cases hn : g.nodeForLine? line with
  | none => rfl
  | some n =>
    simp only [Option.map_some]
    rw [node_eq h, node?_of_mem hg (List.mem_of_find?_eq_some hn)]

end Index
end TracePlayback.Graph
