import Mathlib
import TracePlayback.Proofs.Safety.Index

/-!
# What a graph keeps of its input

An input is gone through once, nodes first and then links. What is kept of it can be said without
going through it: of the nodes the first of every id, of the links between kept nodes the first of
every two ends, all in the order of the input.

* `RawId.toNodeId_eq_iff`: an integer and its decimal text are the same id, and nothing else is.
* `ofInput_nodes`, `ofInput_links`: the two lists.
* `slot?_eq_some_iff`, `nodeForLine?_eq_some_iff`, `isLinked_iff`: what the lookups find in them.
* `Catalogue`: a table for every lookup, each filled while the input is gone through.
* `ofInput_catalogued`: so the tables answer what the two lists of the input say.
-/
namespace TracePlayback

/-! ## Written ids -/

/-- Two written ids stand for the same node if they are written alike, or one of them is an integer
and the other its decimal text. -/
theorem RawId.toNodeId_eq_iff {a b : RawId} :
    a.toNodeId = b.toNodeId ↔ a = b ∨
      (∃ n : Int64, a = .number n ∧ b = .text (toString n.toInt)) ∨
      ∃ n : Int64, a = .text (toString n.toInt) ∧ b = .number n := by
  cases a with
  | number m =>
    cases b with
    | number n =>
      have hdigits : toString m.toInt = toString n.toInt ↔ m = n := by
        rw [← Int64.toInt_inj]
        exact Int.repr_inj
      simpa [toNodeId] using hdigits
    | text s => simp [toNodeId, eq_comm]
  | text s =>
    cases b with
    | number n => simp [toNodeId]
    | text t => simp [toNodeId]

namespace Graph

/-! ## The two lists -/

/-- Going on with an intake adds the first of every id that is not taken yet. -/
theorem nodes_foldl_addNode (nodes : List NodeInput) (i : Intake) :
    (nodes.foldl Intake.addNode i).graph.nodes = i.graph.nodes ++
      ((nodes.map Node.ofInput).filter fun n => ¬ i.graph.contains n.id).eraseDupsBy
        fun a b => a.id = b.id := by
  induction nodes generalizing i with
  | nil => simp
  | cons n rest ih =>
    rw [List.foldl_cons, ih, addNode_graph]
    by_cases hold : i.graph.contains (Node.ofInput n).id = true
    · simp [hold]
    · -- the new id is left out behind it, as the ids are that were taken before
      have hlater : ∀ m : Node, contains { i.graph with nodes := i.graph.nodes ++ [Node.ofInput n] }
          m.id = (i.graph.contains m.id || decide (m.id = (Node.ofInput n).id)) := by
        intro m
        simp [contains, eq_comm]
      simp [hold, hlater, List.eraseDupsBy_cons, List.filter_filter, Bool.and_comm]

theorem links_foldl_addNode (nodes : List NodeInput) (i : Intake) :
    (nodes.foldl Intake.addNode i).graph.links = i.graph.links := by
  refine List.foldlRecOn (motive := fun j : Intake => j.graph.links = i.graph.links) _ _ rfl ?_
  intro j hj n _
  rw [addNode_graph]
  split
  · exact hj
  · exact hj

theorem nodes_foldl_addLink (links : List LinkInput) (i : Intake) :
    (links.foldl Intake.addLink i).graph.nodes = i.graph.nodes := by
  refine List.foldlRecOn (motive := fun j : Intake => j.graph.nodes = i.graph.nodes) _ _ rfl ?_
  intro j hj l _
  rw [addLink_graph]
  split
  · exact hj
  · exact hj

/-- Whether both ends of a link are nodes. -/
def joins (g : Graph) (l : Link) : Bool := g.contains l.source && g.contains l.target

/-- Going on with an intake adds the first of every two ends that are known and not joined yet. -/
theorem links_foldl_addLink (links : List LinkInput) (i : Intake) :
    (links.foldl Intake.addLink i).graph.links = i.graph.links ++
      ((links.map Link.ofInput).filter fun l => i.graph.joins l ∧ l ∉ i.graph.links).eraseDups := by
  induction links generalizing i with
  | nil => simp
  | cons l rest ih =>
    have hends : (i.graph.joins (Link.ofInput l) = true ∧ Link.ofInput l ∉ i.graph.links) ↔
        i.graph.contains (Link.ofInput l).source ∧ i.graph.contains (Link.ofInput l).target ∧
          Link.ofInput l ∉ i.graph.links := by
      simp [joins, and_assoc]
    rw [List.foldl_cons, ih, addLink_graph, List.map_cons, List.filter_cons]
    by_cases hnew : i.graph.joins (Link.ofInput l) = true ∧ Link.ofInput l ∉ i.graph.links
    · rw [if_pos (hends.mp hnew), if_pos (by simpa using hnew), List.eraseDups_cons,
        List.filter_filter, List.append_assoc, List.singleton_append]
      congr 3
      refine List.filter_congr fun k _ => ?_
      have hjoins : joins { i.graph with links := i.graph.links ++ [Link.ofInput l] } k =
          i.graph.joins k := rfl
      rw [hjoins]
      by_cases hk : k = Link.ofInput l <;> simp [hk]
    · rw [if_neg (mt hends.mpr hnew), if_neg (by simpa using hnew)]

/-- The nodes of a graph are those of its input without the ones whose id was there before. -/
theorem ofInput_nodes {input : GraphInput} (h : input.error = none) :
    (ofInput input).nodes =
      (input.nodes.map Node.ofInput).eraseDupsBy fun a b => a.id = b.id := by
  have hfold := nodes_foldl_addNode input.nodes ⟨empty, [], 0⟩
  simp only [ofInput, intake, h, Option.isSome_none, Bool.false_eq_true, if_false,
    nodes_foldl_addLink, hfold]
  simp [empty, contains]

/-- Its links are those of its input that join two of its nodes, without the ones that were there
before. -/
theorem ofInput_links {input : GraphInput} (h : input.error = none) :
    (ofInput input).links =
      ((input.links.map Link.ofInput).filter (ofInput input).joins).eraseDups := by
  have hfold := links_foldl_addLink input.links (input.nodes.foldl Intake.addNode ⟨empty, [], 0⟩)
  have hjoins : (ofInput input).joins =
      (input.nodes.foldl Intake.addNode ⟨empty, [], 0⟩).graph.joins := by
    funext l
    simp only [joins, contains, ofInput, intake, h, Option.isSome_none, Bool.false_eq_true,
      if_false, nodes_foldl_addLink]
  rw [hjoins]
  simp only [ofInput, intake, h, Option.isSome_none, Bool.false_eq_true, if_false, hfold,
    links_foldl_addNode]
  simp [empty]

theorem ofInput_of_error {input : GraphInput} (h : input.error ≠ none) :
    ofInput input = empty := by
  simp [ofInput, intake, Option.isSome_iff_ne_none.mpr h]

/-! ## Lookups -/

variable {g : Graph}

theorem node?_eq_bind (id : NodeId) : g.node? id = (g.slot? id).bind (g.nodes[·]?) :=
  List.find?_eq_bind_findIdx?_getElem?

/-- Places and ids are each other's inverse. -/
theorem slot?_eq_some_iff (hg : g.WellFormed) {id : NodeId} {i : Nat} :
    g.slot? id = some i ↔ (g.nodes[i]?).map Node.id = some id := by
  constructor
  · intro h
    obtain ⟨hlt, hid, -⟩ := List.findIdx?_eq_some_iff_getElem.mp h
    simpa [hlt] using hid
  · intro h
    obtain ⟨n, hn, rfl⟩ := Option.map_eq_some_iff.mp h
    obtain ⟨j, hj⟩ := slot?_of_contains (contains_iff.mpr
      (List.mem_map_of_mem (List.mem_of_getElem? hn)))
    obtain ⟨hlt, hid, -⟩ := List.findIdx?_eq_some_iff_getElem.mp hj
    -- no other node has that id
    have hids : (g.nodes.map Node.id)[j]? = (g.nodes.map Node.id)[i]? := by
      simpa [hlt, hn] using hid
    have hij : j = i := (List.getElem?_inj (by simpa using hlt) hg.ids_nodup).mp hids
    rw [hj, hij]

/-- The node on a line is the first one there. -/
theorem nodeForLine?_eq_some_iff {line : Int64} {n : Node} :
    g.nodeForLine? line = some n ↔ n.line = some line ∧
      ∃ before after, g.nodes = before ++ n :: after ∧ ∀ m ∈ before, m.line ≠ some line := by
  simp [nodeForLine?, List.find?_eq_some_iff_append]

theorem isLinked_iff {a b : NodeId} : g.isLinked a b ↔ ⟨a, b⟩ ∈ g.links ∨ ⟨b, a⟩ ∈ g.links := by
  simp only [isLinked, List.any_eq_true, decide_eq_true_eq]
  constructor
  · rintro ⟨l, hl, rfl | rfl⟩
    · exact Or.inl hl
    · exact Or.inr hl
  · rintro (h | h)
    · exact ⟨_, h, Or.inl rfl⟩
    · exact ⟨_, h, Or.inr rfl⟩

theorem isLinked_comm (g : Graph) (a b : NodeId) : g.isLinked a b = g.isLinked b a := by
  rw [Bool.eq_iff_iff, isLinked_iff, isLinked_iff, or_comm]

theorem contains_of_isLinked (hg : g.WellFormed) {a b : NodeId} (h : g.isLinked a b) :
    g.contains a ∧ g.contains b := by
  rcases isLinked_iff.mp h with h | h
  · exact hg.ends_known _ h
  · exact (hg.ends_known _ h).symm

/-! ## A table for every lookup -/

/-- Two ids, the one with the lesser text in front. -/
def undirected (a b : NodeId) : NodeId × NodeId := if a.text ≤ b.text then (a, b) else (b, a)

theorem undirected_comm (a b : NodeId) : undirected a b = undirected b a := by
  unfold undirected
  split
  · rename_i hab
    split
    · rename_i hba
      have htexts : a.text = b.text := String.le_antisymm hab hba
      have hids : a = b := by cases a; cases b; exact congrArg NodeId.mk htexts
      rw [hids]
    · rfl
  · rename_i hab
    rw [if_pos ((String.le_total a.text b.text).resolve_left hab)]

theorem undirected_eq_iff {a b c d : NodeId} :
    undirected a b = undirected c d ↔ a = c ∧ b = d ∨ a = d ∧ b = c := by
  constructor
  · intro h
    unfold undirected at h
    split at h
    · split at h <;> simp_all
    · split at h <;> simp_all
  · rintro (⟨rfl, rfl⟩ | ⟨rfl, rfl⟩)
    · rfl
    · exact undirected_comm a b

/-- A graph with its tables, and the pairs of ids that are joined, in whichever direction. -/
structure Catalogue extends Index where
  linked : Finset (NodeId × NodeId)

namespace Catalogue

def empty : Catalogue := ⟨.empty, ∅⟩

def addNode (x : Catalogue) (n : NodeInput) : Catalogue := { x with toIndex := x.toIndex.addNode n }

def addLink (x : Catalogue) (l : LinkInput) : Catalogue :=
  let link := Link.ofInput l
  if (x.slots link.source).isSome ∧ (x.slots link.target).isSome ∧ link ∉ x.graph.links then
    { x with
      graph := { x.graph with links := x.graph.links ++ [link] }
      linked := insert (undirected link.source link.target) x.linked }
  else x

/-- The graph of an input, with its tables. -/
def ofInput (input : GraphInput) : Catalogue :=
  if input.error.isSome then empty
  else input.links.foldl addLink (input.nodes.foldl addNode empty)

def isLinked (x : Catalogue) (a b : NodeId) : Bool := undirected a b ∈ x.linked

/-- The tables say what the graph says. -/
structure Agrees (x : Catalogue) (g : Graph) : Prop extends x.toIndex.Agrees g where
  linked : ∀ a b, x.isLinked a b = g.isLinked a b

theorem empty_agrees : empty.Agrees .empty := ⟨Index.empty_agrees, fun _ _ => rfl⟩

theorem addNode_agrees {x : Catalogue} {i : Intake} (h : x.Agrees i.graph) (n : NodeInput) :
    (x.addNode n).Agrees (i.addNode n).graph := by
  refine ⟨Index.addNode_agrees h.toAgrees n, fun a b => ?_⟩
  have hlinks : (i.addNode n).graph.links = i.graph.links := links_foldl_addNode [n] i
  simp only [Graph.isLinked, hlinks]
  exact h.linked a b

theorem addLink_agrees {x : Catalogue} {i : Intake} (h : x.Agrees i.graph) (l : LinkInput) :
    (x.addLink l).Agrees (i.addLink l).graph := by
  have hindex : (x.addLink l).toIndex = x.toIndex.addLink l := by
    exact apply_ite Catalogue.toIndex _ _ _
  refine ⟨hindex ▸ Index.addLink_agrees h.toAgrees l, fun a b => ?_⟩
  have hlinked := h.linked a b
  rw [addLink_graph]
  unfold addLink
  simp only [h.slots, slot?_isSome, h.graph]
  split
  · -- the new pair is joined, and no other
    rw [Bool.eq_iff_iff, isLinked_iff] at hlinked ⊢
    have hends : ∀ c d, Link.mk c d = Link.ofInput l ↔
        c = (Link.ofInput l).source ∧ d = (Link.ofInput l).target := fun c d => by
      rw [← Link.mk.injEq]
    simp only [isLinked, decide_eq_true_eq, Finset.mem_insert, undirected_eq_iff, List.mem_append,
      List.mem_singleton, hends] at hlinked ⊢
    rw [hlinked]
    tauto
  · exact hlinked

theorem ofInput_agrees (input : GraphInput) : (ofInput input).Agrees (Graph.ofInput input) := by
  unfold ofInput Graph.ofInput intake
  split
  · exact empty_agrees
  · have hnodes : (input.nodes.foldl addNode empty).Agrees
        (input.nodes.foldl Intake.addNode ⟨.empty, [], 0⟩).graph :=
      List.foldl_rel (r := fun (x : Catalogue) (i : Intake) => x.Agrees i.graph) empty_agrees
        fun n _ _ _ h => addNode_agrees h n
    exact List.foldl_rel (r := fun (x : Catalogue) (i : Intake) => x.Agrees i.graph) hnodes
      fun l _ _ _ h => addLink_agrees h l

end Catalogue
/-! ## All together -/

/-- **What a graph keeps of its input.** An integer and its decimal text are the same id, and any
other two written ids are the same only if they are written alike. Unless the input reports an
error, the nodes of its graph are its nodes in order, of each id the first one, and the links are
its links in order that join two of these nodes, of each pair of ends the first one. An id has the
place `i` if the node there has the id, and is known, and has a node, if it has a place. The node on
a line is the first of the nodes there. Two ids are joined if a link leads from one to the other, so
in both directions alike, and only if both are known. Of an input that reports an error there is
nothing to be found. The tables that are filled while the input is gone through answer the same. -/
theorem ofInput_catalogued (input : GraphInput) :
    let g := ofInput input
    let x := Catalogue.ofInput input
    (∀ a b : RawId, a.toNodeId = b.toNodeId ↔ a = b ∨
      (∃ n : Int64, a = .number n ∧ b = .text (toString n.toInt)) ∨
      ∃ n : Int64, a = .text (toString n.toInt) ∧ b = .number n) ∧
    (input.error = none →
      g.nodes = (input.nodes.map Node.ofInput).eraseDupsBy (fun a b => a.id = b.id) ∧
      g.links = ((input.links.map Link.ofInput).filter fun l =>
        g.contains l.source && g.contains l.target).eraseDups) ∧
    (∀ id i, g.slot? id = some i ↔ (g.nodes[i]?).map Node.id = some id) ∧
    (∀ id, g.contains id = (g.slot? id).isSome ∧ g.node? id = (g.slot? id).bind (g.nodes[·]?)) ∧
    (∀ line n, g.nodeForLine? line = some n ↔ n.line = some line ∧
      ∃ before after, g.nodes = before ++ n :: after ∧ ∀ m ∈ before, m.line ≠ some line) ∧
    (∀ a b, (g.isLinked a b ↔ ⟨a, b⟩ ∈ g.links ∨ ⟨b, a⟩ ∈ g.links) ∧
      g.isLinked a b = g.isLinked b a ∧ (g.isLinked a b → g.contains a ∧ g.contains b)) ∧
    (input.error ≠ none → g.nodes = [] ∧ g.links = [] ∧
      (∀ id, g.slot? id = none ∧ g.node? id = none ∧ g.contains id = false) ∧
      (∀ line, g.nodeForLine? line = none) ∧ ∀ a b, g.isLinked a b = false) ∧
    x.graph = g ∧ (∀ id, x.slots id = g.slot? id ∧ x.node id = .ok (g.node? id)) ∧
      (∀ line, x.nodeForLine line = .ok (g.nodeForLine? line)) ∧
      ∀ a b, x.isLinked a b = g.isLinked a b := by
  intro g x
  have hg : g.WellFormed := ofInput_wellFormed input
  have hx : x.Agrees g := Catalogue.ofInput_agrees input
  refine ⟨fun a b => RawId.toNodeId_eq_iff, fun h => ⟨ofInput_nodes h, ofInput_links h⟩,
    fun id i => slot?_eq_some_iff hg, fun id => ⟨(slot?_isSome g id).symm, node?_eq_bind id⟩,
    fun line n => nodeForLine?_eq_some_iff,
    fun a b => ⟨isLinked_iff, isLinked_comm g a b, contains_of_isLinked hg⟩, fun h => ?_,
    hx.graph, fun id => ⟨hx.slots id, Index.node_eq hx.toAgrees id⟩,
    fun line => Index.nodeForLine_eq hx.toAgrees hg line, hx.linked⟩
  have hnone : g = empty := ofInput_of_error h
  rw [hnone]
  exact ⟨rfl, rfl, fun id => ⟨rfl, rfl, rfl⟩, fun line => rfl, fun a b => rfl⟩

end Graph
end TracePlayback
