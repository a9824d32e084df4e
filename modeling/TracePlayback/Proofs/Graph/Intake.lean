import Mathlib.Data.List.Nodup
import TracePlayback.Graph.Basic

/-!
# What an intake gives

Ids may repeat in an input and links may point nowhere. The graph that is made of it can be trusted,
because each node and each link is looked at when it comes in.

* `WellFormed`: every id names one node, no link is there twice, and the ends of every link are
  nodes.
* `addNode_wellFormed`, `addLink_wellFormed`: what one step of the intake keeps.
* `ofInput_wellFormed`: so every graph of an input is well formed.
* `slot?_lt`, `slot?_isSome`: the places that ids are looked up to are places of nodes.
-/
namespace TracePlayback.Graph

/-- A graph that can be trusted. -/
structure WellFormed (g : Graph) : Prop where
  ids_nodup : (g.nodes.map Node.id).Nodup
  links_nodup : g.links.Nodup
  ends_known : ∀ l ∈ g.links, g.contains l.source ∧ g.contains l.target

/-! ## Ids and their places -/

theorem find?_key {α κ : Type} [DecidableEq κ] {key : α → κ} {xs : List α} (h : (xs.map key).Nodup)
    {x : α} (hx : x ∈ xs) : xs.find? (key · = key x) = some x := by
  cases hy : xs.find? (key · = key x) with
  | none => simpa using List.find?_eq_none.mp hy x hx
  | some y =>
    have hkey : key y = key x := by simpa using List.find?_some hy
    rw [List.inj_on_of_nodup_map h (List.mem_of_find?_eq_some hy) hx hkey]

theorem contains_iff {g : Graph} {id : NodeId} : g.contains id ↔ id ∈ g.nodes.map Node.id := by
  simp [contains]

theorem slot?_isSome (g : Graph) (id : NodeId) : (g.slot? id).isSome = g.contains id := by
  simp [slot?, contains]

theorem slot?_lt {g : Graph} {id : NodeId} {i : Nat} (h : g.slot? id = some i) : i < g.size := by
  obtain ⟨hi, -⟩ := List.findIdx?_eq_some_iff_getElem.mp h
  exact hi

theorem slot?_of_contains {g : Graph} {id : NodeId} (h : g.contains id) :
    ∃ i, g.slot? id = some i := by
  rw [← slot?_isSome] at h
  exact Option.isSome_iff_exists.mp h

/-! ## One step of the intake -/

theorem addNode_graph (i : Intake) (n : NodeInput) :
    (i.addNode n).graph =
      if i.graph.contains (Node.ofInput n).id then i.graph
      else { i.graph with nodes := i.graph.nodes ++ [Node.ofInput n] } := by
  change (if _ then _ else _ : Intake).graph = _
  rw [apply_ite Intake.graph]

theorem addLink_graph (i : Intake) (l : LinkInput) :
    (i.addLink l).graph =
      if i.graph.contains (Link.ofInput l).source ∧ i.graph.contains (Link.ofInput l).target ∧
        Link.ofInput l ∉ i.graph.links
      then { i.graph with links := i.graph.links ++ [Link.ofInput l] } else i.graph := by
  unfold Intake.addLink
  by_cases hknown : i.graph.contains (Link.ofInput l).source ∧
      i.graph.contains (Link.ofInput l).target
  · by_cases hold : Link.ofInput l ∈ i.graph.links
    · simp [hknown, hold]
    · simp [hknown, hold]
  · have hnone : ¬ (i.graph.contains (Link.ofInput l).source ∧
        i.graph.contains (Link.ofInput l).target ∧ Link.ofInput l ∉ i.graph.links) :=
      fun h => hknown ⟨h.1, h.2.1⟩
    rw [if_neg hnone]
    simp [hknown]

theorem wellFormed_empty : WellFormed empty := ⟨List.nodup_nil, List.nodup_nil, by simp [empty]⟩

theorem addNode_wellFormed {i : Intake} (h : i.graph.WellFormed) (n : NodeInput) :
    (i.addNode n).graph.WellFormed := by
  rw [addNode_graph]
  split
  · exact h
  · rename_i hnew
    rw [contains_iff] at hnew
    refine ⟨?_, h.links_nodup, fun l hl => ?_⟩
    · rw [List.map_append, List.map_singleton, ← List.concat_eq_append, List.nodup_concat]
      exact ⟨hnew, h.ids_nodup⟩
    · obtain ⟨hs, ht⟩ := h.ends_known l hl
      rw [contains_iff] at hs ht
      simp only [contains_iff, List.map_append, List.mem_append]
      exact ⟨Or.inl hs, Or.inl ht⟩

theorem addLink_wellFormed {i : Intake} (h : i.graph.WellFormed) (l : LinkInput) :
    (i.addLink l).graph.WellFormed := by
  rw [addLink_graph]
  split
  · rename_i hnew
    obtain ⟨hs, ht, hnew⟩ := hnew
    refine ⟨h.ids_nodup, ?_, fun k hk => ?_⟩
    · rw [← List.concat_eq_append, List.nodup_concat]
      exact ⟨hnew, h.links_nodup⟩
    · rcases List.mem_append.mp hk with hk | hk
      · exact h.ends_known k hk
      · rw [List.mem_singleton.mp hk]
        exact ⟨hs, ht⟩
  · exact h

/-! ## The whole intake -/

/-- Every graph that comes from an input can be trusted. -/
theorem ofInput_wellFormed (input : GraphInput) : (ofInput input).WellFormed := by
  unfold ofInput intake
  split
  · exact wellFormed_empty
  · have hnodes : (input.nodes.foldl Intake.addNode ⟨empty, [], 0⟩).graph.WellFormed :=
      List.foldlRecOn (motive := fun i : Intake => i.graph.WellFormed) input.nodes _
        wellFormed_empty fun _ h n _ => addNode_wellFormed h n
    exact List.foldlRecOn (motive := fun i : Intake => i.graph.WellFormed) input.links _
      hnodes fun _ h l _ => addLink_wellFormed h l

end TracePlayback.Graph
