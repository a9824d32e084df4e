import Mathlib.Data.List.Forall2
import TracePlayback.Layout.Force
import TracePlayback.Proofs.Graph.Intake
import TracePlayback.Proofs.Random.Fill

/-!
# A layout follows its graph

A layout keeps ids and places of its own, so that nothing has to be looked up while it moves. They
are right as long as the graph that the layout was last retargeted to does not change.

* `Follows`: the bodies are the nodes in node order, and the springs are the links in link order,
  each as the places of its two ends.
* `place_eq_fill`: its bodies are filled from what is known and what is drawn.
* `sync_follows`: a layout that is retargeted to a well-formed graph follows it, whatever it
  followed before.
* `step_follows`: no tick changes what a layout follows.
* `position?_isSome`: a layout knows where the nodes are that it follows, and no others.
* `Follows.springsInRange`: its springs are between bodies that it has.
-/
namespace TracePlayback

namespace Layout

/-- The layout shows this graph. -/
structure Follows (l : Layout) (g : Graph) : Prop where
  ids : l.bodies.toList.map Body.id = g.nodes.map Node.id
  springs : List.Forall₂ (fun spring link =>
    g.slot? link.source = some spring.1 ∧ g.slot? link.target = some spring.2) l.springs g.links

theorem empty_follows : empty.Follows Graph.empty := ⟨rfl, .nil⟩

/-! ## Looking up -/

theorem body?_id {l : Layout} {id : NodeId} {b : Body} (h : l.body? id = some b) : b.id = id := by
  simpa using Array.find?_some h

theorem body?_isSome (l : Layout) (id : NodeId) :
    (l.body? id).isSome ↔ id ∈ l.bodies.toList.map Body.id := by
  simp [body?]

theorem findIdx?_id (bodies : Array Body) (id : NodeId) :
    bodies.findIdx? (·.id = id) = (bodies.map Body.id).findIdx? (· = id) := by
  rw [Array.findIdx?_map]
  rfl

theorem position?_isSome {l : Layout} {g : Graph} (h : l.Follows g) (id : NodeId) :
    (l.position? id).isSome = g.contains id := by
  rw [Bool.eq_iff_iff, position?, Option.isSome_map, body?_isSome, h.ids, Graph.contains_iff]

/-! ## Springs -/

/-- All springs are between bodies that are there. -/
def SpringsInRange (l : Layout) : Prop := ∀ s ∈ l.springs, s.1 < l.size ∧ s.2 < l.size

theorem Follows.springsInRange {l : Layout} {g : Graph} (h : l.Follows g) : l.SpringsInRange := by
  have hsize : l.size = g.size := by simpa [size, Graph.size] using congrArg List.length h.ids
  have hends : ∀ {springs : List (Nat × Nat)} {links : List Link}, List.Forall₂ (fun spring link =>
      g.slot? link.source = some spring.1 ∧ g.slot? link.target = some spring.2) springs links →
      ∀ s ∈ springs, s.1 < g.size ∧ s.2 < g.size := by
    intro springs links hsprings
    induction hsprings with
    | nil => intro s hs; cases hs
    | cons hfirst _ ih =>
      intro s hs
      rcases List.mem_cons.mp hs with rfl | hs
      · exact ⟨Graph.slot?_lt hfirst.1, Graph.slot?_lt hfirst.2⟩
      · exact ih s hs
  rw [SpringsInRange, hsize]
  exact hends h.springs

/-! ## Retargeting -/

section
variable {γ : Type} [Generator γ]

/-- A new node is put into the cube, at rest. -/
def newBody (half : Float32) (n : Node) (g : γ) : Body × γ :=
  let (p, g) := scatter half g
  (⟨n.id, p, .zero⟩, g)

/-- What is known is kept, and what is new is scattered. -/
theorem place_eq_fill (old : Layout) (half : Float32) (nodes : List Node) (g : γ) :
    old.place half nodes g = Random.fill old.body? Node.id (newBody half) nodes g := by
  induction nodes generalizing g with
  | nil => rfl
  | cons n rest ih =>
    unfold place Random.fill
    cases old.body? n.id with
    | some b => simp only [ih]
    | none => simp only [newBody, ih]

theorem keyed_body? (l : Layout) (half : Float32) :
    Random.Keyed l.body? Node.id Body.id (newBody (γ := γ) half) := ⟨body?_id, fun _ _ => rfl⟩

theorem place_ids (old : Layout) (half : Float32) (nodes : List Node) (g : γ) :
    (old.place half nodes g).1.map Body.id = nodes.map Node.id := by
  rw [place_eq_fill, (keyed_body? old half).fill_keys]

/-- No link is lost: its ends have places. -/
theorem springsOf_places {g : Graph} {links : List Link}
    (h : ∀ l ∈ links, g.contains l.source ∧ g.contains l.target) :
    List.Forall₂ (fun spring link =>
      g.slot? link.source = some spring.1 ∧ g.slot? link.target = some spring.2)
      (springsOf { g with links := links }) links := by
  induction links with
  | nil => exact .nil
  | cons l rest ih =>
    obtain ⟨i, hi⟩ := Graph.slot?_of_contains (h l List.mem_cons_self).1
    obtain ⟨j, hj⟩ := Graph.slot?_of_contains (h l List.mem_cons_self).2
    have hfirst : springsOf { g with links := l :: rest } =
        (i, j) :: springsOf { g with links := rest } := by
      simp only [Graph.slot?] at hi hj
      simp [springsOf, Graph.slot?, hi, hj]
    rw [hfirst]
    exact .cons ⟨hi, hj⟩ (ih fun k hk => h k (List.mem_cons_of_mem l hk))

theorem sync_follows (l : Layout) {graph : Graph} (h : graph.WellFormed) (spread : Float32)
    (g : γ) : (l.sync graph spread g).1.Follows graph :=
  ⟨place_ids l _ graph.nodes g, springsOf_places h.ends_known⟩

end

/-! ## Ticks -/

@[simp]
theorem Forces.size_exchange (forces : Forces) (i j : Nat) (f : Vec3) :
    (forces.exchange i j f).size = forces.size := by
  simp [exchange]

theorem size_addRepulsion (s : LayoutSettings) (bodies : Array Body) (forces : Forces) :
    (addRepulsion s bodies forces).size = forces.size := by
  unfold addRepulsion
  refine List.foldlRecOn (motive := fun fs : Forces => fs.size = forces.size) _ _ rfl ?_
  rintro fs h ⟨i, j⟩ -
  simp only
  split
  · rw [Forces.size_exchange, h]
  · exact h

theorem size_addSprings (s : LayoutSettings) (bodies : Array Body) (springs : List (Nat × Nat))
    (forces : Forces) : (addSprings s bodies springs forces).size = forces.size := by
  unfold addSprings
  refine List.foldlRecOn (motive := fun fs : Forces => fs.size = forces.size) _ _ rfl ?_
  rintro fs h ⟨i, j⟩ -
  simp only
  split
  · exact h
  · split
    · rw [Forces.size_exchange, h]
    · exact h

theorem size_forces (s : LayoutSettings) (l : Layout) : (l.forces s).size = l.size := by
  simp [forces, addCentering, size_addSprings, size_addRepulsion, size]

@[simp]
theorem moveBody_id (s : LayoutSettings) (dt : Float32) (force : Vec3) (b : Body) :
    (moveBody s dt force b).id = b.id := rfl

theorem step_springs (s : LayoutSettings) (l : Layout) (dt : Float32) :
    (step s l dt).springs = l.springs := by
  unfold step
  split <;> rfl

theorem step_ids (s : LayoutSettings) (l : Layout) (dt : Float32) :
    (step s l dt).bodies.toList.map Body.id = l.bodies.toList.map Body.id := by
  unfold step
  split
  · rfl
  · refine List.ext_getElem (by simp [size_forces, size]) fun i h1 h2 => ?_
    simp

theorem step_map_id (s : LayoutSettings) (l : Layout) (dt : Float32) :
    (step s l dt).bodies.map Body.id = l.bodies.map Body.id := by
  apply Array.toList_inj.mp
  simpa using step_ids s l dt

theorem step_follows {l : Layout} {g : Graph} (h : l.Follows g) (s : LayoutSettings)
    (dt : Float32) : (step s l dt).Follows g :=
  ⟨by rw [step_ids, h.ids], by rw [step_springs]; exact h.springs⟩

end Layout
end TracePlayback
