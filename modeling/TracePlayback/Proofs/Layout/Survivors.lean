import TracePlayback.Proofs.Graph.Catalogue
import TracePlayback.Proofs.Random.Draws
import TracePlayback.Proofs.Safety.Table
import TracePlayback.Proofs.Single.Order

/-!
# What a layout keeps when it is retargeted

A layout is built anew for every graph: bodies, places and springs together, while the old ones are
still read. The body of a node that was there before is taken over, at whatever place it was and
will be; every other node is put into a cube at random. How many random numbers a new node finds
used up depends on how many before it were new.

* `halfSpread_bounds`: the cube, for every spread.
* `newBodies_sync`: what is new is drawn, in the order of the nodes.
* `Retargeted`: all that one retargeting does.
* `sync_retargeted`: it does that to any layout, for any graph and any spread.
* `syncAll_kept`: so a node that no graph of a sequence leaves out stays where it was.
* `syncs_retarget`: and a node that one of them leaves out is new when it comes back.
-/
namespace TracePlayback.Layout

open Single

/-! ## The cube -/

/-- The edge of the cube after it has been limited is not negative and not too long. -/
theorem limited_bounds (spread : Float32) :
    let limited := if spread.isFinite then Scalar.smaller spread.abs maxSpread
      else LayoutSettings.initialSpread {}
    0 ≤ grains limited ∧ grains limited ≤ 1000000 * 2 ^ 149 := by
  have hmax : grains maxSpread = 1000000 * 2 ^ 149 := by decide +kernel
  intro limited
  by_cases h : spread.isFinite
  · have habs : spread.abs.isFinite := (below_abs (isFinite_iff.mp h)).isFinite
    have hnonneg := (nonneg_iff_grains habs).mp (abs_nonneg h)
    have hlimited : limited = if maxSpread < spread.abs then maxSpread else spread.abs := by
      rw [← Scalar.smaller_eq habs (by decide)]
      exact if_pos h
    rw [hlimited]
    split
    · rw [hmax]
      omega
    · rename_i hle
      rw [lt_iff_grains (by decide) habs, hmax] at hle
      omega
  · have hlimited : limited = LayoutSettings.initialSpread {} := if_neg h
    rw [hlimited]
    decide +kernel

/-- Half the edge lies between the least step from one and half a million. -/
theorem halfSpread_bounds (spread : Float32) :
    Scalar.epsilon ≤ halfSpread spread ∧ halfSpread spread ≤ 500000 := by
  have hepsilon : grains Scalar.epsilon = 2 ^ 126 := by decide +kernel
  have hlargest : grains 500000 = 500000 * 2 ^ 149 := by decide +kernel
  obtain ⟨hlo, hhi⟩ := limited_bounds spread
  have hlimited := limited_below spread
  unfold halfSpread
  simp only
  generalize (if spread.isFinite then Scalar.smaller spread.abs maxSpread
    else LayoutSettings.initialSpread {}) = limited at hlo hhi hlimited ⊢
  have hbelow : Below 0 0.5 := by decide
  have hfin : (limited * 0.5).isFinite :=
    (below_mul hlimited hbelow (by decide) (by decide)).isFinite
  have hhalf : grains (limited * 0.5) ≤ 500000 * 2 ^ 149 := by
    have hpoint : grains 0.5 = 2 ^ 148 := by decide +kernel
    refine (rounds_mul hlimited hbelow (by decide) (by decide)).le
      (writable_mul_pow (m := 500000) (by decide) 149) ?_
    rw [hpoint, div_le_iff₀ (by positivity)]
    exact_mod_cast (by omega : grains limited * 2 ^ 148 ≤ 500000 * 2 ^ 149 * 2 ^ 149)
  rw [Scalar.larger_eq hfin (by decide)]
  split
  · decide +kernel
  · rename_i hle
    rw [lt_iff_grains hfin (by decide), hepsilon] at hle
    rw [le_iff_grains (by decide) hfin, le_iff_grains hfin (by decide), hepsilon, hlargest]
    omega

variable {γ : Type} [Generator γ]

/-- What is drawn between the negative of a half and itself. -/
theorem draws_inCube (spread : Float32) (n : Nat) (g : γ) :
    ∀ x ∈ (Random.draws (-halfSpread spread) (halfSpread spread) n g).1,
      -halfSpread spread ≤ x ∧ x < halfSpread spread := by
  obtain ⟨hlow, -, hlt, -⟩ := halfSpread_range spread
  exact Random.draws_range ((le_iff_grains hlow hlow).mpr (Int.le_refl _)) hlt n g

/-! ## Known and new -/

/-- The coordinates of a body, in the order in which they are drawn. -/
def coordinates (b : Body) : List Float32 := [b.position.x, b.position.y, b.position.z]

/-- The nodes of a graph that a layout does not have. -/
def newNodes (l : Layout) (graph : Graph) : List Node :=
  graph.nodes.filter fun n => (l.body? n.id).isNone

/-- The bodies of a layout that another layout does not have. -/
def newBodies (l later : Layout) : List Body :=
  later.bodies.toList.filter fun b => (l.body? b.id).isNone

/-- New bodies are at rest, and take three numbers each. -/
theorem drawAll_newBody (half : Float32) (nodes : List Node) (g : γ) :
    (∀ b ∈ (Random.drawAll (newBody half) nodes g).1, b.velocity = .zero) ∧
      Random.draws (-half) half (nodes.length * 3) g =
        ((Random.drawAll (newBody half) nodes g).1.flatMap coordinates,
          (Random.drawAll (newBody half) nodes g).2) := by
  refine ⟨?_, Random.drawAll_eq_draws (fun _ _ => rfl) nodes g⟩
  induction nodes generalizing g with
  | nil => intro b hb; cases hb
  | cons n rest ih => exact List.forall_mem_cons.mpr ⟨rfl, ih _⟩

/-- What is not known is drawn, in the order of the nodes. -/
theorem newBodies_sync (l : Layout) (graph : Graph) (spread : Float32) (g : γ) :
    Random.drawAll (newBody (halfSpread spread)) (l.newNodes graph) g =
      (l.newBodies (l.sync graph spread g).1, (l.sync graph spread g).2) := by
  rw [newNodes, (keyed_body? l _).fill_new graph.nodes g]
  simp only [newBodies, sync, place_eq_fill]

/-! ## One retargeting -/

theorem body?_of_mem {l : Layout} (h : (l.bodies.toList.map Body.id).Nodup) {b : Body}
    (hb : b ∈ l.bodies.toList) : l.body? b.id = some b := by
  rw [body?, ← Array.find?_toList]
  exact Graph.find?_key h hb

variable {graph : Graph}

theorem sync_body? (l : Layout) (spread : Float32) (g : γ) {id : NodeId} {b : Body}
    (hid : graph.contains id) (hb : l.body? id = some b) :
    (l.sync graph spread g).1.body? id = some b := by
  have hkept := (keyed_body? l (halfSpread spread)).fill_kept g (Graph.contains_iff.mp hid) hb
  rw [← place_eq_fill] at hkept
  rw [body?, ← Array.find?_toList]
  exact hkept

/-- A layout that is retargeted again is not changed, and nothing is drawn for it. -/
theorem sync_again {γ' : Type} [Generator γ'] (hg : graph.WellFormed) (l : Layout)
    (spread : Float32) (g : γ) (spread' : Float32) (g' : γ') :
    (l.sync graph spread g).1.sync graph spread' g' = ((l.sync graph spread g).1, g') := by
  have hids := (sync_follows l hg spread g).ids
  have hnodup : ((l.sync graph spread g).1.bodies.toList.map Body.id).Nodup :=
    hids ▸ hg.ids_nodup
  have hknown : graph.nodes.map ((l.sync graph spread g).1.body? ∘ Node.id) =
      (l.sync graph spread g).1.bodies.toList.map some := by
    rw [← List.map_map, ← hids, List.map_map]
    exact List.map_congr_left fun b hb => body?_of_mem hnodup hb
  generalize hlater : (l.sync graph spread g).1 = later at hknown
  have hsprings : later.springs = springsOf graph := by rw [← hlater]; rfl
  rw [sync, place_eq_fill, Random.fill_again hknown]
  simp only [← hsprings]

/-- What one retargeting does: `later` is what becomes of the layout `l`, and `rest` is what is left
of the random numbers `g`. -/
structure Retargeted (l later : Layout) (graph : Graph) (spread : Float32) (g rest : γ) : Prop where
  /-- The nodes of the graph, in order. -/
  ids : later.bodies.toList.map Body.id = graph.nodes.map Node.id
  /-- A place is the place of an id if the id is there. -/
  slots : ∀ id i, later.columns.slots id = some i ↔ later.columns.ids[i]? = some id
  /-- What was known and is a node keeps its position and its velocity. -/
  kept : ∀ id b, graph.contains id → l.body? id = some b → later.body? id = some b
  /-- What is no node is not known any more. -/
  gone : ∀ id, graph.contains id = false → later.body? id = none
  /-- All other nodes are new, and at rest. -/
  new : (l.newBodies later).map Body.id = (l.newNodes graph).map Node.id ∧
    ∀ b ∈ l.newBodies later, b.velocity = .zero
  /-- They take three numbers each, in node order, and no other numbers are drawn. -/
  drawn : Random.draws (-halfSpread spread) (halfSpread spread) ((l.newNodes graph).length * 3) g =
    ((l.newBodies later).flatMap coordinates, rest)
  /-- They are in the cube. -/
  inCube : ∀ b ∈ l.newBodies later, ∀ x ∈ coordinates b,
    -halfSpread spread ≤ x ∧ x < halfSpread spread
  cube : Scalar.epsilon ≤ halfSpread spread ∧ halfSpread spread ≤ 500000
  /-- The links in order, each as the places of its two ends. -/
  springs : List.Forall₂ (fun spring link => graph.slot? link.source = some spring.1 ∧
    graph.slot? link.target = some spring.2) later.springs graph.links
  inRange : later.SpringsInRange
  /-- Once more changes nothing, whatever the spread, and draws nothing. -/
  again : ∀ {γ' : Type} [Generator γ'] (spread' : Float32) (g' : γ'),
    later.sync graph spread' g' = (later, g')

theorem sync_retargeted (hg : graph.WellFormed) (l : Layout) (spread : Float32) (g : γ) :
    l.Retargeted (l.sync graph spread g).1 graph spread g (l.sync graph spread g).2 := by
  have hfollows := sync_follows l hg spread g
  have hnew := newBodies_sync l graph spread g
  have hids := (keyed_body? l (halfSpread spread)).drawAll_keys (l.newNodes graph) g
  obtain ⟨hrest, hdrawn⟩ := drawAll_newBody (halfSpread spread) (l.newNodes graph) g
  rw [hnew] at hids hrest hdrawn
  refine {
    ids := hfollows.ids
    slots := fun id i => ?_
    kept := fun id b => sync_body? l spread g
    gone := fun id hid => ?_
    new := ⟨hids, hrest⟩
    drawn := hdrawn
    inCube := fun b hb x hx => ?_
    cube := halfSpread_bounds spread
    springs := hfollows.springs
    inRange := hfollows.springsInRange
    again := sync_again hg l spread g }
  · have hplace : (l.sync graph spread g).1.columns.slots id = graph.slot? id :=
      Table.findIdx?_eq_slot? hfollows id
    have hids : (l.sync graph spread g).1.columns.ids[i]? = (graph.nodes[i]?).map Node.id := by
      rw [← List.getElem?_map, ← hfollows.ids]
      simp [columns]
    rw [hplace, hids, Graph.slot?_eq_some_iff hg]
  · rw [Option.eq_none_iff_forall_ne_some]
    intro b hb
    have hknown := (body?_isSome _ id).mp (Option.isSome_iff_exists.mpr ⟨b, hb⟩)
    rw [hfollows.ids, ← Graph.contains_iff, hid] at hknown
    cases hknown
  · have hin := draws_inCube spread ((l.newNodes graph).length * 3) g
    rw [hdrawn] at hin
    exact hin x (List.mem_flatMap.mpr ⟨b, hb, hx⟩)

/-! ## Sequences -/

/-- A layout after a sequence of graphs, each with a spread, and what is left of the random
numbers. -/
def syncAll (l : Layout) (syncs : List (GraphInput × Float32)) (g : γ) : Layout × γ :=
  syncs.foldl (fun (l, g) (input, spread) => l.sync (Graph.ofInput input) spread g) (l, g)

theorem syncAll_concat (l : Layout) (syncs : List (GraphInput × Float32))
    (last : GraphInput × Float32) (g : γ) :
    l.syncAll (syncs ++ [last]) g =
      (l.syncAll syncs g).1.sync (Graph.ofInput last.1) last.2 (l.syncAll syncs g).2 :=
  List.foldl_concat ..

theorem syncAll_kept (l : Layout) {syncs : List (GraphInput × Float32)} (g : γ) {id : NodeId}
    {b : Body} (hb : l.body? id = some b) (hid : ∀ s ∈ syncs, (Graph.ofInput s.1).contains id) :
    (l.syncAll syncs g).1.body? id = some b := by
  induction syncs using List.reverseRecOn with
  | nil => exact hb
  | append_singleton syncs last ih =>
    rw [syncAll_concat]
    exact sync_body? _ _ _ (hid last (by simp))
      (ih fun s hs => hid s (by simp [hs]))

/-- **Retargeting keeps what it can and draws the rest.** Take any layout, so any that operations
have led to. Retargeting it to the graph of an input, with any spread and any source of random
numbers, does all that `Retargeted` says, and the columns that show the layout are rebuilt without a
fault. A node that is in every graph of a sequence keeps its position and its velocity to the end. A
node that one of them leaves out is not known then; the next graph that has it finds it new, and
puts it where the random numbers say. -/
theorem syncs_retarget (l : Layout) :
    (∀ (input : GraphInput) (spread : Float32) (g : γ),
      let graph := Graph.ofInput input
      let (later, rest) := l.sync graph spread g
      l.columns.sync (Graph.Index.ofInput input) spread g = .ok (later.columns, rest) ∧
        l.Retargeted later graph spread g rest) ∧
    (∀ (syncs : List (GraphInput × Float32)) (g : γ) (id : NodeId) (b : Body),
      l.body? id = some b → (∀ s ∈ syncs, (Graph.ofInput s.1).contains id) →
        (l.syncAll syncs g).1.body? id = some b) ∧
    ∀ (before : List (GraphInput × Float32)) (missing back : GraphInput × Float32) (g : γ)
      (id : NodeId), (Graph.ofInput missing.1).contains id = false →
        (Graph.ofInput back.1).contains id →
        let (between, g') := l.syncAll (before ++ [missing]) g
        let (later, rest) := l.syncAll (before ++ [missing, back]) g
        between.body? id = none ∧
          between.Retargeted later (Graph.ofInput back.1) back.2 g' rest ∧
          ∃ b ∈ between.newBodies later, later.body? id = some b := by
  refine ⟨fun input spread g => ?_, fun syncs g id b => syncAll_kept l g,
    fun before missing back g id hmissing hback => ?_⟩
  · have hg := Graph.ofInput_wellFormed input
    obtain ⟨t, hok, hshows⟩ := Table.sync_eq (columns_shows l)
      (Graph.Index.ofInput_agrees input) hg spread g
    exact ⟨hshows.eq_columns ▸ hok, sync_retargeted hg l spread g⟩
  · have hgone : (l.syncAll (before ++ [missing]) g).1.body? id = none := by
      rw [syncAll_concat]
      exact (sync_retargeted (Graph.ofInput_wellFormed missing.1) _ _ _).gone id hmissing
    have hlater : l.syncAll (before ++ [missing, back]) g = _ :=
      (congrArg (l.syncAll · g) (List.append_cons before missing [back])).trans
        (syncAll_concat l (before ++ [missing]) back g)
    generalize l.syncAll (before ++ [missing]) g = between at hgone hlater ⊢
    rw [hlater]
    have hdone := sync_retargeted (Graph.ofInput_wellFormed back.1) between.1 back.2 between.2
    obtain ⟨b, hb⟩ : ∃ b, (between.1.sync (Graph.ofInput back.1) back.2 between.2).1.body? id =
        some b := by
      rw [← Option.isSome_iff_exists, body?_isSome, hdone.ids]
      exact Graph.contains_iff.mp hback
    refine ⟨hgone, hdone, b, ?_, hb⟩
    rw [newBodies, List.mem_filter, body?_id hb, hgone]
    exact ⟨(Array.mem_of_find?_eq_some hb).val, rfl⟩

end TracePlayback.Layout
