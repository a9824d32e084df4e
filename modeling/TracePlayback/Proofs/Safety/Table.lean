import TracePlayback.Proofs.Layout.Retarget
import TracePlayback.Proofs.Layout.Scatter
import TracePlayback.Proofs.Safety.Index

/-!
# A layout in columns

Ids, positions and velocities are kept in columns of their own, beside a table of the places that
ids have in them. A layout is retargeted by reading the columns at the places that the old table
holds.

* `Shows`: the columns are those of a layout, and the table says where its bodies are.
* `position_eq`, `velocity_eq`: no lookup of a table that shows a layout faults.
* `sync_eq`: neither does retargeting it to a well-formed graph, and the table then shows the layout
  that is retargeted.
-/
namespace TracePlayback.Layout

/-- The columns of a layout, and the place of each id in them. -/
structure Table where
  ids : Array NodeId
  slots : NodeId → Option Nat
  positions : Array Vec3
  velocities : Array Vec3
  springs : List (Nat × Nat)

namespace Table

def empty : Table := ⟨#[], fun _ => none, #[], #[], []⟩

/-- Puts a node behind those that are there. -/
def push (t : Table) (id : NodeId) (p v : Vec3) : Table :=
  { t with
    ids := t.ids.push id
    slots := Function.update t.slots id (some t.ids.size)
    positions := t.positions.push p
    velocities := t.velocities.push v }

def position (t : Table) (id : NodeId) : Except Fault (Option Vec3) :=
  match t.slots id with
  | none => .ok none
  | some i => do return some (← Guard.read t.positions[i]?)

def velocity (t : Table) (id : NodeId) : Except Fault (Option Vec3) :=
  match t.slots id with
  | none => .ok none
  | some i => do return some (← Guard.read t.velocities[i]?)

section
variable {γ : Type} [Generator γ]

def scatter (half : Float32) (g : γ) : Except Fault (Vec3 × γ) := do
  let (x, g) ← Guard.draw (-half) half g
  let (y, g) ← Guard.draw (-half) half g
  let (z, g) ← Guard.draw (-half) half g
  return (⟨x, y, z⟩, g)

/-- Puts a list of nodes behind those that are there: where `old` has them, or at random. -/
def place (old : Table) (half : Float32) : List Node → Table → γ → Except Fault (Table × γ)
  | [], new, g => .ok (new, g)
  | n :: rest, new, g =>
    match old.slots n.id with
    | some i => do
      let p ← Guard.read old.positions[i]?
      let v ← Guard.read old.velocities[i]?
      place old half rest (new.push n.id p v) g
    | none => do
      let (p, g) ← scatter half g
      place old half rest (new.push n.id p .zero) g

def sync (t : Table) (x : Graph.Index) (spread : Float32) (g : γ) : Except Fault (Table × γ) := do
  let (new, g) ← t.place (halfSpread spread) x.graph.nodes empty g
  let springs := x.graph.links.filterMap fun l => do
    return (← new.slots l.source, ← new.slots l.target)
  return ({ new with springs := springs }, g)

end

/-- The columns and places are those of a layout. -/
structure Shows (t : Table) (l : Layout) : Prop where
  ids : t.ids = l.bodies.map Body.id
  slots : ∀ id, t.slots id = l.bodies.findIdx? (·.id = id)
  positions : t.positions = l.bodies.map Body.position
  velocities : t.velocities = l.bodies.map Body.velocity
  springs : t.springs = l.springs

theorem empty_shows : empty.Shows .empty := by
  constructor <;> simp [empty, Layout.empty]

/-! ## Looking up -/

variable {t : Table} {l : Layout}

/-- A place in the table is a place in the columns. -/
theorem Shows.slot_cases (h : t.Shows l) (id : NodeId) :
    (t.slots id = none ∧ l.body? id = none) ∨
      ∃ i b, t.slots id = some i ∧ l.body? id = some b ∧ b.id = id ∧
        t.positions[i]? = some b.position ∧ t.velocities[i]? = some b.velocity := by
  have hbody : l.body? id = (l.bodies.findIdx? (·.id = id)).bind (l.bodies[·]?) :=
    Array.find?_eq_bind_findIdx?_getElem?
  rw [h.slots, hbody]
  cases hi : l.bodies.findIdx? (·.id = id) with
  | none => exact Or.inl ⟨rfl, rfl⟩
  | some i =>
    obtain ⟨hlt, hid, -⟩ := Array.findIdx?_eq_some_iff_getElem.mp hi
    refine Or.inr ⟨i, l.bodies[i], rfl, ?_, by simpa using hid, ?_, ?_⟩
    · simp [hlt]
    · simp [h.positions, hlt]
    · simp [h.velocities, hlt]

theorem position_eq (h : t.Shows l) (id : NodeId) : t.position id = .ok (l.position? id) := by
  unfold position position?
  rcases h.slot_cases id with ⟨hs, hb⟩ | ⟨i, b, hs, hb, -, hp, -⟩
  · simp [hs, hb]
  · simp [hs, hb, hp]

theorem velocity_eq (h : t.Shows l) (id : NodeId) : t.velocity id = .ok (l.velocity? id) := by
  unfold velocity velocity?
  rcases h.slot_cases id with ⟨hs, hb⟩ | ⟨i, b, hs, hb, -, -, hv⟩
  · simp [hs, hb]
  · simp [hs, hb, hv]

/-! ## Retargeting -/

theorem push_shows (h : t.Shows l) {b : Body} (hnew : b.id ∉ l.bodies.toList.map Body.id) :
    (t.push b.id b.position b.velocity).Shows { l with bodies := l.bodies.push b } := by
  refine ⟨?_, fun id => ?_, ?_, ?_, h.springs⟩
  · simp [push, h.ids]
  · have hnone : l.bodies.findIdx? (·.id = b.id) = none := by
      simpa [Array.findIdx?_eq_none_iff] using hnew
    simp only [push, Function.update_apply, Array.findIdx?_push, h.slots, h.ids, Array.size_map]
    by_cases hid : id = b.id
    · subst hid
      simp [hnone]
    · simp [hid, Ne.symm hid]
  · simp [push, h.positions]
  · simp [push, h.velocities]

section
variable {γ : Type} [Generator γ]

/-- The range that is drawn from is never empty, whatever the spread. -/
theorem scatter_eq (spread : Float32) (g : γ) :
    scatter (halfSpread spread) g = .ok (Layout.scatter (halfSpread spread) g) := by
  simp only [scatter, Guard.draw_eq (halfSpread_range spread), ok_bind]
  rfl

theorem place_eq {old new : Table} {l m : Layout} (hold : old.Shows l) (hnew : new.Shows m)
    (spread : Float32) (nodes : List Node) (g : γ)
    (hids : (m.bodies.toList.map Body.id ++ nodes.map Node.id).Nodup) :
    ∃ later, old.place (halfSpread spread) nodes new g =
        .ok (later, (l.place (halfSpread spread) nodes g).2) ∧
      later.Shows { m with
        bodies := m.bodies ++ (l.place (halfSpread spread) nodes g).1.toArray } := by
  induction nodes generalizing new m g with
  | nil => exact ⟨new, rfl, by simpa [Layout.place] using hnew⟩
  | cons n rest ih =>
    -- whichever body comes first, the rest follows behind it
    have hnext : ∀ b : Body, b.id = n.id → ∀ g : γ, ∃ later,
        old.place (halfSpread spread) rest (new.push n.id b.position b.velocity) g =
          .ok (later, (l.place (halfSpread spread) rest g).2) ∧
        later.Shows { m with
          bodies := m.bodies ++ (b :: (l.place (halfSpread spread) rest g).1).toArray } := by
      intro b hb g
      have hfresh : b.id ∉ m.bodies.toList.map Body.id := by
        intro hmem
        rw [List.nodup_append] at hids
        exact hids.2.2 _ hmem _ List.mem_cons_self hb
      obtain ⟨later, hok, hshows⟩ := ih (hb ▸ push_shows hnew hfresh) g
        (by simpa [hb] using hids)
      exact ⟨later, hok, by simpa using hshows⟩
    unfold place Layout.place
    rcases hold.slot_cases n.id with ⟨hs, hb⟩ | ⟨i, b, hs, hb, hid, hp, hv⟩
    · simp only [hs, hb, scatter_eq, ok_bind]
      exact hnext ⟨n.id, _, .zero⟩ rfl _
    · simp only [hs, hb, hp, hv, Guard.read_some, ok_bind]
      exact hnext b hid g

theorem findIdx?_eq_slot? {l : Layout} {graph : Graph} (h : l.Follows graph) (id : NodeId) :
    l.bodies.findIdx? (·.id = id) = graph.slot? id := by
  have hbodies : l.bodies.findIdx? (·.id = id) =
      (l.bodies.toList.map Body.id).findIdx? (· = id) := by
    rw [List.findIdx?_map, ← List.findIdx?_toArray]
    rfl
  rw [hbodies, h.ids, List.findIdx?_map]
  rfl

theorem sync_eq {t : Table} {l : Layout} (h : t.Shows l) {x : Graph.Index} {graph : Graph}
    (hx : x.Agrees graph) (hg : graph.WellFormed) (spread : Float32) (g : γ) :
    ∃ later, t.sync x spread g = .ok (later, (l.sync graph spread g).2) ∧
      later.Shows (l.sync graph spread g).1 := by
  obtain ⟨later, hok, hshows⟩ := place_eq h empty_shows spread graph.nodes g (by
    simpa [Layout.empty] using hg.ids_nodup)
  have hfollows := sync_follows l hg spread g
  have hbodies : (l.sync graph spread g).1.bodies =
      Layout.empty.bodies ++ (l.place (halfSpread spread) graph.nodes g).1.toArray := by
    simp [Layout.sync, Layout.empty]
  have hslots : later.slots = graph.slot? := funext fun id => by
    rw [hshows.slots, ← hbodies, findIdx?_eq_slot? hfollows]
  simp only [sync, hx.graph, hok, ok_bind, hslots]
  exact ⟨_, rfl, by rw [hshows.ids, ← hbodies], fun id => (findIdx?_eq_slot? hfollows id).symm,
    by rw [hshows.positions, ← hbodies], by rw [hshows.velocities, ← hbodies], rfl⟩

end

end Table

/-- The columns of a layout. -/
def columns (l : Layout) : Table where
  ids := l.bodies.map Body.id
  slots := fun id => l.bodies.findIdx? (·.id = id)
  positions := l.bodies.map Body.position
  velocities := l.bodies.map Body.velocity
  springs := l.springs

theorem columns_shows (l : Layout) : l.columns.Shows l := ⟨rfl, fun _ => rfl, rfl, rfl, rfl⟩

/-- There are no other columns that show it. -/
theorem Table.Shows.eq_columns {t : Table} {l : Layout} (h : t.Shows l) : t = l.columns := by
  obtain ⟨hids, hslots, hpositions, hvelocities, hsprings⟩ := h
  cases t
  simp only at hids hpositions hvelocities hsprings
  subst hids hpositions hvelocities hsprings
  exact congrArg (Table.mk _ · _ _ _) (funext hslots)

end TracePlayback.Layout
