import TracePlayback.Layout.Basic

/-!
# Forces

One tick of the layout: every two nodes repel each other, every node is drawn to the origin, and
links pull their ends together. All forces are computed from the positions before the tick, pair by
pair, each pair adding to one end what it takes from the other; then every node moves by itself.
A force that is not finite is left out.
-/
namespace TracePlayback.Layout

/-- The pairs of different places below `n`, in order. -/
def pairs (n : Nat) : List (Nat × Nat) :=
  (List.range n).flatMap fun i => ((List.range n).drop (i + 1)).map fun j => (i, j)

/-- The forces summed up so far, by place. -/
abbrev Forces := Array Vec3

namespace Forces

/-- Adds a force at one place and takes it from another. -/
def exchange (forces : Forces) (i j : Nat) (f : Vec3) : Forces :=
  (forces.modify i (· + f)).modify j (· - f)

end Forces

theorem ite_isFinite_eq_some_iff {f g : Vec3} :
    (if f.isFinite then some f else none) = some g ↔ g.isFinite ∧ g = f := by
  rw [Option.ite_none_right_eq_some, Option.some.injEq]
  exact ⟨fun ⟨h, e⟩ => ⟨e ▸ h, e.symm⟩, fun ⟨h, e⟩ => ⟨e ▸ h, e.symm⟩⟩

/-- The push of the node at `q` on the node at `p`; none if they are too near. -/
def repulsion? (s : LayoutSettings) (p q : Vec3) : Option Vec3 :=
  let d := p - q
  let distSq := d.lengthSquared
  if distSq < Scalar.larger s.epsilonSq Scalar.leastNormal then none
  else
    let f := d * (s.repulsion / distSq)
    if f.isFinite then some f else none

theorem repulsion?_eq_some_iff {s : LayoutSettings} {p q f : Vec3} :
    repulsion? s p q = some f ↔
      ¬ (p - q).lengthSquared < Scalar.larger s.epsilonSq Scalar.leastNormal ∧
        f.isFinite ∧ f = (p - q) * (s.repulsion / (p - q).lengthSquared) := by
  rw [repulsion?, Option.ite_none_left_eq_some, ite_isFinite_eq_some_iff]

theorem repulsion?_eq_none_iff {s : LayoutSettings} {p q : Vec3} :
    repulsion? s p q = none ↔
      (p - q).lengthSquared < Scalar.larger s.epsilonSq Scalar.leastNormal ∨
        ¬ ((p - q) * (s.repulsion / (p - q).lengthSquared)).isFinite := by
  simp only [repulsion?]
  split <;> simp [*]

/-- The pull of the origin on a node at `p`. -/
def centering? (s : LayoutSettings) (p : Vec3) : Option Vec3 :=
  let f := -p * s.centering
  if f.isFinite then some f else none

theorem centering?_eq_some_iff {s : LayoutSettings} {p f : Vec3} :
    centering? s p = some f ↔ f.isFinite ∧ f = -p * s.centering := ite_isFinite_eq_some_iff

theorem centering?_eq_none_iff {s : LayoutSettings} {p : Vec3} :
    centering? s p = none ↔ ¬ (-p * s.centering).isFinite := by
  simp [centering?]

/-- The pull on a link's first end, at `p`, towards its second, at `q`. -/
def spring? (s : LayoutSettings) (p q : Vec3) : Option Vec3 :=
  let f := (q - p) * s.spring
  if f.isFinite then some f else none

theorem spring?_eq_some_iff {s : LayoutSettings} {p q f : Vec3} :
    spring? s p q = some f ↔ f.isFinite ∧ f = (q - p) * s.spring := ite_isFinite_eq_some_iff

theorem spring?_eq_none_iff {s : LayoutSettings} {p q : Vec3} :
    spring? s p q = none ↔ ¬ ((q - p) * s.spring).isFinite := by
  simp [spring?]

def positionAt (bodies : Array Body) (i : Nat) : Vec3 := (bodies[i]?.map Body.position).getD .zero

def addRepulsion (s : LayoutSettings) (bodies : Array Body) (forces : Forces) : Forces :=
  (pairs bodies.size).foldl (fun forces (i, j) =>
    match repulsion? s (positionAt bodies i) (positionAt bodies j) with
    | some f => forces.exchange i j f
    | none => forces) forces

def addCentering (s : LayoutSettings) (bodies : Array Body) (forces : Forces) : Forces :=
  Array.zipWith (fun f b => match centering? s b.position with
    | some pull => f + pull
    | none => f) forces bodies

def addSprings (s : LayoutSettings) (bodies : Array Body) (springs : List (Nat × Nat))
    (forces : Forces) : Forces :=
  springs.foldl (fun forces (i, j) =>
    if i = j then forces
    else
      match spring? s (positionAt bodies i) (positionAt bodies j) with
      | some f => forces.exchange i j f
      | none => forces) forces

def forces (s : LayoutSettings) (l : Layout) : Forces :=
  addSprings s l.bodies l.springs <| addCentering s l.bodies <| addRepulsion s l.bodies <|
    Array.replicate l.size .zero

/-- Moves one body under a force for `dt` seconds. -/
def moveBody (s : LayoutSettings) (dt : Float32) (force : Vec3) (b : Body) : Body :=
  let v := (b.velocity + force * dt) * Scalar.clamp 0 1 s.damping
  let v := if v.isFinite then v else .zero
  let maxStep := Scalar.larger s.maxStep 0.001
  let way := v * dt * s.speed
  let way := if maxStep < way.length then way.normalizeOrZero * maxStep else way
  let next := b.position + way
  { b with velocity := v, position := if next.isFinite then next else b.position }

/-- One tick of `dt` seconds. A frame that is not finite or not positive moves nothing. -/
def step (s : LayoutSettings) (l : Layout) (dt : Float32) : Layout :=
  if ¬ dt.isFinite ∨ dt ≤ 0 then l
  else
    let dt := Scalar.smaller dt s.maxDt
    { l with bodies := Array.zipWith (moveBody s dt) (l.forces s) l.bodies }

end TracePlayback.Layout
