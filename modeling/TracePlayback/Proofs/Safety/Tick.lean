import TracePlayback.Proofs.Safety.Table

/-!
# A tick over the columns

The forces are summed up in a column of their own, pair by pair and then spring by spring, and each
body is moved in place. Every step of these loops reads and writes at places that it is given.

* `addRepulsion_eq`, `addSprings_eq`: pairs and springs are pairs of places, so that the sums of the
  forces do not fault.
* `integrate_eq`: neither does moving the bodies, and moving them in place one after the other moves
  each of them as if by itself.
* `step_eq`: a tick of a table that shows a layout does not fault, whatever the settings, and the
  table then shows the layout after the tick.
-/
namespace TracePlayback.Layout

theorem step_of_size_eq_zero {l : Layout} (h : l.size = 0) (s : LayoutSettings) (dt : Float32) :
    step s l dt = l := by
  have hnone : l.bodies = #[] := Array.eq_empty_of_size_eq_zero h
  have hsame : Array.zipWith (moveBody s (Scalar.smaller dt s.maxDt)) (l.forces s) l.bodies =
      l.bodies := by
    rw [hnone]
    exact Array.eq_empty_of_size_eq_zero (by simp)
  unfold step
  split
  · rfl
  · simp only [hsame]

namespace Table

def exchange (forces : Forces) (i j : Nat) (f : Vec3) : Except Fault Forces := do
  let forces ← Guard.modify forces i (· + f)
  Guard.modify forces j (· - f)

def addRepulsion (s : LayoutSettings) (t : Table) (forces : Forces) : Except Fault Forces :=
  (pairs t.ids.size).foldlM (fun forces (i, j) => do
    let p ← Guard.read t.positions[i]?
    let q ← Guard.read t.positions[j]?
    match repulsion? s p q with
    | some f => exchange forces i j f
    | none => .ok forces) forces

def addCentering (s : LayoutSettings) (t : Table) (forces : Forces) : Forces :=
  Array.zipWith (fun f p => match centering? s p with
    | some pull => f + pull
    | none => f) forces t.positions

def addSprings (s : LayoutSettings) (t : Table) (forces : Forces) : Except Fault Forces :=
  t.springs.foldlM (fun forces (i, j) => do
    if i = j then .ok forces
    else
      let q ← Guard.read t.positions[j]?
      let p ← Guard.read t.positions[i]?
      match spring? s p q with
      | some f => exchange forces i j f
      | none => .ok forces) forces

/-- The velocity of a body after a tick. -/
def velocityAfter (dt damping : Float32) (force v : Vec3) : Vec3 :=
  let v := (v + force * dt) * damping
  if v.isFinite then v else .zero

/-- The position of a body after a tick. -/
def positionAfter (s : LayoutSettings) (dt : Float32) (v p : Vec3) : Vec3 :=
  let maxStep := Scalar.larger s.maxStep 0.001
  let way := v * dt * s.speed
  let way := if maxStep < way.length then way.normalizeOrZero * maxStep else way
  let next := p + way
  if next.isFinite then next else p

/-- Moves the body at a place: the columns of positions and velocities. -/
def moveAt (s : LayoutSettings) (dt damping : Float32) (forces : Forces)
    (columns : Array Vec3 × Array Vec3) (i : Nat) : Except Fault (Array Vec3 × Array Vec3) := do
  let (positions, velocities) := columns
  let v ← Guard.read velocities[i]?
  let force ← Guard.read forces[i]?
  let v := velocityAfter dt damping force v
  let velocities ← Guard.modify velocities i fun _ => v
  let p ← Guard.read positions[i]?
  let positions ← Guard.modify positions i fun _ => positionAfter s dt v p
  return (positions, velocities)

/-- Moves all bodies, one after the other. -/
def integrate (s : LayoutSettings) (t : Table) (dt damping : Float32) (forces : Forces) :
    Except Fault (Array Vec3 × Array Vec3) :=
  (List.range t.ids.size).foldlM (moveAt s dt damping forces) (t.positions, t.velocities)

def step (s : LayoutSettings) (t : Table) (dt : Float32) : Except Fault Table :=
  if t.ids.size = 0 ∨ ¬ dt.isFinite ∨ dt ≤ 0 then .ok t
  else do
    let dt := Scalar.smaller dt s.maxDt
    let damping ← Guard.clamp 0 1 s.damping
    let forces ← t.addRepulsion s (Array.replicate t.ids.size .zero)
    let forces ← t.addSprings s (t.addCentering s forces)
    let (positions, velocities) ← t.integrate s dt damping forces
    return { t with positions := positions, velocities := velocities }

/-! ## Forces -/

variable {t : Table} {l : Layout}

theorem Shows.size_ids (h : t.Shows l) : t.ids.size = l.size := by rw [h.ids, Array.size_map]; rfl

theorem Shows.read_position (h : t.Shows l) {i : Nat} (hi : i < l.size) :
    Guard.read t.positions[i]? = .ok (positionAt l.bodies i) := by
  have hi' : i < l.bodies.size := hi
  simp [h.positions, positionAt, hi']

theorem pairs_lt {n i j : Nat} (h : (i, j) ∈ pairs n) : i < n ∧ j < n := by
  simp only [pairs, List.mem_flatMap, List.mem_range, List.mem_map, Prod.mk.injEq] at h
  obtain ⟨i, hi, j, hj, rfl, rfl⟩ := h
  exact ⟨hi, List.mem_range.mp (List.mem_of_mem_drop hj)⟩

theorem exchange_eq {forces : Forces} {i j : Nat} (hi : i < forces.size) (hj : j < forces.size)
    (f : Vec3) : exchange forces i j f = .ok (forces.exchange i j f) := by
  rw [exchange, Guard.modify_eq hi, ok_bind, Guard.modify_eq (by simpa using hj)]
  rfl

theorem addRepulsion_eq (h : t.Shows l) (s : LayoutSettings) {forces : Forces}
    (hf : forces.size = l.size) :
    t.addRepulsion s forces = .ok (Layout.addRepulsion s l.bodies forces) := by
  unfold addRepulsion Layout.addRepulsion
  rw [h.size_ids]
  refine Guard.foldlM_eq (P := fun fs : Forces => fs.size = l.size) ?_ hf
  rintro ⟨i, j⟩ hij fs hfs
  obtain ⟨hi, hj⟩ := pairs_lt hij
  simp only [h.read_position hi, h.read_position hj, ok_bind]
  cases repulsion? s (positionAt l.bodies i) (positionAt l.bodies j) with
  | none => exact ⟨rfl, hfs⟩
  | some f => exact ⟨exchange_eq (by omega) (by omega) f, by simpa using hfs⟩

theorem addCentering_eq (h : t.Shows l) (s : LayoutSettings) (forces : Forces) :
    t.addCentering s forces = Layout.addCentering s l.bodies forces := by
  rw [addCentering, h.positions, Array.zipWith_map_right]
  rfl

theorem addSprings_eq (h : t.Shows l) (hl : l.SpringsInRange) (s : LayoutSettings) {forces : Forces}
    (hf : forces.size = l.size) :
    t.addSprings s forces = .ok (Layout.addSprings s l.bodies l.springs forces) := by
  unfold addSprings Layout.addSprings
  rw [h.springs]
  refine Guard.foldlM_eq (P := fun fs : Forces => fs.size = l.size) ?_ hf
  rintro ⟨i, j⟩ hij fs hfs
  obtain ⟨hi, hj⟩ := hl (i, j) hij
  by_cases heq : i = j
  · simp only [heq, if_true, true_and]
    exact hfs
  · simp only [heq, if_false, h.read_position hi, h.read_position hj, ok_bind]
    cases spring? s (positionAt l.bodies i) (positionAt l.bodies j) with
    | none => exact ⟨rfl, hfs⟩
    | some f => exact ⟨exchange_eq (by omega) (by omega) f, by simpa using hfs⟩

/-! ## Motion -/

theorem moveBody_eq (s : LayoutSettings) (dt : Float32) (force : Vec3) (b : Body) :
    let v := velocityAfter dt (Scalar.clamp 0 1 s.damping) force b.velocity
    moveBody s dt force b = ⟨b.id, positionAfter s dt v b.position, v⟩ := rfl

theorem getElem?_foldl_modify {α : Type} (f : Nat → α → α) (xs : Array α) (k j : Nat) :
    ((List.range k).foldl (fun xs i => xs.modify i (f i)) xs)[j]? =
      if j < k then xs[j]?.map (f j) else xs[j]? := by
  induction k with
  | zero => simp
  | succ k ih =>
    rw [List.range_succ, List.foldl_append, List.foldl_cons, List.foldl_nil,
      Array.getElem?_modify, ih]
    split
    · rename_i hk
      subst hk
      simp
    · split <;> split <;> first | rfl | omega

theorem map_modify {α β : Type} (f : α → β) (g : α → α) {xs : Array α} {i : Nat} {x : α}
    (hx : xs[i]? = some x) : (xs.modify i g).map f = (xs.map f).modify i fun _ => f (g x) := by
  apply Array.ext_getElem?
  intro j
  simp only [Array.getElem?_modify, Array.getElem?_map]
  split
  · rename_i hij
    subst hij
    simp [hx]
  · rfl

theorem moveAt_eq (s : LayoutSettings) (dt : Float32) {forces : Forces} {bodies : Array Body}
    {i : Nat} (hb : i < bodies.size) (hf : i < forces.size) :
    let moved := bodies.modify i (moveBody s dt forces[i])
    moveAt s dt (Scalar.clamp 0 1 s.damping) forces
        (bodies.map Body.position, bodies.map Body.velocity) i =
      .ok (moved.map Body.position, moved.map Body.velocity) := by
  have hbi := Array.getElem?_eq_getElem hb
  have hposition : i < (bodies.map Body.position).size := by simpa using hb
  have hvelocity : i < (bodies.map Body.velocity).size := by simpa using hb
  simp only [moveAt, Array.getElem?_map, hbi, Array.getElem?_eq_getElem hf, Option.map_some,
    Guard.read_some, ok_bind, Guard.modify_eq hposition, Guard.modify_eq hvelocity,
    map_modify _ _ hbi, moveBody_eq, Guard.pure_eq_ok]

theorem integrate_eq (h : t.Shows l) (s : LayoutSettings) (dt : Float32) {forces : Forces}
    (hf : forces.size = l.size) :
    let moved := Array.zipWith (moveBody s dt) forces l.bodies
    t.integrate s dt (Scalar.clamp 0 1 s.damping) forces =
      .ok (moved.map Body.position, moved.map Body.velocity) := by
  intro moved
  have hmoved : (List.range l.size).foldl
      (fun bs i => bs.modify i (moveBody s dt (forces[i]?.getD .zero))) l.bodies = moved := by
    apply Array.ext_getElem?
    intro i
    rw [getElem?_foldl_modify, Array.getElem?_zipWith]
    by_cases hi : i < l.size
    · have hb : i < l.bodies.size := hi
      simp [hi, hb, hf]
    · have hb : l.bodies.size ≤ i := Nat.le_of_not_lt hi
      simp [hi, hb, hf]
  obtain ⟨_, hok, rfl, -⟩ := Guard.foldlM_ok
    (R := fun columns bs =>
      columns = (bs.map Body.position, bs.map Body.velocity) ∧ bs.size = l.size)
    (f := moveAt s dt (Scalar.clamp 0 1 s.damping) forces) (b := (t.positions, t.velocities))
    (g := fun bs i => bs.modify i (moveBody s dt (forces[i]?.getD .zero))) (c := l.bodies)
    (List.range l.size) (by
      rintro i hi _ bs ⟨rfl, hbs⟩
      rw [List.mem_range] at hi
      have hif : i < forces.size := by omega
      refine ⟨_, moveAt_eq s dt (by omega) hif, ?_, by simpa using hbs⟩
      rw [Array.getElem?_eq_getElem hif, Option.getD_some])
    ⟨by rw [h.positions, h.velocities], rfl⟩
  rw [hmoved] at hok
  rw [integrate, h.size_ids, hok]

/-! ## A tick -/

theorem Shows.move (h : t.Shows l) {m : Layout} (hids : m.bodies.map Body.id = l.bodies.map Body.id)
    (hsprings : m.springs = l.springs) :
    Shows { t with
      positions := m.bodies.map Body.position
      velocities := m.bodies.map Body.velocity } m := by
  refine ⟨h.ids.trans hids.symm, fun id => ?_, rfl, rfl, h.springs.trans hsprings.symm⟩
  rw [findIdx?_id, hids, ← findIdx?_id]
  exact h.slots id

/-- A tick does not fault. -/
theorem step_eq (h : t.Shows l) (hl : l.SpringsInRange) (s : LayoutSettings) (dt : Float32) :
    ∃ later, t.step s dt = .ok later ∧ later.Shows (Layout.step s l dt) := by
  have hmove := h.move (step_map_id s l dt) (step_springs s l dt)
  unfold step
  by_cases hempty : t.ids.size = 0
  · rw [if_pos (Or.inl hempty), step_of_size_eq_zero (h.size_ids.symm.trans hempty)]
    exact ⟨t, rfl, h⟩
  by_cases hstill : ¬ dt.isFinite ∨ dt ≤ 0
  · rw [if_pos (Or.inr hstill), Layout.step, if_pos hstill]
    exact ⟨t, rfl, h⟩
  rw [if_neg (not_or.mpr ⟨hempty, hstill⟩)]
  rw [Layout.step, if_neg hstill] at hmove ⊢
  have hsize : (Array.replicate l.size Vec3.zero).size = l.size := Array.size_replicate
  have hrepulsion := addRepulsion_eq h s hsize
  have hcentered : (Layout.addCentering s l.bodies (Layout.addRepulsion s l.bodies
      (Array.replicate l.size .zero))).size = l.size := by
    simp [Layout.addCentering, size_addRepulsion, size]
  have hsprings := addSprings_eq h hl s hcentered
  simp only [Guard.clamp_eq (show (0 : Float32) ≤ 1 by decide), ok_bind, h.size_ids,
    hrepulsion, addCentering_eq h, hsprings]
  have hforces := integrate_eq h s (Scalar.smaller dt s.maxDt) (size_forces s l)
  unfold forces at hforces
  simp only [hforces, ok_bind]
  exact ⟨_, rfl, hmove⟩

end Table
end TracePlayback.Layout
