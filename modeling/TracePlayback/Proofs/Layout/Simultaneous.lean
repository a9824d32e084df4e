import TracePlayback.Proofs.Safety.Tick
import TracePlayback.Proofs.Single.Side

/-!
# All nodes move at once

The forces of a tick are scattered: every pair and every spring adds to one sum what it takes from
another, while the sums of all nodes are still under way. What the sum of one node comes to can be
gathered for that node alone, from the positions before the tick. Sums of singles depend on the
order of what is added, so the order is kept.

* `Mechanics`: what a tick computes with. No law is asked of it.
* `Mechanics.scattered`, `Mechanics.gathered`: the sums of all nodes, pair by pair and spring by
  spring, and the sum of one node.
* `filter_pairs`: the pairs that a node is in come in the order of the other node.
* `Mechanics.getElem?_scattered`: so the two agree, whatever the mechanics.
* `forces_eq_scattered`: the forces of a layout are scattered.
* `step_simultaneous`: so a tick moves every node by itself.
-/
namespace TracePlayback.Layout

/-- What a tick computes with: forces, how they are added to a sum and taken from it, and what
force there is, if any, between two positions, at a position, and along a spring. -/
structure Mechanics (V : Type) where
  zero : V
  add : V → V → V
  sub : V → V → V
  repulsion? : V → V → Option V
  centering? : V → Option V
  spring? : V → V → Option V

namespace Mechanics

variable {V : Type} (m : Mechanics V)

def position (positions : Array V) (i : Nat) : V := positions[i]?.getD m.zero

def plus (sum : V) : Option V → V
  | some f => m.add sum f
  | none => sum

def minus (sum : V) : Option V → V
  | some f => m.sub sum f
  | none => sum

/-! ## The sums of all nodes -/

def exchange (sums : Array V) (i j : Nat) : Option V → Array V
  | some f => (sums.modify i (m.add · f)).modify j (m.sub · f)
  | none => sums

/-- The sums of all nodes, pair by pair and spring by spring. -/
def scattered (positions : Array V) (springs : List (Nat × Nat)) : Array V :=
  let p := m.position positions
  let sums := (pairs positions.size).foldl
    (fun sums (i, j) => m.exchange sums i j (m.repulsion? (p i) (p j)))
    (Array.replicate positions.size m.zero)
  let sums := Array.zipWith (fun sum p => m.plus sum (m.centering? p)) sums positions
  springs.foldl
    (fun sums (i, j) => if i = j then sums else m.exchange sums i j (m.spring? (p i) (p j))) sums

/-! ## The sum of one node -/

/-- The sum of the node at place `k`. The pairs come first, those with earlier nodes before those
with later ones, then the centering and then the springs in order. -/
def gathered (positions : Array V) (springs : List (Nat × Nat)) (k : Nat) : V :=
  let p := m.position positions
  let sum := (List.range k).foldl (fun sum j => m.minus sum (m.repulsion? (p j) (p k))) m.zero
  let sum := ((List.range positions.size).drop (k + 1)).foldl
    (fun sum j => m.plus sum (m.repulsion? (p k) (p j))) sum
  let sum := m.plus sum (m.centering? (p k))
  springs.foldl (fun sum (i, j) =>
    if i = j then sum
    else if k = i then m.plus sum (m.spring? (p i) (p j))
    else if k = j then m.minus sum (m.spring? (p i) (p j))
    else sum) sum

end Mechanics

/-! ## The pairs of a node -/

theorem range_eq_append {n k : Nat} (hk : k < n) :
    List.range n = List.range k ++ k :: (List.range n).drop (k + 1) := by
  have htake : (List.range n).take k = List.range k := by
    rw [List.take_range, Nat.min_eq_left hk.le]
  have hdrop : (List.range n).drop k = k :: (List.range n).drop (k + 1) := by
    rw [List.drop_eq_getElem_cons (by simpa using hk), List.getElem_range]
  rw [← htake, ← hdrop, List.take_append_drop]

theorem mem_drop_range {n i j : Nat} : j ∈ (List.range n).drop (i + 1) ↔ i < j ∧ j < n := by
  rw [List.range_eq_range', List.drop_range', List.mem_range'_1]
  omega

theorem pairs_ne {n : Nat} {p : Nat × Nat} (h : p ∈ pairs n) : p.1 ≠ p.2 := by
  obtain ⟨i, -, hp⟩ := List.mem_flatMap.mp h
  obtain ⟨j, hj, rfl⟩ := List.mem_map.mp hp
  exact (mem_drop_range.mp hj).1.ne

/-- The pairs that begin at a place. -/
def row (n i : Nat) : List (Nat × Nat) := ((List.range n).drop (i + 1)).map fun j => (i, j)

theorem filter_row_of_lt {n i k : Nat} (hik : i < k) (hk : k < n) :
    (row n i).filter (fun p => p.1 = k ∨ p.2 = k) = [(i, k)] := by
  have hone : ((List.range n).drop (i + 1)).filter (· = k) = [k] := by
    have hnodup : ((List.range n).drop (i + 1)).Nodup :=
      List.nodup_range.sublist (List.drop_sublist _ _)
    rw [List.filter_eq, List.count_eq_one_of_mem hnodup (mem_drop_range.mpr ⟨hik, hk⟩),
      List.replicate_one]
  have hne : i ≠ k := hik.ne
  rw [row, List.filter_map]
  simp [Function.comp_def, hne, hone]

theorem filter_row_self (n k : Nat) :
    (row n k).filter (fun p => p.1 = k ∨ p.2 = k) = row n k := by
  rw [List.filter_eq_self]
  intro p hp
  obtain ⟨j, -, rfl⟩ := List.mem_map.mp hp
  simp

theorem filter_row_of_gt {n i k : Nat} (hki : k < i) :
    (row n i).filter (fun p => p.1 = k ∨ p.2 = k) = [] := by
  rw [List.filter_eq_nil_iff]
  intro p hp
  obtain ⟨j, hj, rfl⟩ := List.mem_map.mp hp
  rw [mem_drop_range] at hj
  simp only [decide_eq_true_eq]
  omega

/-- The pairs that a node is in, those with earlier nodes first. -/
theorem filter_pairs {n k : Nat} (hk : k < n) :
    (pairs n).filter (fun p => p.1 = k ∨ p.2 = k) =
      (List.range k).map (fun j => (j, k)) ++
        ((List.range n).drop (k + 1)).map fun j => (k, j) := by
  have hearlier : (List.range k).flatMap (fun i => (row n i).filter fun p => p.1 = k ∨ p.2 = k) =
      (List.range k).map fun j => (j, k) := by
    rw [List.map_eq_flatMap]
    exact List.flatMap_congr fun i hi => filter_row_of_lt (List.mem_range.mp hi) hk
  have hlater : ((List.range n).drop (k + 1)).flatMap
      (fun i => (row n i).filter fun p => p.1 = k ∨ p.2 = k) = [] := by
    rw [List.flatMap_eq_nil_iff]
    exact fun i hi => filter_row_of_gt (mem_drop_range.mp hi).1
  change ((List.range n).flatMap (row n)).filter _ = _
  rw [List.filter_flatMap]
  conv_lhs => rw [range_eq_append hk]
  rw [List.flatMap_append, List.flatMap_cons, hearlier, hlater, filter_row_self, List.append_nil]
  rfl

namespace Mechanics

variable {V : Type} {m : Mechanics V}

/-! ## Scattered and gathered -/

/-- What an exchange does to one sum. -/
def share (m : Mechanics V) (k i j : Nat) (f : Option V) (sum : V) : V :=
  if k = i then m.plus sum f else if k = j then m.minus sum f else sum

theorem share_first (i j : Nat) (f : Option V) : m.share i i j f = (m.plus · f) :=
  funext fun _ => if_pos rfl

theorem share_second {i j : Nat} (hij : i ≠ j) (f : Option V) : m.share j i j f = (m.minus · f) :=
  funext fun _ => (if_neg hij.symm).trans (if_pos rfl)

theorem share_other {i j k : Nat} (h : ¬ (i = k ∨ j = k)) (f : Option V) : m.share k i j f = id := by
  rw [not_or] at h
  exact funext fun _ => (if_neg (Ne.symm h.1)).trans (if_neg (Ne.symm h.2))

theorem getElem?_exchange (sums : Array V) {i j : Nat} (hij : i ≠ j) (f : Option V) (k : Nat) :
    (m.exchange sums i j f)[k]? = sums[k]?.map (m.share k i j f) := by
  cases f with
  | none =>
    have hidle : m.share k i j none = id := by
      funext sum
      simp [share, plus, minus]
    rw [hidle, Option.map_id]
    rfl
  | some f =>
    simp only [exchange, Array.getElem?_modify]
    by_cases hi : i = k
    · subst hi
      simp [hij.symm, share_first, plus]
    · by_cases hj : j = k
      · subst hj
        simp [hi, share_second hij, minus]
      · simp [hi, hj, share_other]

theorem getElem?_foldl {α : Type} {f : Array V → α → Array V} {g : V → α → V} {k : Nat}
    {as : List α} (h : ∀ a ∈ as, ∀ sums : Array V, (f sums a)[k]? = sums[k]?.map (g · a))
    (sums : Array V) : (as.foldl f sums)[k]? = sums[k]?.map (as.foldl g) := by
  induction as generalizing sums with
  | nil => simp
  | cons a rest ih =>
    rw [List.foldl_cons, ih fun b hb => h b (List.mem_cons_of_mem a hb),
      h a List.mem_cons_self, Option.map_map]
    rfl

/-- All pairs, for one node: those with earlier nodes take from its sum, those with later ones add. -/
theorem foldl_pairs {n k : Nat} (hk : k < n) (force? : Nat → Nat → Option V) (sum : V) :
    (pairs n).foldl (fun sum p => m.share k p.1 p.2 (force? p.1 p.2) sum) sum =
      ((List.range n).drop (k + 1)).foldl (fun sum j => m.plus sum (force? k j))
        ((List.range k).foldl (fun sum j => m.minus sum (force? j k)) sum) := by
  have htouched : (pairs n).foldl (fun sum p => m.share k p.1 p.2 (force? p.1 p.2) sum) sum =
      ((pairs n).filter fun p => p.1 = k ∨ p.2 = k).foldl
        (fun sum p => m.share k p.1 p.2 (force? p.1 p.2) sum) sum := by
    rw [List.foldl_filter]
    refine List.foldl_ext _ _ _ fun sum p _ => ?_
    split
    · rfl
    · rename_i hout
      rw [share_other (by simpa using hout)]
      rfl
  rw [htouched, filter_pairs hk, List.foldl_append, List.foldl_map, List.foldl_map]
  have hearlier : (List.range k).foldl (fun sum j => m.share k j k (force? j k) sum) sum =
      (List.range k).foldl (fun sum j => m.minus sum (force? j k)) sum :=
    List.foldl_ext _ _ _ fun sum j hj => by
      rw [share_second (List.mem_range.mp hj).ne]
  rw [hearlier]
  exact List.foldl_ext _ _ _ fun sum j _ => by rw [share_first]

/-- **Scattered and gathered.** The sum that a node has after all pairs and springs have been gone
through is the one that is gathered for it alone. -/
theorem getElem?_scattered (m : Mechanics V) (positions : Array V) (springs : List (Nat × Nat))
    {k : Nat} (hk : k < positions.size) :
    (m.scattered positions springs)[k]? = some (m.gathered positions springs k) := by
  have hposition : positions[k]? = some (m.position positions k) := by
    simp [position, hk]
  have hzero : (Array.replicate positions.size m.zero)[k]? = some m.zero := by simp [hk]
  unfold scattered gathered
  generalize m.position positions = p at hposition ⊢
  have hpairs : ∀ sums : Array V, ((pairs positions.size).foldl
      (fun sums (i, j) => m.exchange sums i j (m.repulsion? (p i) (p j))) sums)[k]? =
      sums[k]?.map ((pairs positions.size).foldl
        fun sum q => m.share k q.1 q.2 (m.repulsion? (p q.1) (p q.2)) sum) :=
    getElem?_foldl fun q hq sums => getElem?_exchange sums (pairs_ne hq) _ k
  have hsprings : ∀ sums : Array V, (springs.foldl (fun sums (i, j) =>
      if i = j then sums else m.exchange sums i j (m.spring? (p i) (p j))) sums)[k]? =
      sums[k]?.map (springs.foldl fun sum q =>
        if q.1 = q.2 then sum else m.share k q.1 q.2 (m.spring? (p q.1) (p q.2)) sum) := by
    refine getElem?_foldl fun q _ sums => ?_
    by_cases hq : q.1 = q.2
    · simp [hq]
    · simp only [hq, if_false]
      exact getElem?_exchange sums hq _ k
  simp only [hsprings, Array.getElem?_zipWith, hpairs, hzero, hposition, Option.map_some,
    foldl_pairs hk fun i j => m.repulsion? (p i) (p j)]
  rfl

end Mechanics

/-! ## A tick -/

/-- What a layout computes with: vectors of singles, which are rounded at every step. -/
def mechanics (s : LayoutSettings) : Mechanics Vec3 where
  zero := .zero
  add := (· + ·)
  sub := (· - ·)
  repulsion? := repulsion? s
  centering? := centering? s
  spring? := spring? s

theorem positionAt_eq (s : LayoutSettings) (bodies : Array Body) :
    positionAt bodies = (mechanics s).position (bodies.map Body.position) := by
  funext i
  simp [positionAt, Mechanics.position, mechanics]

theorem forces_eq_scattered (s : LayoutSettings) (l : Layout) :
    l.forces s = (mechanics s).scattered (l.bodies.map Body.position) l.springs := by
  have hrepulsion : ∀ sums : Forces, addRepulsion s l.bodies sums =
      (pairs l.bodies.size).foldl (fun sums q => (mechanics s).exchange sums q.1 q.2
        (repulsion? s (positionAt l.bodies q.1) (positionAt l.bodies q.2))) sums := fun sums => by
    refine List.foldl_ext _ _ _ fun sums q _ => ?_
    obtain ⟨i, j⟩ := q
    dsimp only
    cases repulsion? s (positionAt l.bodies i) (positionAt l.bodies j) <;> rfl
  have hcentering : ∀ sums : Forces, addCentering s l.bodies sums = Array.zipWith (fun sum p =>
      (mechanics s).plus sum (centering? s p)) sums (l.bodies.map Body.position) := fun sums => by
    rw [Array.zipWith_map_right, addCentering]
    congr 1
    funext sum b
    cases centering? s b.position <;> rfl
  have hsprings : ∀ sums : Forces, addSprings s l.bodies l.springs sums =
      l.springs.foldl (fun sums q => if q.1 = q.2 then sums else
        (mechanics s).exchange sums q.1 q.2
          (spring? s (positionAt l.bodies q.1) (positionAt l.bodies q.2))) sums := fun sums => by
    refine List.foldl_ext _ _ _ fun sums q _ => ?_
    obtain ⟨i, j⟩ := q
    refine congrArg (ite (i = j) sums) ?_
    cases spring? s (positionAt l.bodies i) (positionAt l.bodies j) <;> rfl
  rw [forces, hrepulsion, hcentering, hsprings, positionAt_eq s, Mechanics.scattered,
    Array.size_map]
  rfl

/-- Every body moves by itself, under the force that is gathered for it. -/
theorem step_eq_mapIdx (s : LayoutSettings) (l : Layout) {dt : Float32} (hfin : dt.isFinite)
    (hpos : 0 < dt) :
    step s l dt = { l with
      bodies := l.bodies.mapIdx fun k => moveBody s (Scalar.smaller dt s.maxDt)
        ((mechanics s).gathered (l.bodies.map Body.position) l.springs k) } := by
  have hmoves : ¬ (¬ dt.isFinite ∨ dt ≤ 0) := by
    rw [Single.nonpos_iff_not_pos]
    simp [hfin, hpos]
  rw [step, if_neg hmoves]
  refine congrArg (Layout.mk · l.springs) (Array.ext_getElem? fun k => ?_)
  rw [Array.getElem?_zipWith, Array.getElem?_mapIdx, forces_eq_scattered]
  by_cases hk : k < l.bodies.size
  · rw [Mechanics.getElem?_scattered _ _ _ (by simpa using hk), Array.getElem?_eq_getElem hk]
    rfl
  · rw [Array.getElem?_eq_none (Nat.le_of_not_lt hk)]
    simp

/-- **All nodes move at once.** Take a layout and the columns that show it, and a frame of finite,
positive length. The tick does not fault and changes no id, no place of an id and no spring. The
velocity and the position of the node at a place after it are those that its own velocity and
position before it come to under one force; and that force is gathered from the positions before the
tick alone, first the pairs with earlier nodes, then those with later ones, then the centering, then
the springs in order. Only the order matters: sums that are scattered and sums that are gathered
agree whatever is summed up and however. -/
theorem step_simultaneous {t : Table} {l : Layout} (h : t.Shows l) (hl : l.SpringsInRange)
    (s : LayoutSettings) {dt : Float32} (hfin : dt.isFinite) (hpos : 0 < dt) :
    let force := (mechanics s).gathered t.positions t.springs
    let short := Scalar.smaller dt s.maxDt
    step s l dt = { l with bodies := l.bodies.mapIdx fun k => moveBody s short (force k) } ∧
    (∃ later, t.step s dt = .ok later ∧ later.Shows (step s l dt) ∧
      later.ids = t.ids ∧ later.slots = t.slots ∧ later.springs = t.springs ∧
      ∀ k p v, t.positions[k]? = some p → t.velocities[k]? = some v →
        let v := Table.velocityAfter short (Scalar.clamp 0 1 s.damping) (force k) v
        later.velocities[k]? = some v ∧
          later.positions[k]? = some (Table.positionAfter s short v p)) ∧
    ∀ {V : Type} (m : Mechanics V) (positions : Array V) (springs : List (Nat × Nat)) (k : Nat),
      k < positions.size →
        (m.scattered positions springs)[k]? = some (m.gathered positions springs k) := by
  intro force short
  have hforce : force = (mechanics s).gathered (l.bodies.map Body.position) l.springs := by
    simp only [force, h.positions, h.springs]
  have hstep := step_eq_mapIdx s l hfin hpos
  rw [← hforce] at hstep
  obtain ⟨later, hok, hlater⟩ := Table.step_eq h hl s dt
  have hids := step_map_id s l dt
  refine ⟨hstep, ⟨later, hok, hlater, by rw [hlater.ids, h.ids, hids], funext fun id => ?_,
    by rw [hlater.springs, h.springs, step_springs], fun k p v hp hv => ?_⟩,
    fun m positions springs k => m.getElem?_scattered positions springs⟩
  · rw [hlater.slots, h.slots, findIdx?_id, hids, ← findIdx?_id]
  · rw [h.positions, Array.getElem?_map, Option.map_eq_some_iff] at hp
    obtain ⟨b, hb, rfl⟩ := hp
    rw [h.velocities, Array.getElem?_map, hb, Option.map_some, Option.some.injEq] at hv
    subst hv
    rw [hlater.velocities, hlater.positions, hstep]
    simp only [Array.getElem?_map, Array.getElem?_mapIdx, hb, Option.map_some, Table.moveBody_eq]
    exact ⟨rfl, rfl⟩

/-- Three nodes, two of them in one place; a link from each end to the node in the middle, and one
from that node to itself. -/
def chain : Layout where
  bodies := #[⟨⟨"a"⟩, ⟨1, 0, 0⟩, .zero⟩, ⟨⟨"b"⟩, ⟨0, 1, 0⟩, ⟨0, 0, 1⟩⟩, ⟨⟨"c"⟩, ⟨0, 1, 0⟩, .zero⟩]
  springs := [(0, 1), (1, 1), (2, 1)]

theorem chain_simultaneous :
    let force := (mechanics {}).gathered chain.columns.positions chain.columns.springs
    let short := Scalar.smaller 0.5 (LayoutSettings.maxDt {})
    chain.columns.Shows chain ∧ chain.SpringsInRange ∧ (0.5 : Float32).isFinite ∧
      (0 : Float32) < 0.5 ∧
      step {} chain 0.5 =
        { chain with bodies := chain.bodies.mapIdx fun k => moveBody {} short (force k) } ∧
      ∃ later, chain.columns.step {} 0.5 = .ok later ∧ later.slots ⟨"c"⟩ = some 2 := by
  intro force short
  have hshows := columns_shows chain
  have hsprings : chain.SpringsInRange := by
    unfold SpringsInRange
    decide
  have hfin : (0.5 : Float32).isFinite := by decide
  have hpos : (0 : Float32) < 0.5 := by decide
  obtain ⟨hstep, ⟨later, hok, -, -, hslots, -⟩, -⟩ :=
    step_simultaneous hshows hsprings {} hfin hpos
  exact ⟨hshows, hsprings, hfin, hpos, hstep, later, hok, by rw [hslots]; decide +kernel⟩

end TracePlayback.Layout
