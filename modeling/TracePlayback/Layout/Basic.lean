import TracePlayback.Graph.Basic
import TracePlayback.Random.Basic
import TracePlayback.Scalar
import TracePlayback.Settings.Basic
import TracePlayback.Vec3

/-!
# The layout

Where each node is and how it moves. The bodies follow the nodes of the graph that the layout was
last retargeted to; links are kept as pairs of places among the bodies. Retargeting moves nothing
that was there before.
-/
namespace TracePlayback

structure Body where
  id : NodeId
  position : Vec3
  velocity : Vec3
  deriving DecidableEq

/-- The bodies in node order, and the links between them by place. -/
structure Layout where
  bodies : Array Body
  springs : List (Nat × Nat)

namespace Layout

def empty : Layout := ⟨#[], []⟩

def size (l : Layout) : Nat := l.bodies.size

def body? (l : Layout) (id : NodeId) : Option Body := l.bodies.find? (·.id = id)

def position? (l : Layout) (id : NodeId) : Option Vec3 := (l.body? id).map Body.position

def velocity? (l : Layout) (id : NodeId) : Option Vec3 := (l.body? id).map Body.velocity

/-- Puts a known node somewhere and stops it; none if the id is unknown or the place not finite. -/
def setPosition? (l : Layout) (id : NodeId) (p : Vec3) : Option Layout :=
  if p.isFinite then
    (l.bodies.findIdx? (·.id = id)).map fun i =>
      { l with bodies := l.bodies.modify i fun b => { b with position := p, velocity := .zero } }
  else none

/-- The energy of motion of all bodies. -/
def kineticEnergy (l : Layout) : Float32 :=
  l.bodies.foldl (fun sum b => sum + 0.5 * b.velocity.lengthSquared) 0

/-! ## Retargeting -/

/-- The widest cube that new nodes are scattered in. -/
def maxSpread : Float32 := 1000000

/-- Half the edge of the cube for a spread, always positive and finite. -/
def halfSpread (spread : Float32) : Float32 :=
  let spread :=
    if spread.isFinite then Scalar.smaller spread.abs maxSpread
    else LayoutSettings.initialSpread {}
  Scalar.larger (spread * 0.5) Scalar.epsilon

variable {γ : Type} [Generator γ]

/-- A random point of the cube around the origin. -/
def scatter (half : Float32) (g : γ) : Vec3 × γ :=
  let (x, g) := Random.uniform (-half) half g
  let (y, g) := Random.uniform (-half) half g
  let (z, g) := Random.uniform (-half) half g
  (⟨x, y, z⟩, g)

/-- The bodies for a list of nodes: those that `old` has are kept, the others scattered. -/
def place (old : Layout) (half : Float32) : List Node → γ → List Body × γ
  | [], g => ([], g)
  | n :: rest, g =>
    match old.body? n.id with
    | some b =>
      let (bodies, g) := place old half rest g
      (b :: bodies, g)
    | none =>
      let (p, g) := scatter half g
      let (bodies, g) := place old half rest g
      (⟨n.id, p, .zero⟩ :: bodies, g)

/-- The links of a graph as pairs of places. -/
def springsOf (graph : Graph) : List (Nat × Nat) :=
  graph.links.filterMap fun l => do return (← graph.slot? l.source, ← graph.slot? l.target)

/-- Retargets the layout at a graph. -/
def sync (l : Layout) (graph : Graph) (spread : Float32) (g : γ) : Layout × γ :=
  let (bodies, g) := place l (halfSpread spread) graph.nodes g
  (⟨bodies.toArray, springsOf graph⟩, g)

/-- How many nodes of a graph the layout already has. -/
def known (l : Layout) (graph : Graph) : Nat := graph.nodes.countP fun n => (l.body? n.id).isSome

end Layout
end TracePlayback
