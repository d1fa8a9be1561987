import TreeGrowth.Log.Entry
import TreeGrowth.Mesh.Basic
import TreeGrowth.Turtle.Cursor

/-!
# Sweeping meshes

A ring of vertices is swept along every segment, and the two rings of a segment are joined by a
strip of triangles.  A segment begins with the very ring with which its parent ends, so that no gap
opens between them; if there is no such ring, it begins with a ring of its own.  Segments without
length are passed over.  The leaves follow, each a quadrilateral that is seen from both sides.
-/

namespace TreeGrowth

structure MeshDraft (K : Type) where
  vertices : Array (Vec3 K) := #[]
  normals : Array (Vec3 K) := #[]
  uvs : Array (K × K) := #[]
  colors : Array (Rgba K) := #[]
  indices : Array Int32 := #[]

structure MeshVertex (K : Type) where
  position : Vec3 K
  normal : Vec3 K
  uv : K × K
  color : Rgba K

namespace MeshDraft

variable {K : Type}

def addVertices (draft : MeshDraft K) (block : List (MeshVertex K)) : MeshDraft K :=
  { draft with
    vertices := draft.vertices.appendList (block.map fun v => v.position)
    normals := draft.normals.appendList (block.map fun v => v.normal)
    uvs := draft.uvs.appendList (block.map fun v => v.uv)
    colors := draft.colors.appendList (block.map fun v => v.color) }

/-- Adds triangles at the end; an index is a word of 32 bits. -/
def addIndices (draft : MeshDraft K) (block : List Nat) : MeshDraft K :=
  { draft with indices := draft.indices.appendList (block.map Int32.ofNat) }

end MeshDraft

/-- The triangles between two rings of `n` vertices: two for every step around. -/
def stripIndices (start finish n : Nat) : List Nat :=
  (List.range n).flatMap fun i =>
    let next := (i + 1) % n
    [start + i, finish + i, start + next, start + next, finish + i, finish + next]

/-- The triangles of a leaf whose first corner is `first`: two in front and two behind. -/
def leafIndices (first : Nat) : List Nat :=
  [0, 1, 2, 0, 2, 3, 2, 1, 0, 3, 2, 0].map (first + ·)

section Vertices

variable {K : Type} [Trigonometric K]

/-- A ring of `n` vertices around a centre, across a direction. -/
def ringVertices (config : GeometryConfig K) (center direction : Vec3 K) (radius : K) (n : Nat)
    (v : K) : List (MeshVertex K) :=
  let (right, up) := direction.perpendicularPair
  let turn : K := 2.0 * Trigonometric.pi / n
  (List.range n).map fun (i : Nat) =>
    let angle : K := i * turn
    let offset :=
      (right.scale (Trigonometric.cos angle) + up.scale (Trigonometric.sin angle)).scale radius
    let length := offset.norm
    { position := center + offset
      normal := if 0.0 < length then offset.shrink length else Vec3.zero
      uv := (i / n, v)
      color := config.barkColor }

def isSizeless (size : K × K) : Bool :=
  decide (Scalar.magnitude size.1 ≤ Vec3.smallLength) &&
    decide (Scalar.magnitude size.2 ≤ Vec3.smallLength)

/-- The two directions in which a leaf extends, before it is turned in its plane. -/
def Leaf.plane (leaf : Leaf K) : Vec3 K × Vec3 K :=
  let up := leaf.up - leaf.normal.scale (leaf.up.dot leaf.normal)
  if up.isNearlyZero then leaf.normal.perpendicularPair
  else
    let up := up.normalize
    ((leaf.normal.cross up).normalize, up)

/-- The four corners of a leaf: bottom left, bottom right, top right, top left. -/
def Leaf.corners (config : GeometryConfig K) (leaf : Leaf K) : List (MeshVertex K) :=
  let (right, up) := leaf.plane
  let (right, up) :=
    if 1e-8 < Scalar.magnitude leaf.rotation then
      let theta := Vec3.radians leaf.rotation
      let c := Trigonometric.cos theta
      let s := Trigonometric.sin theta
      (right.scale c + up.scale s, (-right).scale s + up.scale c)
    else (right, up)
  let size := if isSizeless leaf.size then config.leafSize else leaf.size
  let halfRight := right.scale (size.1 * 0.5)
  let halfUp := up.scale (size.2 * 0.5)
  let corner (position : Vec3 K) (uv : K × K) : MeshVertex K :=
    { position, normal := leaf.normal, uv, color := config.leafColor }
  [corner (leaf.position - halfRight - halfUp) (0.0, 1.0),
    corner (leaf.position + halfRight - halfUp) (1.0, 1.0),
    corner (leaf.position + halfRight + halfUp) (1.0, 0.0),
    corner (leaf.position - halfRight + halfUp) (0.0, 0.0)]

end Vertices

structure BranchSweep (K : Type) where
  draft : MeshDraft K := {}
  /-- The rings of the segments seen so far. -/
  rings : Array (Option RingPair) := #[]
  /-- The texture coordinate that the next segment begins with. -/
  v : K
  journal : Journal := #[]

namespace BranchSweep

variable {K : Type}

/-- The ring with which an earlier segment ends, if it was drawn. -/
def endRing? (sweep : BranchSweep K) (segment : Int) : Option Nat :=
  if segment < 0 then none
  else (sweep.rings.getD segment.toNat none).map fun pair => pair.finish

variable [Trigonometric K]

def addRing (config : GeometryConfig K) (n : Nat) (center direction : Vec3 K) (radius v : K)
    (sweep : BranchSweep K) : BranchSweep K × Nat :=
  let first := sweep.draft.vertices.size
  ({ sweep with
      draft := sweep.draft.addVertices (ringVertices config center direction radius n v) },
    first)

/-- The ring with which a segment begins: that of its parent, or else a new one.  A parent without
a ring is reported. -/
def startRing (config : GeometryConfig K) (n : Nat) (segment : Segment K) (sweep : BranchSweep K) :
    BranchSweep K × Nat :=
  let fresh (sweep : BranchSweep K) : BranchSweep K × Nat :=
    sweep.addRing config n segment.startPosition segment.direction segment.startRadius sweep.v
  match segment.parent with
  | none => fresh sweep
  | some parent =>
      match sweep.endRing? parent with
      | some ring => (sweep, ring)
      | none =>
          let warning := "Segment " ++ sweep.rings.size.repr ++ ": parent " ++ toString parent ++
            " has no end ring, generating a new start ring"
          fresh { sweep with journal := sweep.journal.push ⟨.warning, warning⟩ }

def addSegment (config : GeometryConfig K) (n : Nat) (sweep : BranchSweep K)
    (segment : Segment K) : BranchSweep K :=
  let length := segment.length
  if length < Vec3.smallLength then { sweep with rings := sweep.rings.push none }
  else
    let endV := sweep.v + length * config.barkTiling / 100.0
    let (sweep, start) := sweep.startRing config n segment
    let (sweep, finish) :=
      sweep.addRing config n segment.endPosition segment.direction segment.endRadius endV
    { sweep with
      draft := sweep.draft.addIndices (stripIndices start finish n)
      rings := sweep.rings.push (some { start, finish })
      v := endV }

end BranchSweep

namespace Mesh

variable {K : Type} [Trigonometric K]

def addLeaf (config : GeometryConfig K) (draft : MeshDraft K) (leaf : Leaf K) : MeshDraft K :=
  let first := draft.vertices.size
  (draft.addVertices (leaf.corners config)).addIndices (leafIndices first)

/-- The mesh of segments and leaves with `ringSize` vertices around a branch. -/
def ofParts (config : GeometryConfig K) (segments : Array (Segment K)) (leaves : Array (Leaf K))
    (ringSize : Nat) (includeLeaves : Bool) : Mesh K × Journal :=
  let sweep := segments.foldl (BranchSweep.addSegment config ringSize) { v := 0.0 }
  let branchVertices := sweep.draft.vertices.size
  let branchTriangles := sweep.draft.indices.size / 3
  let draft := if includeLeaves then leaves.foldl (addLeaf config) sweep.draft else sweep.draft
  let mesh : Mesh K :=
    { vertices := draft.vertices
      normals := draft.normals
      tangents := draft.normals.map Vec3.tangent
      uvs := draft.uvs
      colors := draft.colors
      indices := draft.indices
      branchVertices
      branchTriangles
      ringSize
      rings := sweep.rings }
  (mesh, sweep.journal.push ⟨.debug, "Generated mesh: " ++ branchVertices.repr ++
    " branch verts, " ++ mesh.leafVertices.repr ++ " leaf verts, " ++ mesh.triangleCount.repr ++
    " total triangles"⟩)

/-- The mesh for one level of detail, with a report on it; `number` counts the levels. -/
def ofLevel (config : GeometryConfig K) (segments : Array (Segment K)) (leaves : Array (Leaf K))
    (number : Nat) (level : DetailLevel) : Mesh K × Journal :=
  let (mesh, journal) := ofParts config segments leaves level.ringSize level.includeLeaves
  (mesh,
    #[⟨.info, "Generating LOD " ++ number.repr ++ ": " ++ level.ringSize.repr ++
      " radial segments, leaves=" ++ (if level.includeLeaves then "True" else "False")⟩] ++
    journal ++
    #[⟨.info, "LOD " ++ number.repr ++ ": " ++ mesh.vertices.size.repr ++ " vertices, " ++
      mesh.triangleCount.repr ++ " triangles"⟩])

/-- One mesh for every level of detail; without any level, a single mesh of middle detail. -/
def ofLevels (config : GeometryConfig K) (segments : Array (Segment K)) (leaves : Array (Leaf K))
    (levels : List DetailLevel) : List (Mesh K) × Journal :=
  if levels.isEmpty then
    let (mesh, journal) := ofParts config segments leaves 8 true
    ([mesh], #[⟨.warning, "No LOD levels specified, using default"⟩] ++ journal)
  else
    let made := levels.zipIdx.map fun (level, number) => ofLevel config segments leaves number level
    (made.map Prod.fst, (made.map Prod.snd).foldl (· ++ ·) #[])

end Mesh

end TreeGrowth
