import TreeGrowth.Grammar.Settings
import TreeGrowth.Space.Vec3

/-!
# Meshes

A mesh is a list of vertices, each with a normal, a tangent, texture coordinates and a colour, and
an index buffer with three indices for every triangle.  The vertices and triangles of the branches
come before those of the leaves, and the mesh can be split between the two.
-/

namespace TreeGrowth

structure Rgba (K : Type) where
  red : K
  green : K
  blue : K
  alpha : K
  deriving Repr

structure GeometryConfig (K : Type) where
  /-- How fast the texture moves along a branch, in hundredths of its length. -/
  barkTiling : K
  /-- Width and height of a leaf that has no size of its own. -/
  leafSize : K × K
  barkColor : Rgba K
  leafColor : Rgba K

def GeometryConfig.standard {K : Type} [Scalar K] : GeometryConfig K where
  barkTiling := 1.0
  leafSize := (10.0, 15.0)
  barkColor := ⟨1.0, 1.0, 1.0, 1.0⟩
  leafColor := ⟨0.2, 0.6, 0.2, 1.0⟩

structure DetailLevel where
  /-- The number of vertices around a branch. -/
  ringSize : Nat := 8
  /-- The share of the screen from which the level is meant to be shown. -/
  screenSize : Float := 1.0
  includeLeaves : Bool := true
  ringSize_ge : 3 ≤ ringSize := by decide
  ringSize_le : ringSize ≤ 32 := by decide

/-- Brings the number of vertices around a branch into its range. -/
def DetailLevel.ringSizeOf (requested : Int) : Nat := clampNat 3 32 requested

/-- The level with the given number of vertices around a branch. -/
def DetailLevel.ofRequest (requested : Int) (screenSize : Float) (includeLeaves : Bool) :
    DetailLevel where
  ringSize := ringSizeOf requested
  screenSize := screenSize
  includeLeaves := includeLeaves
  ringSize_ge := le_clampNat (by decide) requested
  ringSize_le := clampNat_le 3 32 requested

/-- Vertices and triangles that stand for themselves. -/
structure MeshSection (K : Type) where
  vertices : Array (Vec3 K) := #[]
  normals : Array (Vec3 K) := #[]
  tangents : Array (Vec3 K) := #[]
  uvs : Array (K × K) := #[]
  colors : Array (Rgba K) := #[]
  /-- Three indices for every triangle. -/
  indices : Array Int32 := #[]

/-- The number of triangles that an index buffer holds. -/
def MeshSection.triangleCount {K : Type} (s : MeshSection K) : Nat := s.indices.size / 3

/-- The first vertices of the two rings of a segment. -/
structure RingPair where
  start : Nat
  finish : Nat
  deriving Repr, DecidableEq

/-- A mesh for one level of detail. -/
structure Mesh (K : Type) extends MeshSection K where
  branchVertices : Nat := 0
  branchTriangles : Nat := 0
  ringSize : Nat := 8
  /-- For every segment the rings that were drawn for it, if it was drawn. -/
  rings : Array (Option RingPair) := #[]

namespace Mesh

variable {K : Type}

def leafVertices (m : Mesh K) : Nat := m.vertices.size - m.branchVertices

def leafTriangles (m : Mesh K) : Nat := m.triangleCount - m.branchTriangles

def isEmpty (m : Mesh K) : Bool := m.vertices.isEmpty

def drawnRings (m : Mesh K) : List (Nat × RingPair) :=
  m.rings.toList.zipIdx.filterMap fun (pair?, segment) => pair?.map fun pair => (segment, pair)

/-- A bound of a range of `size` places: a negative one counts from the end, and no bound lies
outside. -/
def placeOf (size : Nat) (bound : Int) : Nat :=
  if bound < 0 then (bound + size).toNat else min bound.toNat size

/-- The vertices of the ring that begins at a vertex. -/
def ringPositions (m : Mesh K) (first : Int) : Array (Vec3 K) :=
  let size := m.vertices.size
  m.vertices.extract (placeOf size first) (placeOf size (first + m.ringSize))

def branchSection (m : Mesh K) : MeshSection K where
  vertices := m.vertices.extract 0 m.branchVertices
  normals := m.normals.extract 0 m.branchVertices
  tangents := m.tangents.extract 0 m.branchVertices
  uvs := m.uvs.extract 0 m.branchVertices
  colors := m.colors.extract 0 m.branchVertices
  indices := m.indices.extract 0 (3 * m.branchTriangles)

/-- The leaves of a mesh, with indices that count from their own first vertex. -/
def leafSection (m : Mesh K) : MeshSection K where
  vertices := m.vertices.extract m.branchVertices m.vertices.size
  normals := m.normals.extract m.branchVertices m.normals.size
  tangents := m.tangents.extract m.branchVertices m.tangents.size
  uvs := m.uvs.extract m.branchVertices m.uvs.size
  colors := m.colors.extract m.branchVertices m.colors.size
  indices := (m.indices.extract (3 * m.branchTriangles) m.indices.size).map
    (· - Int32.ofNat m.branchVertices)

end Mesh

end TreeGrowth
