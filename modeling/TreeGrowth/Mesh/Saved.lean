import TreeGrowth.Archive.NumericArray
import TreeGrowth.Mesh.Basic

/-!
# Saved meshes

A mesh is saved as an archive of numeric arrays, one for every quantity of its vertices, one for its
index buffer and two for the place where its leaves begin.
-/

namespace TreeGrowth.Mesh

open Archive

/-- A table of numbers with a fixed number of columns. -/
def table {α : Type} (name : String) (columns : Nat) (cells : α → List Float) (rows : Array α) :
    NumericArray where
  name := name
  shape := [rows.size, columns]
  elements := .reals (rows.foldl (fun out row => (cells row).foldl Array.push out) #[])

def vectorTable (name : String) (rows : Array (Vec3 Float)) : NumericArray :=
  table name 3 (fun v => [v.x, v.y, v.z]) rows

/-- The arrays that a mesh is saved as, in the order of their names. -/
def arrays (m : Mesh Float) : List NumericArray :=
  [⟨"branch_triangle_count", [], .whole m.branchTriangles⟩,
    ⟨"branch_vertex_count", [], .whole m.branchVertices⟩,
    table "colors" 4 (fun c => [c.red, c.green, c.blue, c.alpha]) m.colors,
    vectorTable "normals" m.normals,
    vectorTable "tangents" m.tangents,
    ⟨"triangles", [m.indices.size], .indices m.indices⟩,
    table "uvs" 2 (fun uv => [uv.1, uv.2]) m.uvs,
    vectorTable "vertices" m.vertices]

def archive (m : Mesh Float) : ByteArray := stored (m.arrays.map NumericArray.file)

end TreeGrowth.Mesh
