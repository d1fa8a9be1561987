import TreeGrowth.Archive.Stored

/-!
# Files of numeric arrays

A numeric array is saved as a header, which names its element type and its shape, and its elements
row by row.
-/

namespace TreeGrowth.Archive

/-- The elements of an array, row by row. -/
inductive Elements
  | reals (xs : Array Float)
  | indices (ns : Array Int32)
  | whole (n : Int)

namespace Elements

/-- The name of the element type: byte order, kind and width. -/
def typeName : Elements → String
  | reals _ => "<f8"
  | indices _ => "<i4"
  | whole _ => "<i8"

def bytes : Elements → ByteArray
  | reals xs => xs.foldl (fun out x => out ++ (littleEndian 8 x.toBits.toNat).toByteArray) .empty
  | indices ns =>
      ns.foldl (fun out n => out ++ (littleEndian 4 n.toUInt32.toNat).toByteArray) .empty
  | whole n => (littleEndian 8 (n % Nat.pow 2 64).toNat).toByteArray

end Elements

structure NumericArray where
  name : String
  shape : List Nat
  elements : Elements

namespace NumericArray

/-- The shape in brackets; a shape of one number ends with a comma. -/
def shapeText (shape : List Nat) : String :=
  match shape with
  | [n] => "(" ++ n.repr ++ ",)"
  | shape => "(" ++ ", ".intercalate (shape.map Nat.repr) ++ ")"

/-- The description of the array, in single quotes where it holds text. -/
def description (a : NumericArray) : String :=
  "\x7b'descr': '" ++ a.elements.typeName ++ "', 'fortran_order': False, 'shape': " ++
    shapeText a.shape ++ ", \x7d"

/-- The file begins with a mark and a version, and its header ends at a multiple of 64 bytes. -/
def file (a : NumericArray) : Entry where
  name := a.name ++ ".npy"
  content :=
    let text := a.description.toUTF8
    let fill := 63 - (text.size + 10) % 64
    let mark : List UInt8 := [0x93, 0x4E, 0x55, 0x4D, 0x50, 0x59, 1, 0]
    let ending : List UInt8 := List.replicate fill 0x20 ++ [0x0A]
    (mark ++ littleEndian 2 (text.size + fill + 1)).toByteArray ++ text ++ ending.toByteArray ++
      a.elements.bytes

end NumericArray

end TreeGrowth.Archive
