/-!
# Numbers in bytes

Archives write whole numbers with their lowest byte first, and protect every entry with a checksum
of thirty-two bits.
-/

namespace TreeGrowth.Archive

/-- The lowest bytes of a number, the lowest one first. -/
def littleEndian : Nat → Nat → List UInt8
  | 0, _ => []
  | count + 1, n => UInt8.ofNat n :: littleEndian count (n / 256)

/-- Divides by the checksum's polynomial, one bit at a time. -/
def divideBits : Nat → UInt32 → UInt32
  | 0, rest => rest
  | bits + 1, rest =>
      let half := rest >>> 1
      divideBits bits (if rest &&& 1 = 1 then half ^^^ 0xEDB88320 else half)

def remainders : Array UInt32 := (Array.range 256).map fun n => divideBits 8 (UInt32.ofNat n)

/-- The cyclic redundancy check of some bytes. -/
def checksum (bytes : ByteArray) : UInt32 :=
  let table := remainders
  let divide (rest : UInt32) (byte : UInt8) : UInt32 :=
    (rest >>> 8) ^^^ table.getD ((rest ^^^ byte.toUInt32) &&& 0xFF).toNat 0
  ~~~(bytes.foldl divide 0xFFFFFFFF)

end TreeGrowth.Archive
