import TreeGrowth.Archive.Bytes

/-!
# Archives of stored files

An archive holds its files one after the other as they are, each behind a header, and ends with a
directory that repeats the headers and says where each file begins.
-/

namespace TreeGrowth.Archive

structure Entry where
  name : String
  content : ByteArray

namespace Entry

/-- The part of the header that stands before each file as well as in the directory: version, flags,
method, time and date (the first day of 1980), checksum, sizes and lengths. -/
def description (e : Entry) : List UInt8 :=
  let size := littleEndian 4 e.content.size
  littleEndian 2 20 ++ littleEndian 2 0 ++ littleEndian 2 0 ++ littleEndian 2 0 ++
    littleEndian 2 0x21 ++ littleEndian 4 (checksum e.content).toNat ++ size ++ size ++
    littleEndian 2 e.name.utf8ByteSize ++ littleEndian 2 0

def header (e : Entry) : ByteArray :=
  (littleEndian 4 0x04034B50 ++ e.description).toByteArray ++ e.name.toUTF8

/-- The line of the directory on a file that begins at an offset. -/
def directoryLine (e : Entry) (offset : Nat) : ByteArray :=
  (littleEndian 4 0x02014B50 ++ littleEndian 2 20 ++ e.description ++ littleEndian 2 0 ++
    littleEndian 2 0 ++ littleEndian 2 0 ++ littleEndian 4 0 ++
    littleEndian 4 offset).toByteArray ++ e.name.toUTF8

end Entry

def stored (entries : List Entry) : ByteArray :=
  let (files, directory) := entries.foldl
    (fun (files, directory) e =>
      (files ++ e.header ++ e.content, directory ++ e.directoryLine files.size))
    (ByteArray.empty, ByteArray.empty)
  let count := littleEndian 2 entries.length
  files ++ directory ++
    (littleEndian 4 0x06054B50 ++ littleEndian 4 0 ++ count ++ count ++
      littleEndian 4 directory.size ++ littleEndian 4 files.size ++ littleEndian 2 0).toByteArray

end TreeGrowth.Archive
