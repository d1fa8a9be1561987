import TreeGrowth.Random.Bounded
import TreeGrowth.Random.SeedPool
import TreeGrowth.Random.Source

/-!
# A permuted congruential generator

The state of 128 bits moves by a linear congruence, and each word of 64 bits is the two halves of
the state folded together and rotated by its six uppermost bits.  A word of 32 bits is half a word
of 64; the other half waits for the next such draw.
-/

namespace TreeGrowth

/-- The generator: where it stands, how it moves, and half a word left over. -/
structure Pcg64 where
  state : BitVec 128
  increment : BitVec 128
  spare : Option (BitVec 32)
  deriving Repr, DecidableEq

namespace Pcg64

def multiplier : BitVec 128 := 0x2360ed051fc65da44385df649fccf645#128

def advance (g : Pcg64) : Pcg64 := { g with state := g.state * multiplier + g.increment }

def word64 (g : Pcg64) : BitVec 64 × Pcg64 :=
  let g := g.advance
  let folded := g.state.extractLsb' 64 64 ^^^ g.state.extractLsb' 0 64
  (folded.rotateRight (g.state >>> 122).toNat, g)

/-- The next word of 32 bits: the spare half, or the lower half of a new word. -/
def word32 (g : Pcg64) : BitVec 32 × Pcg64 :=
  match g.spare with
  | some half => (half, { g with spare := none })
  | none =>
      let (word, g) := g.word64
      (word.extractLsb' 0 32, { g with spare := some (word.extractLsb' 32 32) })

/-- The generator of a seed.  The eight words of the seed pool pair up, lower word first, into the
four halves of the first state and of the increment, which has to be odd. -/
def ofEntropy (seed : Nat) : Pcg64 :=
  let number (words : List UInt32) : Nat := words.foldr (fun w n => n * Nat.pow 2 32 + w.toNat) 0
  let words := (SeedPool.ofSeed seed).eightWords
  let half (i : Nat) : Nat := number ((words.drop (2 * i)).take 2)
  let start := BitVec.ofNat 128 (half 0 * Nat.pow 2 64 + half 1)
  let increment := BitVec.ofNat 128 ((half 2 * Nat.pow 2 64 + half 3) * 2 + 1)
  let g : Pcg64 := { state := 0, increment, spare := none }
  let g := g.advance
  { g with state := g.state + start }.advance

/-- A number from zero up to one: the upper 53 bits of a word, which a machine number holds
exactly. -/
def unit (g : Pcg64) : Float × Pcg64 :=
  let (word, g) := g.word64
  (Float.ofNat (word >>> 11).toNat / 9007199254740992.0, g)

/-- More redraws than the generator has states, so that running out of them means that no word of
its whole cycle is accepted. -/
def redrawLimit : Nat := Nat.pow 2 162

/-- An index below `count`.  A single choice takes no draw, and words are as narrow as the count
allows. -/
def index (count : Nat) (g : Pcg64) : Nat × Pcg64 :=
  if count ≤ 1 then (0, g)
  else if count ≤ Nat.pow 2 32 then
    drawBelow 32 count (fun g => let (w, g) := g.word32; (w.toNat, g)) redrawLimit g
  else
    drawBelow 64 count (fun g => let (w, g) := g.word64; (w.toNat, g)) redrawLimit g

instance : SeededSource Pcg64 Float where
  unit := unit
  index := index
  ofEntropy := ofEntropy

/-- A range of whole numbers that cannot be drawn from. -/
inductive RangeError
  | lowOutOfBounds
  | highOutOfBounds
  | empty
  deriving Repr, DecidableEq

def RangeError.message : RangeError → String
  | .lowOutOfBounds => "low is out of bounds for int64"
  | .highOutOfBounds => "high is out of bounds for int64"
  | .empty => "low >= high"

/-- A whole number from `low` to `high`, both included; they have to fit into 64 bits. -/
def integerBetween (low high : Int) (g : Pcg64) : Except RangeError (Int × Pcg64) :=
  if low < -Nat.pow 2 63 then .error .lowOutOfBounds
  else if Nat.pow 2 63 < high + 1 then .error .highOutOfBounds
  else if high < low then .error .empty
  else
    let (i, g) := g.index (high - low + 1).toNat
    .ok (low + i, g)

end Pcg64

end TreeGrowth
