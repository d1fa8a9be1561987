/-!
# Seed pools

A seed of any size is cut into words of 32 bits, least significant first.  The words are stirred
into a pool of four, so that every bit of the seed reaches every word of the pool, and the pool is
then read out as eight words.
-/

namespace TreeGrowth

/-- The words of 32 bits of a number, least significant first; zero has none. -/
def seedWords (n : Nat) : List UInt32 :=
  if n = 0 then [] else UInt32.ofNat n :: seedWords (n / Nat.pow 2 32)
termination_by n
decreasing_by exact Nat.div_lt_self (by omega) (by decide)

/-- Four words and the running multiplier with which the next word is scrambled. -/
structure SeedPool where
  words : Vector UInt32 4
  multiplier : UInt32

namespace SeedPool

/-- Folds the upper half of a word into its lower half. -/
def fold (v : UInt32) : UInt32 := v ^^^ (v >>> 16)

/-- Scrambles a word with the running multiplier and moves the multiplier on. -/
def scramble (multiplier v : UInt32) : UInt32 × UInt32 :=
  let next := multiplier * 0x931e8875
  (fold ((v ^^^ multiplier) * next), next)

def blend (x y : UInt32) : UInt32 := fold (0xca01f9dd * x - 0x4973f715 * y)

/-- Scrambles `v` and joins it to the word at `target`. -/
def stir (pool : SeedPool) (target : Fin 4) (v : UInt32) : SeedPool :=
  let (scrambled, multiplier) := scramble pool.multiplier v
  { words := pool.words.set target (blend pool.words[target] scrambled), multiplier }

/-- Puts the scrambled words of the seed, or zeros where it has fewer, at the four places. -/
def fill (seed : List UInt32) : SeedPool :=
  (List.finRange 4).foldl
    (fun (pool : SeedPool) (place : Fin 4) =>
      let (scrambled, multiplier) := scramble pool.multiplier (seed.getD place 0)
      { words := pool.words.set place scrambled, multiplier })
    { words := Vector.replicate 4 0, multiplier := 0x43b0d7e5 }

/-- Stirs each word of the pool into the three others. -/
def mixAmong (pool : SeedPool) : SeedPool :=
  (List.finRange 4).foldl
    (fun pool source =>
      (List.finRange 4).foldl
        (fun pool target =>
          if source = target then pool else pool.stir target pool.words[source])
        pool)
    pool

/-- Stirs a word of the seed into all four words of the pool. -/
def mixIn (pool : SeedPool) (v : UInt32) : SeedPool :=
  (List.finRange 4).foldl (fun pool target => pool.stir target v) pool

/-- The pool of a seed: four words fill it, the others are mixed in. -/
def ofSeed (seed : Nat) : SeedPool :=
  let words := seedWords seed
  (words.drop 4).foldl mixIn (fill words).mixAmong

/-- The words read out of a pool, each scrambled with a multiplier that moves on. -/
def readOut (pool : SeedPool) : Nat → UInt32 → Nat → List UInt32
  | 0, _, _ => []
  | count + 1, multiplier, place =>
      let next := multiplier * 0x58f38ded
      let v := pool.words.get ⟨place % 4, Nat.mod_lt _ (by decide)⟩ ^^^ multiplier
      fold (v * next) :: pool.readOut count next (place + 1)

def eightWords (pool : SeedPool) : List UInt32 := pool.readOut 8 0x8b51f9dd 0

end SeedPool

end TreeGrowth
