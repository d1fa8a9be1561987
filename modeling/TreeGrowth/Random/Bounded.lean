/-!
# Uniform choices from uniform words

A uniform word of `bits` bits is spread over a range of `count` numbers by multiplying: the upper
part of `word * count` is the number chosen, and the lower part shows whether the word belongs to
the few that would favour some numbers over others.  Such a word is thrown away and another drawn.
-/

namespace TreeGrowth

variable {G : Type}

/-- How many words of `bits` bits are thrown away for each number of the range. -/
def rejectionThreshold (bits count : Nat) : Nat := (Nat.pow 2 bits - count) % count

/-- Whether a word may stand for a number below `count`. -/
def accepts (bits count word : Nat) : Bool :=
  decide (rejectionThreshold bits count ≤ word * count % Nat.pow 2 bits)

def spread (bits count word : Nat) : Nat := word * count / Nat.pow 2 bits

/-- Draws words until one is accepted, at most `redraws` times over; the last one is then taken as
it is. -/
def drawBelow (bits count : Nat) (next : G → Nat × G) : Nat → G → Nat × G
  | 0, source =>
      let (word, source) := next source
      (spread bits count word, source)
  | redraws + 1, source =>
      let (word, source) := next source
      if accepts bits count word then (spread bits count word, source)
      else drawBelow bits count next redraws source

end TreeGrowth
