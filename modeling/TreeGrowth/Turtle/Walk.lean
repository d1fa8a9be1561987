import TreeGrowth.Decimal.Fixed
import TreeGrowth.Grammar.Rule
import TreeGrowth.Log.Entry
import TreeGrowth.Random.Source
import TreeGrowth.Turtle.Cursor

/-!
# Drawing a word

A word is drawn symbol by symbol.  `F` draws a segment and `f` only moves; `+ - ^ & \ / |` turn;
`[` begins a branch and `]` goes back to where it began; `L` places a leaf; other symbols mean
nothing.

A branch may be skipped by chance.  Everything up to the bracket that closes it is then passed over,
with a count of its own for the brackets within.

Each segment is joined to the segment drawn just before it, also where that one lies in a branch
that has ended.
-/

namespace TreeGrowth

inductive TurtleCommand
  | draw
  | move
  | yawLeft
  | yawRight
  | pitchUp
  | pitchDown
  | rollLeft
  | rollRight
  | turnAround
  | push
  | pop
  | leaf
  deriving Repr, DecidableEq

def TurtleCommand.ofSymbol? : Char → Option TurtleCommand
  | 'F' => some draw
  | 'f' => some move
  | '+' => some yawLeft
  | '-' => some yawRight
  | '^' => some pitchUp
  | '&' => some pitchDown
  | '\\' => some rollLeft
  | '/' => some rollRight
  | '|' => some turnAround
  | '[' => some push
  | ']' => some pop
  | 'L' => some leaf
  | _ => none

inductive TurtleNotice (K : Type)
  | rolled (degrees : K)
  | started (length : Nat)
  /-- A branch was skipped because the roll lay above the chance. -/
  | skipped (roll chance : K)
  /-- A branch ended that had not begun. -/
  | unmatched (symbol : Nat)
  | completed (segments leaves depth : Nat)

/-- The report on a branch that ended at a symbol without having begun. -/
def unmatchedText (symbol : Nat) : String :=
  "Attempted to pop empty state stack at symbol " ++ symbol.repr

def TurtleNotice.entry : TurtleNotice Float → LogEntry
  | rolled degrees =>
      ⟨.debug, "Applied initial random roll: " ++ String.ofList (Decimal.fixed 1 degrees) ++
        " degrees"⟩
  | started length => ⟨.debug, "Interpreting L-System string of length " ++ length.repr⟩
  | skipped roll chance =>
      ⟨.debug, "Skipping branch (rolled " ++ String.ofList (Decimal.fixed 2 roll) ++
        ", probability " ++ String.ofList (Decimal.fixed 2 chance) ++ ")"⟩
  | unmatched symbol => ⟨.warning, unmatchedText symbol⟩
  | completed segments leaves depth =>
      ⟨.info, "Interpretation complete: " ++ segments.repr ++ " segments, " ++ leaves.repr ++
        " leaves, max depth " ++ depth.repr⟩

structure Walk (K G : Type) where
  cursor : Cursor K
  /-- Where the open branches began, innermost first. -/
  stack : List (Cursor K) := []
  /-- How many brackets are open within a skipped branch; zero outside one. -/
  skipDepth : Nat := 0
  segments : Array (Segment K) := #[]
  leaves : Array (Leaf K) := #[]
  maxDepth : Nat := 0
  /-- The number of symbols seen. -/
  symbols : Nat := 0
  /-- The symbols that ended a branch without one having begun. -/
  unmatched : Array Nat := #[]
  source : G
  notices : Array (TurtleNotice K) := #[]

inductive TurtleError
  | seed (fault : SeedError)
  | shape (fault : ShapeError)
  deriving Repr, DecidableEq

def TurtleError.message : TurtleError → String
  | .seed fault => fault.message
  | .shape fault => fault.message

/-- A symbol that could not be dealt with, and the walk before it. -/
structure StuckWalk (K G : Type) where
  fault : ShapeError
  walk : Walk K G

namespace Walk

variable {K G : Type} [Trigonometric K] [RandomSource G K]

omit [Trigonometric K] [RandomSource G K] in
def lastSegment? (w : Walk K G) : Option Int :=
  if w.segments.isEmpty then none else some (w.segments.size - 1 : Nat)

omit [Trigonometric K] [RandomSource G K] in
def report (w : Walk K G) (notice : TurtleNotice K) : Walk K G :=
  { w with notices := w.notices.push notice }

omit [Trigonometric K] [RandomSource G K] in
def turned (w : Walk K G) (basis : Basis K) : Walk K G :=
  { w with cursor := { w.cursor with basis } }

/-- A random angle of a range; zero, and no draw, for a range that is not ascending. -/
def jitter (range : K × K) (source : G) : K × G :=
  if range.2 ≤ range.1 then (0.0, source) else RandomSource.between range.1 range.2 source

def yaw (c : TurtleConfig K) (angle : K) (w : Walk K G) : Walk K G :=
  let (extra, source) := jitter c.turnVariation w.source
  { w with source }.turned (w.cursor.basis.yaw (angle + extra))

def roll (c : TurtleConfig K) (angle : K) (w : Walk K G) : Walk K G :=
  let (extra, source) := jitter c.turnVariation w.source
  { w with source }.turned (w.cursor.basis.roll (angle + extra))

/-- Pitches, by chance the other way. -/
def pitch (c : TurtleConfig K) (angle : K) (w : Walk K G) : Walk K G :=
  let (angle, source) :=
    if 0.0 < c.pitchFlipProbability then
      let (u, source) := RandomSource.unit w.source
      (if u < c.pitchFlipProbability then -angle else angle, source)
    else (angle, w.source)
  let (extra, source) := jitter c.pitchVariation source
  { w with source }.turned (w.cursor.basis.pitch (angle + extra))

/-- The length of the next step, which jitter never makes shorter than a tenth. -/
def stepLength (c : TurtleConfig K) (source : G) : K × G :=
  if 0.0 < c.stepVariation then
    let (variation, source) := RandomSource.between (-c.stepVariation) c.stepVariation source
    (Scalar.atLeast 0.1 (c.stepLength * (1.0 + variation)), source)
  else (c.stepLength, source)

def segment (c : TurtleConfig K) (step : K) (w : Walk K G) : Segment K where
  startPosition := w.cursor.position
  endPosition := w.cursor.position + w.cursor.basis.forward.scale step
  startRadius := w.cursor.width
  endRadius := Scalar.atLeast c.minWidth (w.cursor.width * 0.95)
  direction := w.cursor.basis.forward
  depth := w.cursor.depth
  parent := w.lastSegment?

/-- Moves a step ahead, leaves a segment behind if it is drawn and wide enough, and yields to the
pull. -/
def forward (c : TurtleConfig K) (isDrawn : Bool) (w : Walk K G) :
    Except (StuckWalk K G) (Walk K G) :=
  let (step, source) := stepLength c w.source
  match Cursor.bend c w.cursor.basis with
  | .error fault => .error { fault, walk := w }
  | .ok basis =>
      let piece := w.segment c step
      let isLeft := isDrawn && decide (c.minWidth ≤ w.cursor.width)
      .ok { w with
        cursor := { w.cursor with position := piece.endPosition, basis, width := piece.endRadius }
        segments := if isLeft then w.segments.push piece else w.segments
        source }

/-- Begins a branch, or by chance skips it. -/
def push (c : TurtleConfig K) (w : Walk K G) : Walk K G :=
  let (roll?, source) :=
    if c.branchProbability < 1.0 then
      let (u, source) := RandomSource.unit w.source
      (if c.branchProbability < u then some u else none, source)
    else (none, w.source)
  match roll? with
  | some roll =>
      { w with skipDepth := 1, source }.report (.skipped roll c.branchProbability)
  | none =>
      let depth := w.cursor.depth + 1
      let width := Scalar.atLeast c.minWidth (w.cursor.width * c.widthFalloff)
      { w with
        cursor := { w.cursor with depth, width }
        stack := w.cursor :: w.stack
        maxDepth := max w.maxDepth depth
        source }

omit [Trigonometric K] [RandomSource G K] in
def pop (w : Walk K G) : Walk K G :=
  match w.stack with
  | cursor :: stack => { w with cursor, stack }
  | [] => { w with unmatched := w.unmatched.push w.symbols }.report (.unmatched w.symbols)

/-- Places a leaf, turned in its plane by up to thirty degrees either way. -/
def placeLeaf (c : TurtleConfig K) (w : Walk K G) : Walk K G :=
  let (rotation, source) := RandomSource.between (-30.0) 30.0 w.source
  { w with
    leaves := w.leaves.push
      { position := w.cursor.position
        normal := w.cursor.basis.forward
        up := w.cursor.basis.up
        size := c.leafSize
        rotation
        depth := w.cursor.depth }
    source }

def obey (c : TurtleConfig K) (w : Walk K G) :
    TurtleCommand → Except (StuckWalk K G) (Walk K G)
  | .draw => w.forward c true
  | .move => w.forward c false
  | .yawLeft => .ok (w.yaw c c.yawAngle)
  | .yawRight => .ok (w.yaw c (-c.yawAngle))
  | .pitchUp => .ok (w.pitch c c.pitchAngle)
  | .pitchDown => .ok (w.pitch c (-c.pitchAngle))
  | .rollLeft => .ok (w.roll c c.rollAngle)
  | .rollRight => .ok (w.roll c (-c.rollAngle))
  | .turnAround => .ok (w.turned (w.cursor.basis.yaw 180.0))
  | .push => .ok (w.push c)
  | .pop => .ok w.pop
  | .leaf => .ok (w.placeLeaf c)

omit [Trigonometric K] [RandomSource G K] in
def skip (w : Walk K G) (symbol : Char) : Walk K G :=
  if symbol = '[' then { w with skipDepth := w.skipDepth + 1 }
  else if symbol = ']' then { w with skipDepth := w.skipDepth - 1 }
  else w

def step (c : TurtleConfig K) (w : Walk K G) (symbol : Char) :
    Except (StuckWalk K G) (Walk K G) :=
  let next :=
    if 0 < w.skipDepth then .ok (w.skip symbol)
    else match TurtleCommand.ofSymbol? symbol with
      | some command => w.obey c command
      | none => .ok w
  next.map fun w => { w with symbols := w.symbols + 1 }

/-- Deals with all symbols of a word, up to the first that cannot be dealt with. -/
def follow (c : TurtleConfig K) (word : Word) (w : Walk K G) :
    Except (StuckWalk K G) (Walk K G) :=
  word.foldlM (step c) w

/-- The walk before the first symbol: a cursor as the parameters ask for, rolled by chance. -/
def begin (c : TurtleConfig K) (source : G) : Except ShapeError (Walk K G) :=
  (Cursor.ofConfig c).map fun cursor =>
    let w : Walk K G := { cursor, source }
    if 0.0 < c.initialRoll then
      let (angle, source) := RandomSource.between 0.0 c.initialRoll source
      ({ w with source }.turned (cursor.basis.roll angle)).report (.rolled angle)
    else w

end Walk

structure Interpretation (K : Type) where
  segments : Array (Segment K)
  leaves : Array (Leaf K)
  maxDepth : Nat
  symbols : Nat
  /-- The symbols that ended a branch without one having begun. -/
  unmatched : Array Nat
  final : Cursor K

namespace Walk

variable {K G : Type} [Trigonometric K]

def interpretation (w : Walk K G) : Interpretation K where
  segments := w.segments
  leaves := w.leaves
  maxDepth := w.maxDepth
  symbols := w.symbols
  unmatched := w.unmatched
  final := w.cursor

/-- Draws a word with a given source, and says what is worth reporting. -/
def interpretFrom [RandomSource G K] (c : TurtleConfig K) (source : G) (word : Word) :
    Except ShapeError (Interpretation K) × Array (TurtleNotice K) :=
  let c := c.bounded
  match begin c source with
  | .error fault => (.error fault, #[])
  | .ok w =>
      match (w.report (.started word.length)).follow c word with
      | .error stuck => (.error stuck.fault, stuck.walk.notices)
      | .ok w =>
          (.ok w.interpretation,
            w.notices.push (.completed w.segments.size w.leaves.size w.maxDepth))

variable (G) in
/-- Draws a word with the source that the parameters ask for. -/
def interpret [SeededSource G K] (entropy : Nat) (c : TurtleConfig K) (word : Word) :
    Except TurtleError (Interpretation K) × Array (TurtleNotice K) :=
  match (SeededSource.ofSeed entropy c.seed : Except SeedError G) with
  | .error fault => (.error (.seed fault), #[])
  | .ok source =>
      let (outcome, notices) := interpretFrom c source word
      (outcome.mapError .shape, notices)

end Walk

end TreeGrowth
