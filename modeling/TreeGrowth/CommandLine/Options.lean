import TreeGrowth.Decimal.Reader
import TreeGrowth.Text.Quoted

/-!
# Command-line options

Every option has one or more names and, unless it asks for help, one value, which follows it or is
joined to it by an equals sign.  A long name may be shortened as long as it stays the only match.
Arguments are first sorted into options and plain arguments; then each option takes its value.  No
plain argument is expected, and those that are left over are refused in the end.
-/

namespace TreeGrowth

inductive OptionKind
  | help
  | whole
  | real
  | text
  deriving Repr, DecidableEq

def OptionKind.name : OptionKind → String
  | .help => "help"
  | .whole => "int"
  | .real => "float"
  | .text => "str"

structure OptionSpec where
  names : List String
  kind : OptionKind
  deriving Repr, DecidableEq

/-- All names of an option, as they stand in messages. -/
def OptionSpec.title (spec : OptionSpec) : String := "/".intercalate spec.names

inductive OptionValue
  | whole (n : Int)
  | real (x : Float)
  | text (s : String)

inductive UsageError
  /-- A shortened name that fits several options. -/
  | ambiguous (argument : String) (matching : List String)
  | missingValue (option : String)
  /-- A value for an option that takes none. -/
  | needlessValue (option value : String)
  | invalidValue (option : String) (kind : OptionKind) (value : String)
  | unrecognized (arguments : List String)
  deriving Repr, DecidableEq

def quotedString (s : String) : String := String.ofList (Text.quoted s.toList)

def UsageError.message : UsageError → String
  | .ambiguous argument matching =>
      "ambiguous option: " ++ argument ++ " could match " ++ ", ".intercalate matching
  | .missingValue option => "argument " ++ option ++ ": expected one argument"
  | .needlessValue option value =>
      "argument " ++ option ++ ": ignored explicit argument " ++ quotedString value
  | .invalidValue option kind value =>
      "argument " ++ option ++ ": invalid " ++ kind.name ++ " value: " ++ quotedString value
  | .unrecognized arguments => "unrecognized arguments: " ++ " ".intercalate arguments

inductive Joining
  | apart
  | byEquals (value : String)
  /-- Directly behind a name of one letter. -/
  | directly (value : String)
  deriving Repr, DecidableEq

inductive Argument
  /-- An option under one of its names. -/
  | option (spec : OptionSpec) (name : String) (joining : Joining)
  /-- Something that looks like an option. -/
  | unknown (text : String)
  | plain (text : String)
  deriving Repr, DecidableEq

namespace Argument

/-- Splits a text at its first equals sign. -/
def splitEquals? (text : String) : Option (String × String) :=
  let cs := text.toList
  if cs.contains '=' then
    some (String.ofList (cs.takeWhile (· ≠ '=')), String.ofList ((cs.dropWhile (· ≠ '=')).drop 1))
  else none

def namedSpecs (specs : List OptionSpec) : List (String × OptionSpec) :=
  specs.flatMap fun spec => spec.names.map fun name => (name, spec)

/-- The options that a shortened name may stand for.  A name of a single letter may have its value
joined to it directly. -/
def candidates (specs : List OptionSpec) (text : String) : List Argument :=
  let isLong := "--".isPrefixOf text
  let (start, joining) : String × Joining :=
    match splitEquals? text with
    | some (start, value) => if isLong then (start, .byEquals value) else (text, .apart)
    | none => (text, .apart)
  (namedSpecs specs).filterMap fun (name, spec) =>
    if !isLong && name.toList == text.toList.take 2 then
      some (.option spec name (.directly (String.ofList (text.toList.drop 2))))
    else if start.isPrefixOf name then some (.option spec name joining)
    else none

def isNegativeNumber (text : String) : Bool :=
  let isDigit (c : Char) : Bool := (Text.digitValue? c).isSome
  let cs := text.toList
  let cs := if cs.getLast? = some '\n' then cs.dropLast else cs
  match cs with
  | '-' :: rest =>
      let whole := rest.takeWhile isDigit
      match rest.dropWhile isDigit with
      | [] => !whole.isEmpty
      | '.' :: fraction => !fraction.isEmpty && fraction.all isDigit
      | _ => false
  | _ => false

def optionName : Argument → String
  | .option _ name _ => name
  | .unknown text => text
  | .plain text => text

def classify (specs : List OptionSpec) (text : String) : Except UsageError Argument :=
  let named? (name : String) (joining : Joining) : Option Argument :=
    ((namedSpecs specs).lookup name).map fun spec => .option spec name joining
  if !"-".isPrefixOf text then .ok (.plain text)
  else
    match named? text .apart with
    | some argument => .ok argument
    | none =>
        if text.length = 1 then .ok (.plain text)
        else
          match (splitEquals? text).bind fun (name, value) => named? name (.byEquals value) with
          | some argument => .ok argument
          | none =>
              match candidates specs text with
              | [argument] => .ok argument
              | first :: second :: rest =>
                  .error (.ambiguous text ((first :: second :: rest).map optionName))
              | [] =>
                  if isNegativeNumber text || text.contains ' ' then .ok (.plain text)
                  else .ok (.unknown text)

/-- Tells what all arguments are.  Two dashes alone turn everything behind them into plain
arguments, and are an argument of neither sort: no option takes them as its value. -/
def classifyAll (specs : List OptionSpec) : List String → Except UsageError (List Argument)
  | [] => .ok []
  | text :: rest =>
      if text = "--" then .ok (.unknown text :: rest.map .plain)
      else do
        let argument ← classify specs text
        let others ← classifyAll specs rest
        return argument :: others

end Argument

inductive Invocation
  | help
  /-- The values of options, later ones last. -/
  | run (values : List (String × OptionValue))

namespace Invocation

def readValue (spec : OptionSpec) (text : String) : Except UsageError OptionValue :=
  let value? :=
    match spec.kind with
    | .whole => (Decimal.readInteger? text.toList).map .whole
    | .real => (Decimal.readDecimal? text.toList).map .real
    | .text | .help => some (.text text)
  match value? with
  | some value => .ok value
  | none => .error (.invalidValue spec.title spec.kind text)

/-- Letters joined to the one-letter request for help: they ask for help once more, or are not
looked at any further, but no value may follow. -/
def helpLetters (spec : OptionSpec) (letter : Char) : List Char → Except UsageError Invocation
  | [] => .ok .help
  | c :: rest =>
      if c = '-' then .error (.needlessValue spec.title (String.ofList (c :: rest)))
      else if c ≠ letter then .ok .help
      else match rest with
        | '=' :: value => .error (.needlessValue spec.title (String.ofList value))
        | rest => helpLetters spec letter rest

def collect : List Argument → List (String × OptionValue) → List String →
    Except UsageError Invocation
  | [], values, [] => .ok (.run values)
  | [], _, extras => .error (.unrecognized extras)
  | .plain text :: rest, values, extras => collect rest values (extras ++ [text])
  | .unknown text :: rest, values, extras => collect rest values (extras ++ [text])
  | .option spec _ .apart :: rest, values, extras =>
      if spec.kind = .help then .ok .help
      else
        match rest with
        | .plain text :: rest => do
            let value ← readValue spec text
            collect rest (values ++ [(spec.title, value)]) extras
        | _ => .error (.missingValue spec.title)
  | .option spec _ (.byEquals text) :: rest, values, extras =>
      if spec.kind = .help then .error (.needlessValue spec.title text)
      else do
        let value ← readValue spec text
        collect rest (values ++ [(spec.title, value)]) extras
  | .option spec name (.directly text) :: rest, values, extras =>
      if spec.kind = .help then
        helpLetters spec (name.toList.getLastD '-') text.toList
      else do
        let value ← readValue spec text
        collect rest (values ++ [(spec.title, value)]) extras

def ofArguments (specs : List OptionSpec) (arguments : List String) :
    Except UsageError Invocation := do
  let sorted ← Argument.classifyAll specs arguments
  collect sorted [] []

end Invocation

end TreeGrowth
