import TreeGrowth.Text.UpperCase

/-!
# Log levels

A level is a whole number; some levels have names, and some names stand for the same level.
-/

namespace TreeGrowth.LogLevel

/-- The names of levels; the first name of a level is the one that is shown. -/
def names : List (String × Int) :=
  [("NOTSET", 0), ("DEBUG", 10), ("INFO", 20), ("WARNING", 30), ("ERROR", 40), ("CRITICAL", 50),
    ("WARN", 30), ("FATAL", 50)]

/-- The name of a level, or its number where it has none. -/
def name (level : Int) : String :=
  match names.find? fun (_, n) => n == level with
  | some (name, _) => name
  | none => "Level " ++ toString level

inductive NameError
  /-- Nothing has this name. -/
  | unknown (name : String)
  /-- The name is that of the standard line format. -/
  | lineFormat
  /-- The name is that of the table of line styles. -/
  | lineStyles
  deriving Repr, DecidableEq

def NameError.message : NameError → String
  | .unknown name => "module 'logging' has no attribute '" ++ name ++ "'"
  | .lineFormat => "Unknown level: '%(levelname)s:%(name)s:%(message)s'"
  | .lineStyles =>
      "Level not an integer or a valid string: " ++
        "\x7b'%': (<class 'logging.PercentStyle'>, '%(levelname)s:%(name)s:%(message)s'), " ++
        "'\x7b': (<class 'logging.StrFormatStyle'>, " ++
        "'\x7blevelname\x7d:\x7bname\x7d:\x7bmessage\x7d'), " ++
        "'$': (<class 'logging.StringTemplateStyle'>, " ++
        "'$\x7blevelname\x7d:$\x7bname\x7d:$\x7bmessage\x7d')\x7d"

/-- The level of a name, which may be written in small letters.  Names in capitals that stand for
something else than a level are known, but refused. -/
def ofName (text : String) : Except NameError Int :=
  let name := String.ofList (Text.toUpper text.toList)
  match names.lookup name with
  | some level => .ok level
  | none =>
      .error
        (if name = "BASIC_FORMAT" then .lineFormat
        else if name = "_STYLES" then .lineStyles
        else .unknown name)

end TreeGrowth.LogLevel
