import TreeGrowth.Log.Level
import TreeGrowth.Log.Template
import TreeGrowth.Log.Timestamp

/-!
# Log lines

A record becomes a line for people, with the level in colour on a terminal, or a line of JSON.  Both
show the fields of the context: people see them before the message, machines after it.
-/

namespace TreeGrowth

structure LogRecord where
  /-- Seconds since the first of January 1970. -/
  created : Float
  level : Int
  name : String
  template : String
  arguments : List LogValue := []
  /-- The text of the error that the record is about, if it is about one. -/
  error? : Option String := none

namespace LogRecord

def message (r : LogRecord) : Except TemplateError (List Char) :=
  Template.fill r.template.toList r.arguments

/-- The line on the error that a record is about. -/
def errorText (text : String) : List Char :=
  "ValueError".toList ++ (if text.isEmpty then [] else ':' :: ' ' :: text.toList)

end LogRecord

structure LogFormatter where
  asJson : Bool := false
  inColor : Bool := false
  deriving Repr, DecidableEq

namespace LogFormatter

/-- The formatter that was asked for; colours are for terminals only. -/
def forConsole (asJson wantsColor onTerminal : Bool) : LogFormatter where
  asJson := asJson
  inColor := wantsColor && onTerminal

def colors : List (String × String) :=
  [("DEBUG", "\x1b[36m"), ("INFO", "\x1b[32m"), ("WARNING", "\x1b[33m"), ("ERROR", "\x1b[31m"),
    ("CRITICAL", "\x1b[35m")]

/-- The name of a level in a column of eight characters. -/
def levelColumn (f : LogFormatter) (name : String) : List Char :=
  let column := name.toList ++ List.replicate (8 - name.length) ' '
  if f.inColor then
    ((colors.lookup name).getD "").toList ++ column ++ "\x1b[0m".toList
  else column

def human (f : LogFormatter) (context : LogFields) (r : LogRecord) (message : List Char) :
    List Char :=
  (Timestamp.ofSeconds r.created).human ++ " | ".toList ++ f.levelColumn (LogLevel.name r.level) ++
    " | ".toList ++ (if context.isEmpty then [] else context.shown ++ " | ".toList) ++ message ++
    r.error?.elim [] fun text => '\n' :: LogRecord.errorText text

/-- The entries of a line for machines.  A field of the context takes the place of an entry of the
same name. -/
def entries (context : LogFields) (r : LogRecord) (message : List Char) : LogFields :=
  let text (cs : List Char) : LogValue := .text (String.ofList cs)
  let base : LogFields :=
    [("t", text (Timestamp.ofSeconds r.created).machine), ("lvl", .text (LogLevel.name r.level)),
      ("name", .text r.name), ("msg", text message)]
  let all := LogFields.setAll base context
  r.error?.elim all fun error => LogFields.set "exc" (text (LogRecord.errorText error)) all

def format (f : LogFormatter) (context : LogFields) (r : LogRecord) :
    Except TemplateError (List Char) :=
  r.message.map fun message =>
    if f.asJson then (LogValue.record (entries context r message)).json
    else f.human context r message

end LogFormatter

end TreeGrowth
