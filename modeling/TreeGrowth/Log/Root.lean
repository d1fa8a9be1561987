import TreeGrowth.Log.Formatter

/-!
# The root of all loggers

The root has a level below which nothing is written, handlers that write to the console and to
files, and the context whose fields stand on every line.  Setting up the root replaces the handlers
that an earlier set-up installed and leaves all others alone.  A file is known by its path, and
lines go to its end; whether it can be opened is for the file system to say.  Without any handler,
warnings and worse go to the console as bare messages.
-/

namespace TreeGrowth

/-- The texts of files, by their paths; two paths to one file count as two files. -/
abbrev LogFiles := List (String × Array Char)

namespace LogFiles

/-- Opens a file at its end: a file that is there keeps its text, a new one is empty. -/
def opened (files : LogFiles) (path : String) : LogFiles :=
  if (files.lookup path).isSome then files else files ++ [(path, #[])]

def modify (files : LogFiles) (path : String) (change : Array Char → Array Char) : LogFiles :=
  (files.opened path).map fun (other, text) => (other, if other = path then change text else text)

end LogFiles

inductive LogTarget
  | console
  | file (path : String)
  deriving Repr, DecidableEq

structure LogHandler where
  target : LogTarget
  formatter : LogFormatter
  /-- Whether a set-up installed it. -/
  installed : Bool
  deriving Repr, DecidableEq

/-- A file to which lines shall go. -/
structure LogFile where
  path : String
  /-- The words of the file system if it does not open the file, or make the directories for it. -/
  refusal? : Option String := none

structure LogSetup where
  level : String := "INFO"
  asJson : Bool := false
  wantsColor : Bool := true
  context : LogFields := []
  /-- The file to which lines go as well as to the console. -/
  file? : Option LogFile := none

namespace LogSetup

/-- The file that is opened; an empty path stands for none. -/
def opens? (request : LogSetup) : Option LogFile :=
  request.file?.filter fun file => !file.path.isEmpty

def refusal? (request : LogSetup) : Option String := request.opens?.bind LogFile.refusal?

end LogSetup

inductive SetupError
  | level (fault : LogLevel.NameError)
  /-- The file is not opened, for this reason. -/
  | file (reason : String)
  deriving Repr, DecidableEq

def SetupError.message : SetupError → String
  | .level fault => fault.message
  | .file reason => reason

structure LogRoot where
  /-- Whether the console is a terminal. -/
  onTerminal : Bool
  level : Int := 30
  handlers : List LogHandler := []
  context : LogFields := []
  /-- What was written to the console and not yet taken from it. -/
  console : Array Char := #[]
  files : LogFiles := []

namespace LogRoot

def push (fields : LogFields) (root : LogRoot) : LogRoot :=
  { root with context := LogFields.setAll root.context fields }

/-- Removes fields from the context, all of them where no names are given. -/
def pop (names? : Option (List String)) (root : LogRoot) : LogRoot :=
  { root with context := names?.elim [] root.context.remove }

def handlersFor (root : LogRoot) (request : LogSetup) : List LogHandler :=
  let console : LogHandler :=
    { target := .console
      formatter := .forConsole request.asJson request.wantsColor root.onTerminal
      installed := true }
  let file (file : LogFile) : LogHandler :=
    { target := .file file.path
      formatter := { asJson := request.asJson, inColor := false }
      installed := true }
  console :: request.opens?.toList.map file

/-- Sets the root up.  The old handlers are removed first; if the level has no meaning, nothing else
happens.  The level is set before the file is opened, and stays set if the file is refused. -/
def setup (request : LogSetup) (root : LogRoot) :
    LogRoot × Except SetupError (List LogHandler) :=
  let root := { root with handlers := root.handlers.filter fun h => !h.installed }
  match LogLevel.ofName request.level with
  | .error fault => (root, .error (.level fault))
  | .ok level =>
      let root := { root with level }
      match request.refusal? with
      | some reason => (root, .error (.file reason))
      | none =>
          let added := root.handlersFor request
          ({ root with
              handlers := root.handlers ++ added
              context := LogFields.setAll root.context request.context
              files := request.opens?.elim root.files fun file => root.files.opened file.path },
            .ok added)

def write (target : LogTarget) (line : List Char) (root : LogRoot) : LogRoot :=
  let addTo (text : Array Char) : Array Char := (text.appendList line).push '\n'
  match target with
  | .console => { root with console := addTo root.console }
  | .file path => { root with files := root.files.modify path addTo }

/-- Lets a handler write a record; a record that has no message is not written. -/
def handle (record : LogRecord) (root : LogRoot) (handler : LogHandler) : LogRoot :=
  match handler.formatter.format root.context record with
  | .ok line => root.write handler.target line
  | .error _ => root

/-- Logs a record.  Without handlers, a warning or worse is written as a bare message. -/
def log (record : LogRecord) (root : LogRoot) : LogRoot :=
  if record.level < root.level then root
  else if root.handlers.isEmpty then
    if 30 ≤ record.level then
      match record.message with
      | .ok line => root.write .console line
      | .error _ => root
    else root
  else root.handlers.foldl (handle record) root

def takeConsole (root : LogRoot) : List Char × LogRoot :=
  (root.console.toList, { root with console := #[] })

/-- The text of the newest file. -/
def lastFile? (root : LogRoot) : Option (List Char) :=
  root.files.getLast?.map fun (_, text) => text.toList

end LogRoot

end TreeGrowth
