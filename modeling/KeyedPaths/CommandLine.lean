import KeyedPaths.PathDocument
import KeyedPaths.PathText
import KeyedPaths.SchemaDocument
import KeyedPaths.Resolution

/-!
# The command line

The program reads a schema document and resolves the segments given on the
command line.  Its options choose a path of plain names that is annotated, a
JSON document in place of the path text, or the list of all rules in place of a
path.

How a file is read is left open: the program is written for any reader of
files.  Reading from a directory held in memory is one of them.
-/

namespace KeyedPaths

namespace CommandLine

structure Options where
  schemaPath : String
  /-- Annotate a path of plain names. -/
  wildcard : Bool
  json : Bool
  dumpRules : Bool
  segments : List String
deriving DecidableEq

inductive ArgumentError where
  /-- The first argument does not name a file. -/
  | usage
  | unknownOption (argument : String)
deriving DecidableEq

def ArgumentError.message : ArgumentError → String
  | .usage =>
      "Usage: path-translate <schema.json> [--wildcard] [--json] " ++
        "[--dump-rules] [--] [segments...]"
  | .unknownOption argument => s!"unknown option: {argument}"

/-- Whether an argument looks like an option: it starts with two hyphens. -/
def isOption (argument : String) : Bool :=
  ['-', '-'].isPrefixOf argument.toList

def Options.addSegment (options : Options) (segment : String) : Options :=
  { options with segments := options.segments ++ [segment] }

def Options.setFlag (options : Options) (flag : String) :
    Except ArgumentError Options :=
  if flag = "--wildcard" then .ok { options with wildcard := true }
  else if flag = "--json" then .ok { options with json := true }
  else if flag = "--dump-rules" then .ok { options with dumpRules := true }
  else .error (.unknownOption flag)

/-- Take the arguments after the first one into account.  Two hyphens alone end
the options: from there on all arguments are only segments. -/
def Options.setAll (options : Options) (onlySegments : Bool) :
    List String → Except ArgumentError Options
  | [] => .ok options
  | argument :: rest =>
      if onlySegments || !isOption argument then
        (options.addSegment argument).setAll onlySegments rest
      else if argument = "--" then options.setAll true rest
      else do
        let options ← options.setFlag argument
        options.setAll onlySegments rest

def parse : List String → Except ArgumentError Options
  | [] => .error .usage
  | schemaPath :: arguments =>
      if isOption schemaPath then .error .usage
      else
        Options.setAll ⟨schemaPath, false, false, false, []⟩ false arguments

inductive FileError where
  | missing
  | directory
  /-- The bytes of the file are no UTF-8. -/
  | invalidText
  | other (reason : String)
deriving DecidableEq

def FileError.message : FileError → String
  | .missing => "No such file or directory (os error 2)"
  | .directory => "Is a directory (os error 21)"
  | .invalidText => "stream did not contain valid UTF-8"
  | .other reason => reason

inductive Failure where
  | arguments (error : ArgumentError)
  | file (path : String) (error : FileError)
  | document (error : DocumentError)
  | rules (error : RuleError)
  | resolution (error : InsufficientKeys)
  | keyedElement (error : AlreadyHasKeys)

def Failure.message : Failure → String
  | .arguments error => error.message
  | .file path error => s!"failed to read {path}: {error.message}"
  | .document error => error.message
  | .rules error => error.message
  | .resolution error => error.message
  | .keyedElement error => error.message

/-- The rules of a table, one in a line: the path and the key names. -/
def ruleLines (table : RuleTable) : String :=
  "\n".intercalate (table.paths.map fun path =>
    path ++ " " ++ " ".intercalate ((table.keyNames? path).getD []))

def selectPath (options : Options) (table : RuleTable) :
    Except Failure Path :=
  if options.wildcard then
    let annotated := table.annotate (options.segments.map .ofName)
    match annotated.outcome with
    | .ok _ => .ok annotated.path
    | .error error => .error (.keyedElement error)
  else (table.resolve options.segments).mapError .resolution

def answer (options : Options) (schema : Schema) : Except Failure String := do
  let table ← (RuleTable.ofSchema schema).mapError .rules
  if options.dumpRules then return ruleLines table
  else
    let path ← selectPath options table
    if options.json then return path.toJson.compact
    else return path.text

def decodeText (bytes : ByteArray) : Except FileError String :=
  match String.fromUTF8? bytes with
  | some text => .ok text
  | none => .error .invalidText

def answerBytes (options : Options) (bytes : Except FileError ByteArray) :
    Except Failure String := do
  let text ← (bytes >>= decodeText).mapError (.file options.schemaPath)
  let schema ← (Schema.ofText text).mapError .document
  answer options schema

/-- Run the program on arguments, with the given reader of files. -/
def run {m : Type → Type} [Monad m]
    (readFile : String → m (Except FileError ByteArray))
    (arguments : List String) : m (Except Failure String) :=
  match parse arguments with
  | .error error => return .error (.arguments error)
  | .ok options => do
      let bytes ← readFile options.schemaPath
      return answerBytes options bytes

/-- A directory without further directories, as its files by name. -/
structure Directory where
  files : List (String × ByteArray)

/-- Read a file of a directory.  A point names the directory itself. -/
def Directory.read (directory : Directory) (name : String) :
    Except FileError ByteArray :=
  if name = "." then .error .directory
  else
    match directory.files.lookup name with
    | some bytes => .ok bytes
    | none => .error .missing

def Directory.run (directory : Directory) (arguments : List String) :
    Except Failure String :=
  CommandLine.run (m := Id) directory.read arguments

structure Completion where
  code : UInt32
  stdout : String
  stderr : String
deriving DecidableEq

/-- A result is printed with exit code zero, and an error message goes to the
error output with exit code one. -/
def complete : Except Failure String → Completion
  | .ok text => ⟨0, text ++ "\n", ""⟩
  | .error failure => ⟨1, "", failure.message ++ "\n"⟩

end CommandLine

end KeyedPaths
