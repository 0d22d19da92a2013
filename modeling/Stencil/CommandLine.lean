import Stencil.Session
import Stencil.Tree.Dump

/-!
# The command line

Renders a template file with the fields of a JSON object as variables. This file says what an
invocation does as a function of its arguments and of the files it finds: its exit code, what it
writes to the two outputs, and the file it makes. An output file is emptied before anything is read,
and keeps what was written before a failure.
-/

set_option autoImplicit false

namespace Stencil

namespace CommandLine

/-- What the arguments ask for; a path that was not given is empty. -/
structure Options where
  template : Bytes := []
  data : Bytes := []
  output : Bytes := []
  keepFormatting : Bool := false
  dump : Bool := false
  verbose : Bool := false
  deriving DecidableEq, Repr

/-- What becomes of an invocation: the help text, a refusal, or a run. -/
inductive Request where
  | help
  | refuse (message : Bytes)
  | run (options : Options)
  deriving DecidableEq, Repr

/-- The part of the help text that lists the options. -/
def optionLines : List String :=
  ["options:",
    "  -h, --help            show this help message and exit",
    "  -t, --template FILE   template to render (required)",
    "  -d, --data FILE       JSON object whose keys become variables",
    "  -o, --output FILE     write output to FILE instead of stdout",
    "      --keep-fmt        keep newlines and indentation of the template",
    "      --dump            print the parsed tree as JSON instead of rendering",
    "  -v, --verbose         print debug logs"]

/-- What a program of a given name says about its use. -/
def usage (program : Bytes) : Bytes :=
  ascii "usage: " ++ program ++ ascii " -t FILE [options]\n\n" ++
    optionLines.flatMap fun line => ascii line ++ [Byte.newline]

/-- The option that takes the next argument, under an argument that names one. -/
def takesValue? (arg : Bytes) : Option (Options → Bytes → Options) :=
  if arg == ascii "-t" || arg == ascii "--template" then
    some fun options value => { options with template := value }
  else if arg == ascii "-d" || arg == ascii "--data" then
    some fun options value => { options with data := value }
  else if arg == ascii "-o" || arg == ascii "--output" then
    some fun options value => { options with output := value }
  else none

/-- The change of options that an argument alone makes. -/
def switch? (arg : Bytes) : Option (Options → Options) :=
  if arg == ascii "--keep-fmt" then some fun options => { options with keepFormatting := true }
  else if arg == ascii "--dump" then some fun options => { options with dump := true }
  else if arg == ascii "-v" || arg == ascii "--verbose" then
    some fun options => { options with verbose := true }
  else none

/-- Reads the arguments from left to right. A call for help is answered at once. -/
def readArguments (options : Options) : List Bytes → Request
  | [] =>
    if options.template.isEmpty then .refuse (ascii "error: no template given\n")
    else .run options
  | arg :: rest =>
    if arg == ascii "-h" || arg == ascii "--help" then .help
    else
      match takesValue? arg, switch? arg with
      | some change, _ =>
        match rest with
        | value :: rest => readArguments (change options value) rest
        | [] => .refuse (ascii "error: missing value for " ++ arg ++ ascii "\n")
      | none, some change => readArguments (change options) rest
      | none, none => .refuse (ascii "error: unknown argument: " ++ arg ++ ascii "\n")

/-- The part of an invocation that the choice of the output does not change. -/
structure Outcome where
  exitCode : Nat := 0
  written : Bytes := []
  errors : Bytes := []

/-- An outcome that ends with an error message. -/
def Outcome.error (message : Bytes) : Outcome :=
  { exitCode := 1, errors := ascii "error: " ++ message ++ ascii "\n" }

/-- What is shown of an error with a code. -/
def codedReport (report : Bytes) (code : ErrorCode) : Bytes :=
  report ++ ascii " (" ++ code.text ++ ascii ")"

variable [JsonLibrary]

/-- What is shown of a failure, with its code when it has one. -/
def failureReport (failure : Failure) : Bytes :=
  match failure.code? with
  | some code => codedReport failure.report code
  | none => failure.report

/-- Binds the fields of an object as variables, in order, up to the first that cannot be bound. -/
def bindFields (registry : Registry) :
    Context → List (Bytes × Json) → Except Failure Context
  | context, [] => .ok context
  | context, (key, value) :: rest => do
    bindFields registry (← context.bind registry key value []) rest

/-- The context of an invocation, or the message that ends it: the fields of the data document as
variables. -/
def readData (registry : Registry) (files : Bytes → Option Bytes) (path : Bytes) :
    Except Bytes Context :=
  if path.isEmpty then .ok {}
  else
    match files path with
    | none => .error (ascii "failed to open " ++ path)
    | some text =>
      match JsonLibrary.parse text with
      | .error fault => .error (JsonLibrary.describe fault)
      | .ok (.obj fields) => (bindFields registry {} fields).mapError failureReport
      | .ok _ => .error (path ++ ascii " must hold a JSON object")

/-- Renders a tree with the data of an invocation. -/
def renderTree (files : Bytes → Option Bytes) (data : Bytes) (tree : Tree) : Outcome :=
  let registry := Registry.standard
  match readData registry files data with
  | .error message => Outcome.error message
  | .ok context =>
    let outcome := tree.render registry context
    match outcome.result with
    | .ok _ => { written := outcome.written }
    | .error (.failed failure) =>
      { Outcome.error (failureReport failure) with written := outcome.written }
    | .error .exhausted =>
      { Outcome.error (ascii "loop does not end") with written := outcome.written }

/-- What a debug log leaves on the error output of a verbose invocation. -/
def verboseOutput (record : LogRecord) : Bytes :=
  if record.level = .debug then ascii "D " ++ record.text else record.text

/-- What an invocation does with its files, apart from where the output goes. -/
def process (options : Options) (files : Bytes → Option Bytes) : Outcome :=
  match files options.template with
  | none => Outcome.error
      (codedReport (ascii "failed to open " ++ options.template) .unreadableFile)
  | some text =>
    match Tree.parse options.keepFormatting text with
    | .error error => Outcome.error (codedReport error.report error.code)
    | .ok tree =>
      let note := tree.parseNote text
      let log := if options.verbose then verboseOutput note else note.errorOutput
      let outcome :=
        if options.dump then
          match tree.toJson.printIndented 2 0 with
          | .ok dump => { written := dump ++ [Byte.newline] }
          | .error fault => Outcome.error (JsonLibrary.describe fault)
        else renderTree files options.data tree
      { outcome with errors := log ++ outcome.errors }

/-! ## Files -/

/-- What a path names in a directory that holds plain files only. -/
inductive Place where
  /-- A file of the directory, there or not. -/
  | file (name : Bytes)
  /-- The directory itself, one above it, or the root. -/
  | directory
  /-- The device that reads as nothing and forgets what is written to it. -/
  | nullDevice
  /-- Something below a file or a directory that is not there, or outside the directory. -/
  | nowhere
  deriving DecidableEq, Repr

/-- What a path relative to the directory names: empty segments and single dots stand for
nothing. -/
def Place.ofRelative (path : Bytes) : Place :=
  let segments := path.splitOn 0x2f
  match segments.filter fun segment => !segment.isEmpty && segment != ascii "." with
  | [] => .directory
  | name :: rest =>
    if (name :: rest).all (· == ascii "..") then .directory
    else if rest.isEmpty && segments.getLast? == some name then .file name
    else .nowhere

/-- What a path names. The world of an invocation is its directory, the directories above it, and
the device that forgets: an absolute path to anything else, and a path that leaves the directory
through `..` and goes on to a name, lie outside of it and count as not there, even when such a path
leads back to a file of the directory. -/
def Place.ofPath (path : Bytes) : Place :=
  if path.isEmpty then .nowhere
  else if path == ascii "/dev/null" then .nullDevice
  else if path.startsWith (ascii "/") then
    match Place.ofRelative path with
    | .directory => .directory
    | _ => .nowhere
  else Place.ofRelative path

/-- What is read under a path; a directory reads as an empty file. -/
def readPath (files : Table Bytes) (path : Bytes) : Option Bytes :=
  match Place.ofPath path with
  | .file name => files.find? name
  | .directory | .nullDevice => some []
  | .nowhere => none

/-- What an invocation leaves behind: its exit code, what it wrote to its two streams, and a
file. -/
structure Result where
  exitCode : Nat
  output : Bytes
  errors : Bytes
  /-- The file that was made or changed, with its content. -/
  file : Option (Bytes × Bytes) := none

/-- Carries out an invocation in a directory that holds given files. -/
def run (program : Bytes) (args : List Bytes) (files : Table Bytes) : Result :=
  match readArguments {} args with
  | .help => { exitCode := 0, output := [], errors := usage program }
  | .refuse message => { exitCode := 1, output := [], errors := message ++ usage program }
  | .run options =>
    if options.output.isEmpty then
      let outcome := process options (readPath files)
      { exitCode := outcome.exitCode, output := outcome.written, errors := outcome.errors }
    else
      match Place.ofPath options.output with
      | .file name =>
        let outcome := process options (readPath (files.insert name []))
        { exitCode := outcome.exitCode, output := [], errors := outcome.errors
          file := if files.find? name = some outcome.written then none
                  else some (name, outcome.written) }
      | .nullDevice =>
        let outcome := process options (readPath files)
        { exitCode := outcome.exitCode, output := [], errors := outcome.errors }
      | .directory | .nowhere =>
        { exitCode := 1, output := []
          errors := ascii "error: failed to open " ++ options.output ++ ascii "\n" }

end CommandLine

end Stencil
