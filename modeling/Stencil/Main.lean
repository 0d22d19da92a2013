import Stencil.CommandLine
import Stencil.Json.Strict

/-!
# The program

Carries out an invocation of the command line on real files and streams. What an invocation means is
said by the pure functions of the command line; here the files are read, and the outcome is written.
-/

set_option autoImplicit false

namespace Stencil

namespace Program

open scoped JsonLibrary.Strict

/-- The bytes of an argument. -/
def ofArgument (argument : String) : Bytes := argument.toUTF8.toList

/-- A text in the form that streams and files take. -/
def toByteArray (text : Bytes) : ByteArray := ⟨text.toArray⟩

/-- The content of a file, nothing when it cannot be read. -/
def readFile? (path : String) : IO (Option Bytes) := do
  try
    return some (← IO.FS.readBinFile path).toList
  catch _ => return none

/-- Puts a text into a file, and says whether that was possible. -/
def writeFile (path : String) (text : Bytes) : IO Bool := do
  try
    IO.FS.writeBinFile path (toByteArray text)
    return true
  catch _ => return false

/-- Writes a text to a stream at once. -/
def emit (stream : IO.FS.Stream) (text : Bytes) : IO Unit := do
  stream.write (toByteArray text)
  stream.flush

/-- Reads the files that the arguments may name. -/
def readFiles (arguments : List String) : IO (Table Bytes) := do
  let mut files : Table Bytes := []
  for argument in arguments do
    if let some text ← readFile? argument then
      files := files.insert (ofArgument argument) text
  return files

/-- The argument that stands for a given text. -/
def argumentOf (arguments : List String) (text : Bytes) : String :=
  (arguments.find? (ofArgument · == text)).getD ""

/-- Carries out the options of an invocation. The output file is emptied before anything is read. -/
def run (arguments : List String) (options : CommandLine.Options) : IO UInt32 := do
  let output := argumentOf arguments options.output
  if !options.output.isEmpty && !(← writeFile output []) then
    emit (← IO.getStderr) (ascii "error: failed to open " ++ options.output ++ ascii "\n")
    return 1
  let files ← readFiles arguments
  let outcome := CommandLine.process options files.find?
  if options.output.isEmpty then emit (← IO.getStdout) outcome.written
  else discard (writeFile output outcome.written)
  emit (← IO.getStderr) outcome.errors
  return outcome.exitCode.toUInt32

end Program

end Stencil

open Stencil in
/-- Renders a template file as the arguments say. -/
def main (arguments : List String) : IO UInt32 := do
  let program := Program.ofArgument ((← IO.appPath).fileName.getD "stencil")
  match CommandLine.readArguments {} (arguments.map Program.ofArgument) with
  | .help =>
    Program.emit (← IO.getStderr) (CommandLine.usage program)
    return 0
  | .refuse message =>
    Program.emit (← IO.getStderr) (message ++ CommandLine.usage program)
    return 1
  | .run options => Program.run arguments options
