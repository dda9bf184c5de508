/-
DrawLang/Main.lean

The program: it takes its arguments, reads the file that they name, prints the
response and exits with its code.
-/
import DrawLang.CommandLine

namespace DrawLang

/-- Why the system could not read a file. -/
def Unreadable.ofError : IO.Error → Unreadable
  | .noFileOrDirectory _ code _ => .ofCode code.toNat
  | .invalidArgument _ code _ => .ofCode code.toNat
  | .permissionDenied _ code _ => .ofCode code.toNat
  | .inappropriateType _ code _ => .ofCode code.toNat
  | _ => .missing

/-- Read a file as text. -/
def readText (file : Text) : IO (Except Unreadable Text) := do
  try
    match Text.ofBytes? (← IO.FS.readBinFile ⟨String.ofList file⟩) with
    | some text => return .ok text
    | none => return .error .noText
  catch error => return .error (.ofError error)

end DrawLang

open DrawLang in
/-- Respond to the command line. -/
def main (args : List String) : IO UInt32 := do
  match CommandLine.ofArguments? (args.map String.toList) with
  | none =>
    IO.eprintln "usage: [--log] (tokenize | parse | run [--json] [--timeout MS]) [FILE]"
    return 2
  | some c =>
    if c.log then
      IO.FS.writeFile ⟨String.ofList CommandLine.logFile⟩ (String.ofList CommandLine.logOpening)
    let source ← match c.file with
      | some file => readText file
      | none => pure (.error .missing)
    let response := c.respond fun _ => source
    IO.print (String.ofList response.out)
    IO.eprint (String.ofList response.err)
    return UInt32.ofNat response.code
