/-
DrawLang/CommandLine.lean

The command line: three commands that take the name of a file.

* `tokenize` prints the tokens of the text and reports what is none of them.
* `parse` prints the tree of the program.
* `run` prints the value of the program, as text or as JSON.

What a command prints and the code it exits with depend on the arguments and
on the file alone, so all of this is a function of them and of the folder that
the command runs in (`respondIn`).  A program that is no program exits with 65,
one that fails with 70, and a file that cannot be read with 1.
-/
import DrawLang.Evaluation
import DrawLang.Folder
import DrawLang.Text.Hidden
import DrawLang.Tree.Printed

namespace DrawLang

/-- The commands. -/
inductive Command where
  | tokenize
  | parse
  | run (json : Bool)
  deriving DecidableEq, Repr

/-- The arguments of the program. -/
structure CommandLine where
  command : Command
  file : Option Text
  /-- Is a log file asked for? -/
  log : Bool
  deriving DecidableEq, Repr

/-- What the program prints and how it exits. -/
structure Response where
  code : Nat
  out : Text
  err : Text
  deriving DecidableEq, Repr

namespace CommandLine

/-! ### Arguments -/

/-- The name of the log file. -/
def logFile : Text := "hey.log".toList

/-- The first line of a log. -/
def logOpening : Text := "[hey] - Logger initialized, writing to hey.log\n".toList

/-- What follows the given text at the front of another. -/
def behind? : Text → Text → Option Text
  | [], t => some t
  | c :: s, d :: t => if c = d then behind? s t else none
  | _ :: _, [] => none

/-- A time limit is a row of digits that a plus may stand before, below
2 ^ 64.  It is accepted and not used. -/
def isLimit (t : Text) : Bool :=
  let digits := if t.head? = some '+' then t.drop 1 else t
  digits ≠ [] && digits.all Char.isDigit && Decimal.digitsValue digits < Nat.pow 2 64

/-- Does an argument set a time limit by itself? -/
def setsLimit (arg : Text) : Bool := (behind? "--timeout=".toList arg).any isLimit

/-- Is the command one that runs a program? -/
def runs : CommandLine → Bool
  | ⟨.run _, _, _⟩ => true
  | _ => false

/-- Take in an argument that names the file. -/
def withFile (c : CommandLine) (file : Text) : Option CommandLine :=
  if c.file.isSome ∨ file = [] then none else some { c with file := some file }

/-- Take in one argument after another, behind the name of the command.  Behind
`--` there are no options any more. -/
def options : CommandLine → List Text → Option CommandLine
  | c, [] => some c
  | c, arg :: args =>
    if arg = "--".toList then args.foldlM withFile c
    else if arg = "--log".toList then
      if c.log then none else options { c with log := true } args
    else if arg = "--json".toList then
      match c.command with
      | .run false => options { c with command := .run true } args
      | _ => none
    else if arg = "--timeout".toList then
      match args with
      | limit :: args => if runs c ∧ isLimit limit then options c args else none
      | [] => none
    else if setsLimit arg then if runs c then options c args else none
    else if arg.head? = some '-' ∧ arg ≠ ['-'] then none
    else (withFile c arg).bind fun c => options c args

/-- The command of a name. -/
def command? (t : Text) : Option Command :=
  if t = "tokenize".toList then some .tokenize
  else if t = "parse".toList then some .parse
  else if t = "run".toList then some (.run false)
  else none

/-- A command with its arguments. -/
def invoked? : List Text → Option CommandLine
  | [] => none
  | arg :: args => (command? arg).bind fun command => options ⟨command, none, false⟩ args

/-- The arguments as they are given; `none` if they make no sense.  The log can
be asked for before the command as well as behind it. -/
def ofArguments? : List Text → Option CommandLine
  | [] => none
  | arg :: args =>
    if arg = "--log".toList then (invoked? args).map fun c => { c with log := true }
    else invoked? (arg :: args)

/-! ### Responses -/

/-- A text as a line. -/
def line (t : Text) : Text := t ++ ['\n']

/-- How a character of a file name is shown between quotes: one that cannot be
seen is written by its number. -/
def shownCharacter (c : Char) : Text :=
  if c = '"' then "\\\"".toList
  else if c = '\\' then "\\\\".toList
  else if c = '\n' then "\\n".toList
  else if c = '\r' then "\\r".toList
  else if c = '\t' then "\\t".toList
  else if c.toNat = 0 then "\\0".toList
  else if isHidden c then "\\u\x7b".toList ++ Nat.toDigits 16 c.toNat ++ "\x7d".toList
  else [c]

/-- The report of a file that cannot be read. -/
def unreadableText (file : Text) (reason : Unreadable) : Text :=
  "Error: Failed to read file \"".toList ++ file.flatMap shownCharacter ++
    "\"\n\nCaused by:\n    ".toList ++ line reason.message

/-- The exit code of `run` for a fault: 65 where the text is no program, and else 70. -/
def faultCode (f : Fault) : Nat := if f.kind = .parse then 65 else 70

/-- The response to a stop, with the exit code that a command has for a fault. -/
def stopped (code : Fault → Nat) : Stop → Response
  | .fault f => ⟨code f, [], line f.display⟩
  | .crash c => ⟨101, [], line (c.message?.getD [])⟩

/-- What a yield of scanning adds to the output and to the reports. -/
def tokenLines (source : Text) : Scanned → Text × Text
  | .ok t => (line t.display, [])
  | .error m =>
    match m.stop source with
    | .fault f => ([], line f.display)
    | .crash _ => ([], [])

/-- The response of `tokenize`. -/
def tokenizeText (source : Text) : Response :=
  let items := source.scan
  let lines := items.map (tokenLines source)
  let code := if items.all (fun i => i.isOk) then 0 else 65
  ⟨code, lines.flatMap Prod.fst, lines.flatMap Prod.snd⟩

/-- The response of `parse`, which exits with 65 whatever fault there is. -/
def parseText (source : Text) : Response :=
  match Scope.ofText source with
  | .ok program => ⟨0, line program.printed, []⟩
  | .error m => stopped (fun _ => 65) (m.stop source)

/-- The response of `run`. -/
def runText (json : Bool) (source : Text) : Response :=
  match Machine.evaluate source (Machine.initial ()) with
  | .ok v _ => ⟨0, line (if json then v.json.pretty else v.display), []⟩
  | .error stop _ => stopped faultCode stop

/-- The response of a command to a text. -/
def respondTo (source : Text) : Command → Response
  | .tokenize => tokenizeText source
  | .parse => parseText source
  | .run json => runText json source

/-- The response to a command line, given how to read files. -/
def respond (c : CommandLine) (read : Text → Except Unreadable Text) : Response :=
  match c.file with
  | none => ⟨0, line "No input filepath was provided. Exiting...".toList, []⟩
  | some file =>
    match read file with
    | .ok source => respondTo source c.command
    | .error reason => ⟨1, [], unreadableText file reason⟩

/-- The folder before a file is read: a log that is asked for has been started. -/
def withLog (c : CommandLine) (here : Folder) : Folder :=
  if c.log then here.put logFile logOpening.toBytes else here

/-- The response to a command line in a folder, and the folder afterwards. -/
def respondIn (c : CommandLine) (here : Folder) : Response × Folder :=
  (c.respond (c.withLog here).read, c.withLog here)

end CommandLine

end DrawLang
