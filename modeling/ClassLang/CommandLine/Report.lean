import ClassLang.CommandLine.Invocation
import ClassLang.Parse.Program
import ClassLang.Program.Outline
import ClassLang.Session

/-!
# What the program answers

A command line, together with the bytes of the script or of the standard input,
determines what is written where and the exit code. Nothing here reads or
writes anything: `Invocation.script?` says what to read, `Invocation.report`
what to write.

The exit codes are 64 for a command line that cannot be understood, 65 for a
text that is no program, 66 for a text that cannot be read and 70 for a program
that ends with an error.
-/

namespace ClassLang

/-- What a run of the command line program leaves behind. -/
structure Report where
  /-- the exit code -/
  exit : Nat := 0
  /-- the standard output -/
  stdout : String := ""
  /-- the standard error output -/
  stderr : String := ""
deriving DecidableEq, Repr

/-- The version of the program. -/
def versionText : String := "classy 0.1.0\n"

/-- How the program is used. -/
def usageText : String :=
  "USAGE:\n" ++
  "    classy [FLAGS] [OPTIONS] [SCRIPT]\n"

/-- The help on the program. -/
def helpText : String :=
  versionText ++
  "Runs programs written in a small class-based language\n" ++
  "\n" ++
  usageText ++
  "\n" ++
  "FLAGS:\n" ++
  "        --ast        Print the parsed program and exit\n" ++
  "    -h, --help       Prints help information\n" ++
  "        --tokens     Print the token stream and exit\n" ++
  "    -V, --version    Prints version information\n" ++
  "\n" ++
  "OPTIONS:\n" ++
  "        --ident-length <N>     Longest identifier accepted by the scanner\n" ++
  "        --max-depth <N>        Deepest nesting of calls and object constructions\n" ++
  "        --string-length <N>    Longest string literal accepted by the scanner\n" ++
  "\n" ++
  "ARGS:\n" ++
  "    <SCRIPT>    Program to run, read from stdin when omitted\n"

/-- The report of a text that cannot be read. -/
def unreadable (script : Option String) (why : String) : Report :=
  let name :=
    match script with
    | some path => "'" ++ path ++ "'"
    | none => "stdin"
  { exit := 66, stderr := "could not read " ++ name ++ ": " ++ why ++ "\n" }

/-- A token in a listing: where it starts, in seven columns, and what it is. -/
def tokenLine (t : Token) : String :=
  let position := t.start.text
  "".pushn ' ' (7 - position.length) ++ position ++ " " ++ (Outline.kind t.kind).inline ++ "\n"

/-- The report of a text that is no program. -/
def rejected (message : String) : Report := { exit := 65, stderr := message ++ "\n" }

/-- The report of a finished run. The result is told unless there is none. -/
def finished : Except RuntimeError Value × State → Report
  | (.error e, s) => { exit := 70, stdout := s.output, stderr := e.message ++ "\n" }
  | (.ok .void, s) => { stdout := s.output }
  | (.ok value, s) => { stdout := s.output ++ "Returned " ++ value.text ++ ".\n" }

namespace Options

/-- Does with a source text what is asked for. There is no report if the fuel
for a run does not suffice. -/
def perform (o : Options) (fuel : Nat) (source : String) : Option Report :=
  match o.task with
  | .tokens =>
    match scan o.limits source with
    | .ok tokens => some { stdout := String.join (tokens.map tokenLine) }
    | .error e => some (rejected e.message)
  | .outline =>
    match parseSource o.limits source with
    | .ok program => some { stdout := (Outline.program program).layout "" ++ "\n" }
    | .error e => some (rejected e.message)
  | .run =>
    match parseSource o.limits source with
    | .ok program =>
      (runMain { program, maxDepth := o.maxDepth } fuel (.ready program [.print])).map finished
    | .error e => some (rejected e.message)

/-- Does with the bytes read what is asked for; there are none if there is no
such file. -/
def report (o : Options) (fuel : Nat) (input : Option ByteArray) : Option Report :=
  match input with
  | none => some (unreadable o.script "No such file or directory (os error 2)")
  | some bytes =>
    match String.fromUTF8? bytes with
    | none => some (unreadable o.script "stream did not contain valid UTF-8")
    | some source => o.perform fuel source

end Options

/-- What the program answers to a command line, given the bytes of the text it
is to read. -/
def Invocation.report (fuel : Nat) (input : Option ByteArray) : Invocation → Option Report
  | help => some { stdout := helpText }
  | version => some { stdout := versionText }
  | refused => some { exit := 64, stderr := "error: invalid command line\n\n" ++ usageText }
  | go options => options.report fuel input

end ClassLang
