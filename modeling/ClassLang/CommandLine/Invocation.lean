import ClassLang.Token.Lexeme

/-!
# Reading the command line

Arguments are read from left to right. Asking for help or for the version ends
the reading at once, and so does an argument that cannot be understood at all:
an unknown option or a second script. Other faults only come to light when all
arguments have been read, so that a later request for help still counts: a
setting without a value or with one that is no number, anything said twice, and
asking for both listings.

* An option starts with two dashes, and its value follows an equals sign or is
  the next argument, unless that looks like an option itself.
* Two dashes alone say that no options follow.
-/

namespace ClassLang

/-- The settings that take a number. -/
inductive Setting where
  | identifierLength
  | stringLength
  | maxDepth
deriving DecidableEq, Repr

/-- The setting with a name. -/
def Setting.ofName? : String → Option Setting
  | "ident-length" => some identifierLength
  | "string-length" => some stringLength
  | "max-depth" => some maxDepth
  | _ => none

/-- What to do with the program. -/
inductive Task where
  /-- list its tokens -/
  | tokens
  /-- show its tree -/
  | outline
  /-- run it -/
  | run
deriving DecidableEq, Repr

/-- The listing with a name. -/
def Task.ofName? : String → Option Task
  | "tokens" => some tokens
  | "ast" => some outline
  | _ => none

/-- What a command line asks for, all told. -/
structure Options where
  /-- the script to read; the standard input if there is none -/
  script : Option String := none
  /-- the limits of the scanner -/
  limits : Limits := {}
  /-- the limit on nesting -/
  maxDepth : Nat := 200
  /-- what to do -/
  task : Task := .run
deriving DecidableEq, Repr

/-- What a command line means. -/
inductive Invocation where
  | help
  | version
  /-- it cannot be understood -/
  | refused
  | go (options : Options)
deriving DecidableEq, Repr

/-- What the arguments read so far have said, as often as they said it. A
setting may still lack its value. -/
structure Given where
  /-- the script -/
  script : Option String := none
  /-- the settings, with the text of their values -/
  settings : List (Setting × Option String) := []
  /-- the listings asked for -/
  listings : List Task := []

/-- The largest number that a setting can have. -/
def maxNumber : Nat := 18446744073709551615

/-- The number that a text denotes: digits, in front of which a plus may stand,
and within bounds. -/
def number? (text : String) : Option Nat :=
  let digits :=
    match text.toList with
    | '+' :: rest => rest
    | all => all
  if digits.isEmpty || digits.any (!·.isDigit) then none
  else
    let n := Nat.ofDigitChars 10 digits 0
    if n ≤ maxNumber then some n else none

namespace Given

/-- The value of a setting: the default if it was not given. There is none if
it was given twice, without a value, or with one that is no number. -/
def setting? (g : Given) (s : Setting) (default : Nat) : Option Nat :=
  match g.settings.filter (·.1 == s) with
  | [] => some default
  | [(_, some text)] => number? text
  | _ => none

/-- What was asked for, if that can be understood. -/
def finish (g : Given) : Invocation :=
  let defaults : Options := {}
  let options? := do
    let identifier ← g.setting? .identifierLength defaults.limits.identifier
    let string ← g.setting? .stringLength defaults.limits.string
    let maxDepth ← g.setting? .maxDepth defaults.maxDepth
    let task ←
      match g.listings with
      | [] => some Task.run
      | [task] => some task
      | _ => none
    return { script := g.script, limits := { identifier, string }, maxDepth, task }
  match options? with
  | some options => .go options
  | none => .refused

/-- Takes an argument as the script, of which there can be one. -/
def withScript? (g : Given) (script : String) : Option Given :=
  if g.script.isSome then none else some { g with script := some script }

/-- Notes a setting, if there is one to note, with its value or without. -/
def note (g : Given) (setting? : Option Setting) (value? : Option String) : Given :=
  match setting? with
  | none => g
  | some setting => { g with settings := (setting, value?) :: g.settings }

end Given

/-- The name of a long option and its value, if an equals sign divides the
two. -/
def splitOption (argument : String) : String × Option String :=
  let body := argument.toList.dropWhile (· == '-')
  let name := String.ofList (body.takeWhile (· != '='))
  match body.dropWhile (· != '=') with
  | [] => (name, none)
  | value => (name, some (String.ofList (value.dropWhile (· == '='))))

/-- What a single letter after one dash asks for. -/
def letter : Char → Invocation
  | 'h' => .help
  | 'V' => .version
  | _ => .refused

/-- Reads arguments that can only be scripts. -/
def readScripts (g : Given) : List String → Invocation
  | [] => g.finish
  | script :: rest =>
    match g.withScript? script with
    | some g => readScripts g rest
    | none => .refused

/-- Does an argument look like an option? A single dash does not. -/
def looksLikeOption (argument : String) : Bool :=
  match argument.toList with
  | '-' :: _ :: _ => true
  | _ => false

/-- Reads arguments. `pending` is a setting whose value is to be the next
argument, unless that looks like an option. -/
def readArguments (g : Given) (pending : Option Setting) : List String → Invocation
  | [] => (g.note pending none).finish
  | argument :: rest =>
    if pending.isSome && !looksLikeOption argument then
      readArguments (g.note pending (some argument)) none rest
    else
      -- A setting that still waits has been left without a value.
      let g := g.note pending none
      match argument.toList with
      | ['-', '-'] => readScripts g rest
      | '-' :: '-' :: _ =>
        let (name, value?) := splitOption argument
        if name = "help" then .help
        else if name = "version" then .version
        else
          match Task.ofName? name, Setting.ofName? name, value? with
          | some listing, _, _ =>
            readArguments { g with listings := listing :: g.listings } none rest
          | none, some setting, some value =>
            readArguments (g.note (some setting) (some value)) none rest
          | none, some setting, none => readArguments g (some setting) rest
          | none, none, _ => .refused
      | '-' :: c :: _ => letter c
      | _ =>
        match g.withScript? argument with
        | some g => readArguments g none rest
        | none => .refused

/-- What the arguments of the program mean. -/
def Invocation.ofArguments (arguments : List String) : Invocation :=
  readArguments {} none arguments

end ClassLang
