import ReaderGen.Cpp.Config
import ReaderGen.Text.Similarity

/-!
# Commands

`lint` checks a format and lists its variables; `code` writes the fragments of a program for it. Both
take the path of the format, and `code` the options for the generated code.

`Command.parse` reads the arguments of the program. An option takes its value from the same argument,
after an equals sign, or from the next one, unless that begins with a hyphen. An option that has a
default may also go without a value. What cannot be an option is reported first, then an option left
without a value at the end, and then what is wrong with the options that were given.
-/

namespace ReaderGen

inductive Command
  | lint (path : String)
  | code (path : String) (config : Cpp.Config) (nest : UInt64)

namespace Command

def program : String := "iotemplate-cpp"

def version : String := "0.1.0"

/-! ## Refusals -/

/-- Why arguments are refused. -/
inductive Refusal
  | unexpected (argument : String)
  /-- A word that resembles the name of a command. -/
  | unknownCommand (argument : String)
  | noValue (option : String)
  | repeated (option : String)
  | noCommand
deriving DecidableEq, Repr

def Refusal.message : Refusal → String
  | unexpected argument =>
    s!"error: Found argument '{argument}' which wasn't expected, or isn't valid in this context"
  | unknownCommand argument => s!"error: The subcommand '{argument}' wasn't recognized"
  | noValue option => s!"error: The argument '{option}' requires a value but none was supplied"
  | repeated option =>
    s!"error: The argument '{option}' was provided more than once, but cannot be used multiple times"
  | noCommand => s!"{program} {version}"

/-- Why a text is not a number of the machine's word size. -/
inductive NumberFault
  | empty
  | digit
  | tooLarge
deriving DecidableEq, Repr

def NumberFault.message : NumberFault → String
  | empty => "cannot parse integer from empty string"
  | digit => "invalid digit found in string"
  | tooLarge => "number too large to fit in target type"

/-- Why there is no command to run. -/
inductive Stop
  | refused (refusal : Refusal)
  | invalid (option : String) (fault : NumberFault)
  /-- The version was asked for, of the program or of one of its commands. -/
  | version (command : Option String)
deriving DecidableEq, Repr

/-! ## Numbers -/

/-- The decimal digits of a machine word, after those that make `value`. -/
def digits (value : UInt64) : List Char → Except NumberFault UInt64
  | [] => .ok value
  | c :: cs =>
    if c.isDigit then
      let next := 10 * value.toNat + (c.toNat - '0'.toNat)
      if h : next < 2 ^ 64 then digits (.ofNatLT next h) cs else .error .tooLarge
    else .error .digit

/-- A number, possibly after a plus sign. -/
def number (text : String) : Except NumberFault UInt64 :=
  match text.toList with
  | [] => .error .empty
  | ['+'] => .error .digit
  | '+' :: cs => digits 0 cs
  | cs => digits 0 cs

/-! ## Options -/

/-- What an option takes as its value. -/
inductive Takes
  | nothing
  | text
  | number
deriving DecidableEq, Repr

/-- An option that a command knows, with the value it has unless another one is given. -/
structure Flag where
  name : String
  takes : Takes
  default : Option String := none
deriving DecidableEq, Repr

def Flag.takesValue (f : Flag) : Bool := f.takes ≠ .nothing

/-- An option as it is called in messages. -/
def Flag.text (f : Flag) : String :=
  if f.takesValue then s!"--{f.name} <{f.name}>" else s!"--{f.name}"

/-- An option as it was given. -/
structure Given where
  flag : Flag
  value : Option String
deriving DecidableEq, Repr

/-- An argument that begins with a hyphen. -/
inductive Hyphened
  /-- A name, and the value after an equals sign. -/
  | long (name : String) (value : Option String)
  | short (letter : Char)
deriving DecidableEq, Repr

/-- Reads an argument as an option. Hyphens before the name do not count, nor do equals signs before
the value. A hyphen by itself is no option. -/
def hyphened? (argument : String) : Option Hyphened :=
  match argument.toList with
  | '-' :: '-' :: cs =>
    let cs := cs.dropWhile (· = '-')
    let name := String.ofList (cs.takeWhile (· ≠ '='))
    match cs.dropWhile (· ≠ '=') with
    | [] => some (.long name none)
    | value => some (.long name (some (String.ofList (value.dropWhile (· = '=')))))
  | '-' :: c :: _ => some (.short c)
  | _ => none

/-- Whether the version is asked for. -/
def Hyphened.isVersion : Hyphened → Bool
  | long name _ => name = "version"
  | short letter => letter = 'V'

/-- The part of an option that a refusal names. -/
def Hyphened.text : Hyphened → String
  | long name _ => "--" ++ name
  | short letter => "-" ++ String.singleton letter

/-- The option that is meant. -/
def Hyphened.flag? (known : List Flag) : Hyphened → Option Flag
  | long name _ => known.find? (·.name = name)
  | short _ => none

def Hyphened.value : Hyphened → Option String
  | long _ value => value
  | short _ => none

/-- The options among the arguments of a command. `pending` is an option that still lacks its value;
what is left of it at the end is given back. -/
def options (command : String) (known : List Flag) (pending : Option Flag) :
    List String → Except Stop (List Given × Option Flag)
  | [] => .ok ([], pending)
  | argument :: rest =>
    let missed : List Given := pending.toList.map (⟨·, none⟩)
    if argument = "--" then
      match rest with
      | [] => .ok ([], pending)
      | argument :: _ => .error (.refused (.unexpected argument))
    else
      match hyphened? argument with
      | some option =>
        if option.isVersion then .error (.version (some command))
        else
          match option.flag? known with
          | none => .error (.refused (.unexpected option.text))
          | some flag =>
            if flag.takesValue && option.value.isNone then do
              let (more, last) ← options command known (some flag) rest
              return (missed ++ more, last)
            else do
              let (more, last) ← options command known none rest
              return (missed ++ ⟨flag, option.value⟩ :: more, last)
      | none =>
        match pending with
        | none => .error (.refused (.unexpected argument))
        | some flag => do
          let (more, last) ← options command known none rest
          return (⟨flag, some argument⟩ :: more, last)

/-- The values given to an option. -/
def valuesOf (name : String) (given : List Given) : List String :=
  given.filterMap fun g => if g.flag.name = name then g.value else none

def isGiven (name : String) (given : List Given) : Bool := given.any (·.flag.name = name)

/-- What is wrong with the values of an option. -/
def Takes.fault? (takes : Takes) (values : List String) : Option NumberFault :=
  match takes with
  | number => values.findSome? fun value =>
    match Command.number value with
    | .ok _ => none
    | .error fault => some fault
  | nothing | text => none

/-- Whether an option was given without the value that it needs. -/
def Flag.lacksValue (given : List Given) (f : Flag) : Bool :=
  f.takesValue && f.default.isNone && isGiven f.name given && (valuesOf f.name given).isEmpty

/-- What is wrong with an option as it was given: it has no value, then a wrong one, then it was given
more than once. -/
def Flag.stop? (given : List Given) (f : Flag) : Option Stop :=
  let values := valuesOf f.name given
  if f.lacksValue given then some (.refused (.noValue f.text))
  else
    match f.takes.fault? values with
    | some fault => some (.invalid f.text fault)
    | none =>
      if 1 < given.countP (·.flag.name = f.name) then some (.refused (.repeated f.text)) else none

/-! ## Commands and their options -/

/-- The path of the format. -/
def pathFlag : Flag := ⟨"format-file", .text, some "./format"⟩

def indentFlag : Flag := ⟨"indent", .text, some "    "⟩

/-- How deep the generated code is nested. -/
def nestFlag : Flag := ⟨"nest", .number, some "1"⟩

/-- The options of `lint`. -/
def lintFlags : List Flag := [pathFlag]

/-- The options of `code`. -/
def codeFlags : List Flag :=
  [pathFlag, indentFlag, ⟨"scanner", .text, none⟩, ⟨"printer", .text, none⟩,
   ⟨"rep-macro", .text, none⟩, ⟨"qualify-std", .nothing, none⟩, ⟨"int64", .nothing, none⟩, nestFlag]

/-- Reads and checks the options of a command. -/
def checked (command : String) (known : List Flag) (arguments : List String) :
    Except Stop (List Given) := do
  let (given, last) ← options command known none arguments
  let given := given ++ last.toList.map (⟨·, none⟩)
  match (last.toList.filter (Flag.lacksValue given) ++ known).findSome? (Flag.stop? given) with
  | some stop => .error stop
  | none => return given

/-- The value of an option. -/
def valueOf (flag : Flag) (given : List Given) : String :=
  ((valuesOf flag.name given).head? <|> flag.default).getD ""

/-- The choice made by an option. -/
def choiceOf {α : Type} (name : String) (given : List Given) : Cpp.Choice α :=
  match (valuesOf name given).head? with
  | some value => .named value
  | none => .standard

def configOf (given : List Given) : Cpp.Config where
  loop := choiceOf "rep-macro" given
  scanner := choiceOf "scanner" given
  printer := choiceOf "printer" given
  qualified := isGiven "qualify-std" given
  indent := valueOf indentFlag given
  scalar := if isGiven "int64" given then .int64 else .int

def pathOf (given : List Given) : String := valueOf pathFlag given

/-- The nesting level of the code; the value has been checked to be a number. -/
def nestOf (given : List Given) : UInt64 :=
  match number (valueOf nestFlag given) with
  | .ok nest => nest
  | .error _ => 1

/-- The commands, with the one that explains the others. -/
def names : List String := ["code", "help", "lint"]

/-- Refuses a word where a command should stand. -/
def unknown (argument : String) : Refusal :=
  if names.any (Text.similar argument) then .unknownCommand argument else .unexpected argument

/-- Reads the arguments of the program. -/
def parse : List String → Except Stop Command
  | [] => .error (.refused .noCommand)
  | "lint" :: rest => do
    let given ← checked "lint" lintFlags rest
    return .lint (pathOf given)
  | "code" :: rest => do
    let given ← checked "code" codeFlags rest
    return .code (pathOf given) (configOf given) (nestOf given)
  | "--" :: rest =>
    match rest with
    | [] => .error (.refused .noCommand)
    | argument :: _ => .error (.refused (unknown argument))
  | argument :: _ =>
    match hyphened? argument with
    | some option =>
      if option.isVersion then .error (.version none)
      else .error (.refused (.unexpected option.text))
    | none => .error (.refused (unknown argument))

end Command

end ReaderGen
