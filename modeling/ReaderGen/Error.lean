/-!
# Errors

Everything that can go wrong between a format description and the code generated from it, by the
part of the work that notices it. The wording of each error stands in one place.
-/

namespace ReaderGen

/-- Errors of expressions. -/
inductive ExprError
  /-- The expression cannot be read, or has no meaning as integer arithmetic. -/
  | parse (expr reason : String)
  /-- A number does not fit. -/
  | overflow (expr : String)
  | divisionByZero (expr : String)
  /-- A subscript is not the counter of an enclosing loop plus an offset. -/
  | unsupportedIndex (name index : String)
  /-- The expression holds a literal of an unknown kind. -/
  | unknownLiteral
deriving DecidableEq, Repr

def ExprError.message : ExprError → String
  | parse expr reason => s!"cannot parse expression `{expr}`: {reason}"
  | overflow expr => s!"integer overflow in `{expr}`"
  | divisionByZero expr => s!"division by zero in `{expr}`"
  | unsupportedIndex name index =>
    s!"index `{index}` of `{name}` must be an enclosing loop variable plus an offset"
  | unknownLiteral => "a literal is of an unknown kind"

/-- Errors of ordering declarations and reads. -/
inductive SchedulingError
  /-- A variable is read before what its declaration depends on. -/
  | undeclared (name : String)
  /-- A loop counter is read that is not a variable as well. -/
  | notInTable (name : String)
deriving DecidableEq, Repr

def SchedulingError.message : SchedulingError → String
  | undeclared name => s!"variable `{name}` is not declared yet"
  | notInTable name => s!"`{name}` is a loop counter and cannot be read"

/-- Errors of the options for the generated code. -/
inductive ConfigError
  | unknownScanner (name : String)
  | unknownPrinter (name : String)
  | invalidLoopMacro (name : String)
deriving DecidableEq, Repr

def ConfigError.message : ConfigError → String
  | unknownScanner name => s!"unknown scanner `{name}`, expected `scanf` or `cin`"
  | unknownPrinter name => s!"unknown printer `{name}`, expected `printf` or `cout`"
  | invalidLoopMacro name => s!"`{name}` is not a valid macro name"

/-- Errors of format descriptions and declarations. -/
inductive FormatError
  /-- A declaration whose dimensions and bases differ in number. -/
  | dimsBasesMismatch (name : String) (dims bases : Nat)
  | duplicateDecl (name : String)
  /-- A file cannot be read. -/
  | file (path reason : String)
  /-- A description is malformed; the text is the diagnostic shown for it. -/
  | malformed (rendered : String)
  /-- A description is malformed at a place that its diagnostic cannot show. -/
  | unplaceable
  /-- A description holds a literal of an unknown kind. -/
  | unknownLiteral
deriving DecidableEq, Repr

def FormatError.message : FormatError → String
  | dimsBasesMismatch name dims bases =>
    s!"declaration of `{name}` has {dims} dimensions but {bases} bases"
  | duplicateDecl name => s!"variable `{name}` declared twice"
  | file path reason => s!"cannot read `{path}`: {reason}"
  | malformed rendered => rendered
  | unplaceable => "the diagnostic ends after the source"
  | unknownLiteral => "a literal is of an unknown kind"

/-- Any error. -/
inductive Error
  | expr (error : ExprError)
  | scheduling (error : SchedulingError)
  | config (error : ConfigError)
  | format (error : FormatError)
  /-- Generated code could not be written out. -/
  | output
  /-- Generated code could not be indented. -/
  | indentation
deriving DecidableEq, Repr

namespace Error

def message : Error → String
  | expr error => error.message
  | scheduling error => error.message
  | config error => error.message
  | format error => error.message
  | output => "cannot write generated code"
  | indentation => "the indentation is too long"

/-- Whether the work breaks off without a message. -/
def breaksOff : Error → Bool
  | expr .unknownLiteral | format .unplaceable | format .unknownLiteral | indentation => true
  | _ => false

/-- What lies behind an error. -/
def cause : Error → String
  | output => "an error occurred when formatting an argument"
  | error => error.message

end Error

end ReaderGen
