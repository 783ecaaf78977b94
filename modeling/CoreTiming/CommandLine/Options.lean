/-!
# Options on a command line

An option is written `--name value` or `--name=value`, or with its letter as `-x value`, `-xvalue`
or `-x=value`; a switch has no value.  An option may be given once.  A value in an argument of its
own does not begin with a hyphen, unless it is one.  The argument `--` ends the options.
-/

namespace CoreTiming

/-- An option that a command understands. -/
structure OptionSpec where
  /-- Its name. -/
  name : String
  /-- Its letter. -/
  letter : Option Char := none
  /-- Whether it takes a value; otherwise it is a switch. -/
  takesValue : Bool := true
  deriving DecidableEq, Inhabited

/-- The options that were given, with their values; a switch has an empty one. -/
abbrev GivenOptions := List (String × String)

namespace CommandLine

/-- What an argument is, as far as options go. -/
inductive Argument
  /-- An option, and the value that is attached to it. -/
  | option (spec : OptionSpec) (attached : Option String)
  /-- The end of the options. -/
  | ending
  /-- Not an option. -/
  | plain
  /-- An option that is not understood. -/
  | unknown
  deriving DecidableEq, Inhabited

/-- Splits at the first equals sign. -/
def splitValue (cs : List Char) : String × Option String :=
  match cs.span (· != '=') with
  | (name, _ :: value) => (String.ofList name, some (String.ofList value))
  | (name, []) => (String.ofList name, none)

/-- What follows the letter of an option in the same argument. -/
def attachedValue : List Char → Option String
  | [] => none
  | '=' :: value => some (String.ofList value)
  | value => some (String.ofList value)

/-- The option that `matches` picks out, if any. -/
def optionOr (spec : Option OptionSpec) (attached : Option String) : Argument :=
  match spec with
  | some spec => .option spec attached
  | none => .unknown

/-- Reads one argument. -/
def classify (specs : List OptionSpec) (arg : String) : Argument :=
  match arg.toList with
  | ['-', '-'] => .ending
  | '-' :: '-' :: rest =>
    let (name, attached) := splitValue rest
    optionOr (specs.find? (·.name == name)) attached
  | '-' :: letter :: rest =>
    optionOr (specs.find? (·.letter == some letter)) (attachedValue rest)
  | _ => .plain

/-- Whether an argument can be the value of the option in front of it. -/
def isValue (arg : String) : Bool := arg == "-" || !arg.startsWith "-"

/-- Adds an option to those given, unless it is among them. -/
def give (given : GivenOptions) (spec : OptionSpec) (value : String) : Option GivenOptions :=
  if (given.lookup spec.name).isSome then none else some ((spec.name, value) :: given)

/-- Reads options up to the first argument that is none.  `pending` is the option whose value comes
next.  Gives the options with the arguments left, and whether `--` ended them. -/
def readOptions (specs : List OptionSpec) :
    (given : GivenOptions) → (pending : Option OptionSpec) → List String →
      Option (GivenOptions × List String × Bool)
  | given, none, [] => some (given, [], false)
  | _, some _, [] => none
  | given, some spec, value :: rest =>
    if isValue value then (give given spec value).bind (readOptions specs · none rest) else none
  | given, none, arg :: rest =>
    match classify specs arg with
    | .unknown => none
    | .plain => some (given, arg :: rest, false)
    | .ending => some (given, rest, true)
    | .option spec attached =>
      match spec.takesValue, attached with
      | true, some value => (give given spec value).bind (readOptions specs · none rest)
      | true, none => readOptions specs given (some spec) rest
      | false, none => (give given spec "").bind (readOptions specs · none rest)
      | false, some _ => none

/-- Reads a natural number that fits into a machine word. -/
def readNumber (max : Nat) (text : String) : Option Nat :=
  let digits := match text.toList with
    | '+' :: digits => digits
    | digits => digits
  if digits.isEmpty || !digits.all (·.isDigit) then none
  else
    let n := digits.foldl (fun n c => 10 * n + (c.toNat - '0'.toNat)) 0
    if n ≤ max then some n else none

end CommandLine

end CoreTiming
