/-!
# JSON text

A strict reader for JSON: one value, blanks around it only, no leading zeros, no raw control
characters in strings.  It keeps what a later reading of the value may need: numbers stay as their
digits, and a string that holds half of a surrogate pair is kept as a string without a value,
since only its syntax is sound.

The reader keeps the open brackets on a stack of its own, so that depth is limited by nothing but
the text.  `step` handles one value, bracket or separator and never lengthens what is left to
read, and `run` repeats it until a value is complete.
-/

namespace CoreTiming

/-- A number as it is written. -/
structure JsonNumber where
  /-- Whether it starts with a minus sign. -/
  negative : Bool
  /-- The digits before the point. -/
  whole : List Nat
  /-- The digits after the point, if there is a point. -/
  fraction : Option (List Nat)
  /-- The sign and the digits of the exponent, if there is one. -/
  exponent : Option (Bool × List Nat)
  deriving DecidableEq, Inhabited

/-- A JSON value. -/
inductive Json
  /-- The null value. -/
  | null
  /-- A truth value. -/
  | bool (b : Bool)
  /-- A number. -/
  | number (n : JsonNumber)
  /-- A string, absent if it holds half of a surrogate pair. -/
  | string (s : Option String)
  /-- An array. -/
  | array (elements : List Json)
  /-- An object: its members in order, repeated keys included. -/
  | object (members : List (Option String × Json))
  deriving Inhabited

namespace Json

/-! ## Scanning characters -/

/-- Whether JSON counts `c` as blank. -/
def isBlank (c : Char) : Bool := c == ' ' || c == '\t' || c == '\n' || c == '\r'

/-- The text behind its leading blanks. -/
def skipBlanks (cs : List Char) : List Char := cs.dropWhile isBlank

/-- The value of a decimal digit. -/
def digit? (c : Char) : Option Nat := if c.isDigit then some (c.toNat - '0'.toNat) else none

/-- The value of a hexadecimal digit. -/
def hexDigit? (c : Char) : Option Nat :=
  if c.isDigit then some (c.toNat - '0'.toNat)
  else if 'a' ≤ c ∧ c ≤ 'f' then some (c.toNat - 'a'.toNat + 10)
  else if 'A' ≤ c ∧ c ≤ 'F' then some (c.toNat - 'A'.toNat + 10)
  else none

/-- The leading digits and the text behind them. -/
def digits (cs : List Char) : List Nat × List Char :=
  ((cs.takeWhile Char.isDigit).filterMap digit?, cs.dropWhile Char.isDigit)

/-- The code unit that four hexadecimal digits stand for. -/
def codeUnit? (a b c d : Char) : Option Nat := do
  pure ((((← hexDigit? a) * 16 + (← hexDigit? b)) * 16 + (← hexDigit? c)) * 16 + (← hexDigit? d))

/-- What a simple escape stands for. -/
def escaped? : Char → Option Char
  | '"' => some '"'
  | '\\' => some '\\'
  | '/' => some '/'
  | 'b' => some '\x08'
  | 'f' => some '\x0c'
  | 'n' => some '\n'
  | 'r' => some '\r'
  | 't' => some '\t'
  | _ => none

/-- One element of the inside of a string: a character or a code unit written in hexadecimal. -/
inductive StringPart
  /-- A character that stands for itself. -/
  | char (c : Char)
  /-- A code unit of UTF-16. -/
  | unit (n : Nat)
  deriving DecidableEq

/-- The inside of a string up to its closing quote, behind the parts read so far, latest first; and
the text behind the quote. -/
def stringParts : List Char → List StringPart → Option (List StringPart × List Char)
  | [], _ => none
  | '"' :: rest, parts => some (parts.reverse, rest)
  | '\\' :: 'u' :: a :: b :: c :: d :: rest, parts =>
    match codeUnit? a b c d with
    | some n => stringParts rest (.unit n :: parts)
    | none => none
  | '\\' :: c :: rest, parts =>
    match escaped? c with
    | some c => stringParts rest (.char c :: parts)
    | none => none
  | c :: rest, parts =>
    if c = '\\' ∨ c.toNat < 0x20 then none else stringParts rest (.char c :: parts)

/-- The characters that the parts make up; none if a surrogate stands alone. -/
def joinParts : List StringPart → Option (List Char)
  | [] => some []
  | .char c :: rest => (joinParts rest).map (c :: ·)
  | .unit n :: .unit m :: rest =>
    if 0xD800 ≤ n ∧ n < 0xDC00 then
      if 0xDC00 ≤ m ∧ m < 0xE000 then
        (joinParts rest).map (Char.ofNat (0x10000 + (n - 0xD800) * 0x400 + (m - 0xDC00)) :: ·)
      else none
    else if 0xDC00 ≤ n ∧ n < 0xE000 then none
    else (joinParts (.unit m :: rest)).map (Char.ofNat n :: ·)
  | .unit n :: rest =>
    if 0xD800 ≤ n ∧ n < 0xE000 then none else (joinParts rest).map (Char.ofNat n :: ·)

/-- A string behind its opening quote, and the text behind it. -/
def string? (cs : List Char) : Option (Option String × List Char) := do
  let (parts, rest) ← stringParts cs []
  pure ((joinParts parts).map String.ofList, rest)

/-- The exponent of a number, if one follows. -/
def exponent? : List Char → Option (Option (Bool × List Nat) × List Char)
  | 'e' :: cs | 'E' :: cs =>
    let (negative, cs) := match cs with
      | '+' :: cs => (false, cs)
      | '-' :: cs => (true, cs)
      | cs => (false, cs)
    let (ds, rest) := digits cs
    if ds.isEmpty then none else some (some (negative, ds), rest)
  | cs => some (none, cs)

/-- The fraction of a number, if one follows. -/
def fraction? : List Char → Option (Option (List Nat) × List Char)
  | '.' :: cs =>
    let (ds, rest) := digits cs
    if ds.isEmpty then none else some (some ds, rest)
  | cs => some (none, cs)

/-- A number and the text behind it. -/
def number? (cs : List Char) : Option (JsonNumber × List Char) := do
  let (negative, cs) := match cs with
    | '-' :: cs => (true, cs)
    | cs => (false, cs)
  let (whole, rest) := digits cs
  if whole.isEmpty ∨ (whole.head? = some 0 ∧ whole.length ≠ 1) then none
  let (fraction, rest) ← fraction? rest
  let (exponent, rest) ← exponent? rest
  pure ({ negative, whole, fraction, exponent }, rest)

/-! ## Nesting -/

/-- A bracket that has been opened and what stands inside it so far, latest first. -/
inductive Frame
  /-- An array. -/
  | array (elements : List Json)
  /-- An object, and the key whose value is being read. -/
  | object (members : List (Option String × Json)) (key : Option String)

/-- The inside of an open bracket after one more value. -/
def Frame.put (v : Json) : Frame → Frame
  | .array elements => .array (v :: elements)
  | .object members key => .object ((key, v) :: members) none

/-- The value that an open bracket becomes when `c` closes it. -/
def Frame.close? : Frame → Char → Option Json
  | .array elements, ']' => some (.array elements.reverse)
  | .object members _, '}' => some (.object members.reverse)
  | _, _ => none

/-- What the reader expects next. -/
inductive Expectation
  /-- A value. -/
  | value
  /-- The first member of an object, or its end. -/
  | firstMember
  /-- The first element of an array, or its end. -/
  | firstElement
  /-- A comma or the end of the innermost bracket. -/
  | separator
  /-- Nothing but blanks: the value is complete. -/
  | done (v : Json)

/-- Where the reader stands. -/
structure ReaderState where
  /-- What is left of the text. -/
  rest : List Char
  /-- The open brackets, innermost first. -/
  stack : List Frame
  /-- What comes next. -/
  expects : Expectation

/-- The state after the value `v` has been read. -/
def deliver (v : Json) (stack : List Frame) (rest : List Char) : ReaderState :=
  match stack with
  | [] => { rest, stack := [], expects := .done v }
  | frame :: stack => { rest, stack := frame.put v :: stack, expects := .separator }

/-- A key with its colon, after which a value is expected. -/
def member? (members : List (Option String × Json)) (stack : List Frame) (rest : List Char) :
    Option ReaderState := do
  let (key, rest) ← string? rest
  match skipBlanks rest with
  | ':' :: rest => some { rest, stack := .object members key :: stack, expects := .value }
  | _ => none

/-- Reads a literal word. -/
def word? (word : List Char) (cs : List Char) : Option (List Char) :=
  if word.isPrefixOf cs then some (cs.drop word.length) else none

/-- Reads a value, or opens a bracket. -/
def startValue? (stack : List Frame) : List Char → Option ReaderState
  | '[' :: rest => some { rest, stack := .array [] :: stack, expects := .firstElement }
  | '{' :: rest => some { rest, stack := .object [] none :: stack, expects := .firstMember }
  | '"' :: rest => do
    let (s, rest) ← string? rest
    pure (deliver (.string s) stack rest)
  | cs@('n' :: _) => do pure (deliver .null stack (← word? ['n', 'u', 'l', 'l'] cs))
  | cs@('t' :: _) => do pure (deliver (.bool true) stack (← word? ['t', 'r', 'u', 'e'] cs))
  | cs@('f' :: _) => do pure (deliver (.bool false) stack (← word? ['f', 'a', 'l', 's', 'e'] cs))
  | cs => do
    let (n, rest) ← number? cs
    pure (deliver (.number n) stack rest)

/-- Closes the innermost bracket. -/
def closeFrame? (stack : List Frame) (c : Char) (rest : List Char) : Option ReaderState :=
  match stack with
  | frame :: stack => (frame.close? c).map fun v => deliver v stack rest
  | [] => none

/-- Reads one value, bracket, key or separator. -/
def step (s : ReaderState) : Option ReaderState :=
  let cs := skipBlanks s.rest
  match s.expects with
  | .done _ => none
  | .value => startValue? s.stack cs
  | .firstElement =>
    match cs with
    | ']' :: rest => closeFrame? s.stack ']' rest
    | cs => startValue? s.stack cs
  | .firstMember =>
    match cs with
    | '}' :: rest => closeFrame? s.stack '}' rest
    | '"' :: rest => member? [] s.stack.tail rest
    | _ => none
  | .separator =>
    match cs, s.stack with
    | ',' :: rest, .array elements :: stack =>
      some { rest, stack := .array elements :: stack, expects := .value }
    | ',' :: rest, .object members _ :: stack =>
      match skipBlanks rest with
      | '"' :: rest => member? members stack rest
      | _ => none
    | c :: rest, stack => closeFrame? stack c rest
    | [], _ => none

/-- Runs the reader until a value is complete. -/
def run : Nat → ReaderState → Option (Json × List Char)
  | 0, _ => none
  | fuel + 1, s =>
    match s.expects with
    | .done v => some (v, s.rest)
    | _ =>
      match step s with
      | some s => run fuel s
      | none => none

/-- The value that a text holds. -/
def ofText? (text : String) : Option Json :=
  let cs := text.toList
  match run (cs.length + 2) { rest := cs, stack := [], expects := .value } with
  | some (v, rest) => if (skipBlanks rest).isEmpty then some v else none
  | none => none

end Json

end CoreTiming
