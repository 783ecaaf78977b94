import CoreTiming.Decimal.Shortest

/-!
# Documents

A `Document` is a tree of values that is to be written out, in one of two layouts: as indented
JSON, or as a listing that shows the names of records and enumerated values as they are.
-/

namespace CoreTiming

/-- A value to be written out. -/
inductive Document
  /-- The absence of a value. -/
  | null
  /-- A truth value. -/
  | flag (b : Bool)
  /-- An integer. -/
  | number (n : Int)
  /-- A binary64 number. -/
  | real (x : Float)
  /-- A text. -/
  | text (s : String)
  /-- One of an enumeration. -/
  | choice (name : String)
  /-- Several values. -/
  | list (elements : List Document)
  /-- Named values, under the name of the kind of record. -/
  | record (name : String) (fields : List (String × Document))
  deriving Inhabited

namespace Document

instance : Coe Bool Document := ⟨.flag⟩
instance : Coe Nat Document := ⟨fun n => .number n⟩
instance : Coe Float Document := ⟨.real⟩
instance : Coe String Document := ⟨.text⟩

/-- A character inside a quoted string. -/
def quoteChar (c : Char) : String :=
  match c with
  | '"' => "\\\""
  | '\\' => "\\\\"
  | '\n' => "\\n"
  | '\r' => "\\r"
  | '\t' => "\\t"
  | '\x08' => "\\b"
  | '\x0c' => "\\f"
  | c =>
    if c.toNat < 0x20 then
      "\\u00" ++ (if c.toNat < 0x10 then "0" else "") ++ String.ofList (Nat.toDigits 16 c.toNat)
    else c.toString

/-- A text between quotes. -/
def quote (s : String) : String := "\"" ++ String.join (s.toList.map quoteChar) ++ "\""

/-- The beginning of a line at a depth, `width` blanks for each level. -/
def indent (width depth : Nat) : String :=
  "\n" ++ String.ofList (List.replicate (width * depth) ' ')

/-- Items between brackets, each on a line of its own. -/
def bracketed (opening closing : String) (depth : Nat) (items : List String) : String :=
  if items.isEmpty then opening ++ closing
  else
    opening ++ ",".intercalate (items.map (indent 2 (depth + 1) ++ ·)) ++ indent 2 depth ++ closing

mutual

/-- A document as indented JSON, at some depth. -/
def jsonAt (depth : Nat) : Document → String
  | .null => "null"
  | .flag b => toString b
  | .number n => toString n
  | .real x => Decimal.inspect x
  | .text s => quote s
  | .choice name => quote name
  | .list elements => bracketed "[" "]" depth (jsonElements (depth + 1) elements)
  | .record _ fields => bracketed "\x7b" "\x7d" depth (jsonFields (depth + 1) fields)

/-- The elements of a list, each as JSON. -/
def jsonElements (depth : Nat) : List Document → List String
  | [] => []
  | d :: rest => jsonAt depth d :: jsonElements depth rest

/-- The fields of a record, each as JSON behind its key. -/
def jsonFields (depth : Nat) : List (String × Document) → List String
  | [] => []
  | (key, d) :: rest => (quote key ++ ": " ++ jsonAt depth d) :: jsonFields depth rest

end

/-- A document as indented JSON. -/
def json (d : Document) : String := jsonAt 0 d

mutual

/-- A document as a listing, at some depth. -/
def listingAt (depth : Nat) : Document → String
  | .null => "None"
  | .flag b => toString b
  | .number n => toString n
  | .real x => Decimal.inspect x
  | .text s => quote s
  | .choice name => name
  | .list elements =>
    "[" ++ String.join (listingElements (depth + 1) elements) ++ indent 4 depth ++ "]"
  | .record name fields =>
    name ++ " \x7b" ++ String.join (listingFields (depth + 1) fields) ++ indent 4 depth ++ "\x7d"

/-- The elements of a list, each on a line of its own. -/
def listingElements (depth : Nat) : List Document → List String
  | [] => []
  | d :: rest => (indent 4 depth ++ listingAt depth d ++ ",") :: listingElements depth rest

/-- The fields of a record, each on a line of its own. -/
def listingFields (depth : Nat) : List (String × Document) → List String
  | [] => []
  | (key, d) :: rest =>
    (indent 4 depth ++ key ++ ": " ++ listingAt depth d ++ ",") :: listingFields depth rest

end

/-- A document as a listing. -/
def listing (d : Document) : String := listingAt 0 d

end Document

end CoreTiming
