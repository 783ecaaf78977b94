import CoreTiming.Config.Basic
import CoreTiming.Json.Number

/-!
# Reading a configuration

A configuration is an overlay: it starts as the default and every field that the text names
replaces one value.  A section may be written as an object, whose unknown members are ignored, or
as the array of its fields in order, which may stop early.  A section that is named starts from
its own defaults.

`Field` describes one field of a section, and `readSection` reads any section from the list of its
fields.  A section is rejected as soon as one of its fields is, if a known field is repeated, or if
an array is too long.
-/

namespace CoreTiming

/-- A field of a section of type `σ`: its name, and how its value changes the section. -/
structure Field (σ : Type) where
  /-- The name of the field. -/
  name : String
  /-- Reads the value and stores it. -/
  read : Json → Option (σ → σ)

namespace Field

variable {σ : Type}

/-- Applies the members of an object; `seen` holds the known names met so far. -/
def applyMembers (fields : List (Field σ)) :
    List (Option String × Json) → List String → σ → Option σ
  | [], _, s => some s
  | (none, _) :: _, _, _ => none
  | (some key, value) :: rest, seen, s =>
    match fields.find? (·.name == key) with
    | none => applyMembers fields rest seen s
    | some field =>
      if seen.contains key then none
      else
        match field.read value with
        | some set => applyMembers fields rest (key :: seen) (set s)
        | none => none

/-- Applies the elements of an array to the fields in order. -/
def applyElements : List (Field σ) → List Json → σ → Option σ
  | _, [], s => some s
  | [], _ :: _, _ => none
  | field :: fields, value :: rest, s =>
    match field.read value with
    | some set => applyElements fields rest (set s)
    | none => none

/-- Reads a section over `initial`. -/
def readSection (fields : List (Field σ)) (initial : σ) : Json → Option σ
  | .object members => applyMembers fields members [] initial
  | .array elements => applyElements fields elements initial
  | _ => none

/-! ## Kinds of values -/

/-- A field that holds an unsigned word. -/
def word (name : String) (set : Nat → σ → σ) : Field σ :=
  ⟨name, fun
    | .number n => n.toWord?.map set
    | _ => none⟩

/-- A field that holds a double. -/
def float (name : String) (set : Float → σ → σ) : Field σ :=
  ⟨name, fun
    | .number n => n.toFloat?.map set
    | _ => none⟩

/-- A field that holds a truth value. -/
def flag (name : String) (set : Bool → σ → σ) : Field σ :=
  ⟨name, fun
    | .bool b => some (set b)
    | _ => none⟩

/-- A field that holds one of the named choices: the name, or an object with the name as its only
key and null as its value. -/
def choice {τ : Type} (name : String) (choices : List (String × τ)) (set : τ → σ → σ) : Field σ :=
  ⟨name, fun
    | .string (some s) => (choices.lookup s).map set
    | .object [(some s, .null)] => (choices.lookup s).map set
    | _ => none⟩

/-- A field that holds a section. -/
def nested {τ : Type} (name : String) (fields : List (Field τ)) (initial : τ) (set : τ → σ → σ) :
    Field σ :=
  ⟨name, fun value => (readSection fields initial value).map set⟩

end Field

/-! ## The sections -/

/-- The fields of the table of costs. -/
def CostTable.fields : List (Field CostTable) :=
  [ .word "generic" fun v s => { s with generic := v },
    .word "add" fun v s => { s with add := v },
    .word "sub" fun v s => { s with sub := v },
    .word "mul" fun v s => { s with mul := v },
    .word "div" fun v s => { s with div := v },
    .word "fadd" fun v s => { s with fadd := v },
    .word "fsub" fun v s => { s with fsub := v },
    .word "fmul" fun v s => { s with fmul := v },
    .word "fdiv" fun v s => { s with fdiv := v },
    .word "jmp" fun v s => { s with jmp := v },
    .word "branch" fun v s => { s with branch := v } ]

/-- The names of the timing models. -/
def ModelKind.choices : List (String × ModelKind) :=
  [("Simple", .simple), ("Magic", .magic), ("Iocoom", .iocoom), ("IOCOOM", .iocoom),
    ("RobSmt", .robSmt)]

/-- The names of the replacement policies. -/
def ReplacementKind.choices : List (String × ReplacementKind) :=
  [("LRU", .lru), ("Lru", .lru), ("FIFO", .fifo), ("Fifo", .fifo)]

/-- The names of the predictors. -/
def PredictorKind.choices : List (String × PredictorKind) :=
  [("None", .none), ("Static", .static), ("GShare", .gshare)]

/-- The fields of the core section. -/
def CoreConfig.fields : List (Field CoreConfig) :=
  [ .float "frequency_ghz" fun v s => { s with frequencyGhz := v },
    .choice "model" ModelKind.choices fun v s => { s with model := v },
    .word "smt_threads" fun v s => { s with smtThreads := v },
    .word "dispatch_width" fun v s => { s with dispatchWidth := v },
    .word "window_size" fun v s => { s with windowSize := v },
    .word "long_latency_cutoff" fun v s => { s with longLatencyCutoff := v },
    .nested "instruction_costs" CostTable.fields {} fun v s => { s with instructionCosts := v } ]

/-- The fields of the window section. -/
def WindowConfig.fields : List (Field WindowConfig) :=
  [ .word "commit_width" fun v s => { s with commitWidth := v },
    .word "rs_entries" fun v s => { s with stations := v },
    .word "outstanding_loads" fun v s => { s with outstandingLoads := v },
    .word "outstanding_stores" fun v s => { s with outstandingStores := v },
    .flag "store_to_load_forwarding" fun v s => { s with forwarding := v },
    .flag "address_disambiguation" fun v s => { s with disambiguation := v },
    .flag "in_order" fun v s => { s with inOrder := v },
    .flag "rob_repartition" fun v s => { s with repartition := v },
    .flag "simultaneous_issue" fun v s => { s with simultaneousIssue := v },
    .flag "mlp_histogram" fun v s => { s with loadHistogram := v },
    .flag "commit_log" fun v s => { s with commitLog := v } ]

/-- The fields of the in-order section. -/
def InOrderConfig.fields : List (Field InOrderConfig) :=
  [ .word "num_store_buffer_entries" fun v s => { s with storeBufferEntries := v },
    .word "num_outstanding_loads" fun v s => { s with outstandingLoads := v } ]

/-- The fields of the branch prediction section. -/
def PredictorConfig.fields : List (Field PredictorConfig) :=
  [ .choice "kind" PredictorKind.choices fun v s => { s with kind := v },
    .word "mispredict_penalty" fun v s => { s with penalty := v },
    .word "btb_size" fun v s => { s with targetBufferSize := v } ]

/-- The fields of a cache. -/
def CacheConfig.fields : List (Field CacheConfig) :=
  [ .flag "enabled" fun v s => { s with enabled := v },
    .word "size_bytes" fun v s => { s with sizeBytes := v },
    .word "line_bytes" fun v s => { s with lineBytes := v },
    .word "ways" fun v s => { s with ways := v },
    .choice "policy" ReplacementKind.choices fun v s => { s with policy := v },
    .word "latency" fun v s => { s with latency := v } ]

/-- The fields of the memory section. -/
def MemoryConfig.fields : List (Field MemoryConfig) :=
  [ .nested "l1_i" CacheConfig.fields {} fun v s => { s with l1i := v },
    .nested "l1_d" CacheConfig.fields {} fun v s => { s with l1d := v },
    .nested "l2" CacheConfig.fields {} fun v s => { s with l2 := v },
    .nested "l3" CacheConfig.fields {} fun v s => { s with l3 := v },
    .word "dram_latency" fun v s => { s with dramLatency := v } ]

/-- The fields of a configuration. -/
def Config.fields : List (Field Config) :=
  [ .nested "core" CoreConfig.fields {} fun v s => { s with core := v },
    .nested "rob_timer" WindowConfig.fields {} fun v s => { s with window := v },
    .nested "iocoom" InOrderConfig.fields {} fun v s => { s with inOrder := v },
    .nested "branch_predictor" PredictorConfig.fields {} fun v s => { s with predictor := v },
    .nested "memory" MemoryConfig.fields {} fun v s => { s with memory := v } ]

/-! ## Texts and files -/

/-- The section that a text holds. -/
def Field.ofText? {σ : Type} (fields : List (Field σ)) (initial : σ) (text : String) : Option σ :=
  (Json.ofText? text).bind (readSection fields initial)

/-- The cache that a text describes, without any check of its geometry. -/
def CacheConfig.ofText (text : String) : Except ConfigError CacheConfig :=
  match Field.ofText? CacheConfig.fields {} text with
  | some c => .ok c
  | none => .error .malformed

/-- The configuration that a text describes, if it can be used. -/
def Config.ofText (text : String) : Except ConfigError Config := do
  match Field.ofText? Config.fields {} text with
  | some c => c.validate; pure c
  | none => .error .malformed

/-- The configuration in a file, given its bytes if it could be opened. -/
def Config.ofBytes : Option ByteArray → Except ConfigError Config
  | none => .error .unreadable
  | some bytes =>
    match String.fromUTF8? bytes with
    | some text => Config.ofText text
    | none => .error .unreadable

end CoreTiming
