import CoreTiming.Config.Reader
import CoreTiming.Proofs.Outcome

/-!
# A configuration is an overlay

A text names some of the values of a configuration and leaves out the others.  `Config.overlay` says what a text
makes of a configuration: every value that it names is the one that it gives, at any depth, and every other value is
as it was.

The reader goes through the members of a section in the order of the text (`Field.applyMembers`); what it stores for
one field no other field changes, so that what comes out is what the text gives for each field on its own
(`Field.Views.leaf_of_read`).

A section that is named starts from its own defaults.  For most sections these are the ones that the configuration
as a whole has for them, but a cache that is described on its own is disabled and has the geometry of a first level,
while the default has three caches enabled and a larger second level.  So what is read is an overlay on the default
exactly where each cache that is named comes with the values in which the two differ (`Config.overlay_of_text`).
-/

namespace CoreTiming

/-! ## Section 1: What a text names -/

namespace Json

/-- The fields that a section names, with what it gives for them; the fields of the section are `names` in order. -/
def given (names : List String) : Json → List (String × Json)
  | .object members => members.filterMap fun (key, value) => key.map (·, value)
  | .array elements => names.zip elements
  | _ => []

/-- What a section gives for its field `name`, if it names it. -/
def field? (names : List String) (name : String) (json : Json) : Option Json := (json.given names).lookup name

/-- What becomes of the part `name` of a section: `put` makes it of what the section gives for it and of what it was,
and it stays as it was if the section does not name it. -/
def part {τ : Type} (names : List String) (name : String) (put : Json → τ → Option τ) (old : τ) (json : Json) :
    Option τ :=
  (json.field? names name).elim (some old) fun value => put value old

/-- What becomes of the value `name` of a section: what the section gives for it, or what it was. -/
def leaf {τ : Type} (names : List String) (name : String) (read : Json → Option τ) (old : τ) (json : Json) :
    Option τ :=
  json.part names name (fun value _ => read value) old

/-- The unsigned word that a value is. -/
def asWord? : Json → Option Nat
  | .number n => n.toWord?
  | _ => none

/-- The double that a value is. -/
def asFloat? : Json → Option Float
  | .number n => n.toFloat?
  | _ => none

/-- The truth value that a value is. -/
def asFlag? : Json → Option Bool
  | .bool b => some b
  | _ => none

/-- The choice that a value names. -/
def asChoice? {τ : Type} (choices : List (String × τ)) : Json → Option τ
  | .string (some s) => choices.lookup s
  | .object [(some s, .null)] => choices.lookup s
  | _ => none

end Json

/-! ## Section 2: What one field changes -/

namespace Field

variable {σ τ : Type} {get : σ → τ} {set : τ → σ → σ} {read : Json → Option τ} {name : String}

/-- The field stores what `read` makes of its value, and `get` shows it. -/
def Shows (f : Field σ) (get : σ → τ) (read : Json → Option τ) : Prop :=
  ∀ value change, f.read value = some change → ∀ s, read value = some (get (change s))

/-- The field does not change what `get` shows. -/
def Keeps (f : Field σ) (get : σ → τ) : Prop :=
  ∀ value change, f.read value = some change → ∀ s, get (change s) = get s

/-- A field that stores what `read` makes of its value by `set` shows it. -/
theorem shows_of_stored {f : Field σ} (stored : ∀ value, f.read value = (read value).map set)
    (shown : ∀ x s, get (set x s) = x) : f.Shows get read := by
  intro value change h s
  rw [stored, Option.map_eq_some_iff] at h
  obtain ⟨x, given, rfl⟩ := h
  rw [given, shown]

/-- A field that stores what `read` makes of its value by `set` keeps what `set` keeps. -/
theorem keeps_of_stored {υ : Type} {get : σ → υ} {f : Field σ} (stored : ∀ value, f.read value = (read value).map set)
    (kept : ∀ x s, get (set x s) = get s) : f.Keeps get := by
  intro value change h s
  rw [stored, Option.map_eq_some_iff] at h
  obtain ⟨x, -, rfl⟩ := h
  exact kept x s

theorem read_word {set : Nat → σ → σ} (value : Json) : (word name set).read value = (Json.asWord? value).map set := by
  cases value <;> rfl

theorem read_float {set : Float → σ → σ} (value : Json) :
    (float name set).read value = (Json.asFloat? value).map set := by
  cases value <;> rfl

theorem read_flag {set : Bool → σ → σ} (value : Json) : (flag name set).read value = (Json.asFlag? value).map set := by
  cases value <;> rfl

theorem read_choice {choices : List (String × τ)} (value : Json) :
    (choice name choices set).read value = (value.asChoice? choices).map set := by
  unfold choice Json.asChoice?
  grind

section Kinds

variable {υ : Type} {view : σ → υ} {choices : List (String × τ)} {parts : List (Field τ)} {own : τ}

@[simp] theorem name_word {set : Nat → σ → σ} : (word name set).name = name := rfl

@[simp] theorem name_float {set : Float → σ → σ} : (float name set).name = name := rfl

@[simp] theorem name_flag {set : Bool → σ → σ} : (flag name set).name = name := rfl

@[simp] theorem name_choice : (choice name choices set).name = name := rfl

@[simp] theorem name_nested : (nested name parts own set).name = name := rfl

@[simp] theorem shows_word {get : σ → Nat} {set : Nat → σ → σ} (shown : ∀ x s, get (set x s) = x) :
    (word name set).Shows get Json.asWord? :=
  shows_of_stored read_word shown

@[simp] theorem keeps_word {set : Nat → σ → σ} (kept : ∀ x s, view (set x s) = view s) : (word name set).Keeps view :=
  keeps_of_stored read_word kept

@[simp] theorem shows_float {get : σ → Float} {set : Float → σ → σ} (shown : ∀ x s, get (set x s) = x) :
    (float name set).Shows get Json.asFloat? :=
  shows_of_stored read_float shown

@[simp] theorem keeps_float {set : Float → σ → σ} (kept : ∀ x s, view (set x s) = view s) :
    (float name set).Keeps view :=
  keeps_of_stored read_float kept

@[simp] theorem shows_flag {get : σ → Bool} {set : Bool → σ → σ} (shown : ∀ x s, get (set x s) = x) :
    (flag name set).Shows get Json.asFlag? :=
  shows_of_stored read_flag shown

@[simp] theorem keeps_flag {set : Bool → σ → σ} (kept : ∀ x s, view (set x s) = view s) : (flag name set).Keeps view :=
  keeps_of_stored read_flag kept

@[simp] theorem shows_choice (shown : ∀ x s, get (set x s) = x) :
    (choice name choices set).Shows get (Json.asChoice? choices) :=
  shows_of_stored read_choice shown

@[simp] theorem keeps_choice (kept : ∀ x s, view (set x s) = view s) : (choice name choices set).Keeps view :=
  keeps_of_stored read_choice kept

@[simp] theorem shows_nested (shown : ∀ x s, get (set x s) = x) :
    (nested name parts own set).Shows get (readSection parts own) :=
  shows_of_stored (fun _ => rfl) shown

@[simp] theorem keeps_nested (kept : ∀ x s, view (set x s) = view s) : (nested name parts own set).Keeps view :=
  keeps_of_stored (fun _ => rfl) kept

end Kinds

/-! ## Section 3: What a section changes -/

/-- What `get` shows of a section is what its field `name` holds, and no other field changes it. -/
structure Views (fields : List (Field σ)) (name : String) (get : σ → τ) (read : Json → Option τ) : Prop where
  /-- There is such a field. -/
  known : name ∈ fields.map Field.name
  /-- It is what the field holds. -/
  own : ∀ f ∈ fields, f.name = name → f.Shows get read
  /-- The other fields do not change it. -/
  others : ∀ f ∈ fields, f.name ≠ name → f.Keeps get

variable {fields : List (Field σ)} {s t initial : σ}

/-- A field that an array gives no element does not change. -/
theorem kept_of_applyElements {elements : List Json} (others : ∀ f ∈ fields, f.Keeps get)
    (h : applyElements fields elements s = some t) : get t = get s := by
  induction fields generalizing elements s with
  | nil =>
    cases elements with
    | nil => rw [Option.some.inj h]
    | cons value rest => cases h
  | cons f fields ih =>
    cases elements with
    | nil => rw [Option.some.inj h]
    | cons value rest =>
      unfold applyElements at h
      split at h
      · rename_i change changed
        rw [ih (fun g mem => others g (List.mem_cons_of_mem f mem)) h]
        exact others f List.mem_cons_self value change changed s
      · cases h

/-- What the elements of an array make of the fields in order. -/
theorem leaf_of_applyElements {elements : List Json} (distinct : (fields.map Field.name).Nodup)
    (own : ∀ f ∈ fields, f.name = name → f.Shows get read) (others : ∀ f ∈ fields, f.name ≠ name → f.Keeps get)
    (h : applyElements fields elements s = some t) :
    (((fields.map Field.name).zip elements).lookup name).elim (some (get s)) read = some (get t) := by
  induction fields generalizing elements s with
  | nil =>
    cases elements with
    | nil => rw [Option.some.inj h]; rfl
    | cons value rest => cases h
  | cons f fields ih =>
    cases elements with
    | nil => rw [Option.some.inj h]; rfl
    | cons value rest =>
      unfold applyElements at h
      split at h
      · rename_i change changed
        rw [List.map_cons, List.nodup_cons] at distinct
        rw [List.map_cons, List.zip_cons_cons]
        by_cases named : f.name = name
        · -- the later fields have other names
          rw [named, List.lookup_cons_self]
          have later : get t = get (change s) :=
            kept_of_applyElements
              (fun g mem => others g (List.mem_cons_of_mem f mem) fun same =>
                distinct.1 (named.trans same.symm ▸ List.mem_map_of_mem mem)) h
          rw [later]
          exact own f List.mem_cons_self named value change changed s
        · have skipped : (name == f.name) = false := beq_eq_false_iff_ne.mpr (Ne.symm named)
          rw [List.lookup_cons, skipped]
          have rest := ih distinct.2 (fun g mem => own g (List.mem_cons_of_mem f mem))
            (fun g mem => others g (List.mem_cons_of_mem f mem)) h
          rwa [others f List.mem_cons_self named value change changed s] at rest
      · cases h

/-- What the members of an object make of a field; none of them is known from before. -/
theorem Views.leaf_of_applyMembers (views : Views fields name get read) {members : List (Option String × Json)}
    {seen : List String} (h : applyMembers fields members seen s = some t) :
    ((members.filterMap fun (key, value) => key.map (·, value)).lookup name).elim (some (get s)) read =
        some (get t) ∧
      (name ∈ seen → get t = get s) := by
  -- the induction is on the members, with the names met so far and the section so far
  induction members generalizing seen s with
  | nil =>
    cases h
    exact ⟨rfl, fun _ => rfl⟩
  | cons member rest ih =>
    obtain ⟨key, value⟩ := member
    cases key with
    | none => cases h
    | some key =>
      unfold applyMembers at h
      have first : ((some key, value) :: rest).filterMap (fun (key, value) => key.map (·, value)) =
          (key, value) :: rest.filterMap fun (key, value) => key.map (·, value) := rfl
      rw [first]
      split at h
      · rename_i unknown
        have other : (name == key) = false := by
          rw [beq_eq_false_iff_ne]
          rintro rfl
          obtain ⟨f, mem, named⟩ := List.mem_map.mp views.known
          exact List.find?_eq_none.mp unknown f mem (beq_iff_eq.mpr named)
        rw [List.lookup_cons, other]
        exact ih h
      · rename_i f found
        split at h
        · cases h
        · rename_i fresh
          split at h
          · rename_i change changed
            have mem : f ∈ fields := List.mem_of_find?_eq_some found
            have keyed : f.name = key := by simpa using List.find?_some found
            obtain ⟨rest, settled⟩ := ih h
            by_cases named : key = name
            · -- the name is not given again, so that the value stays
              subst named
              rw [List.lookup_cons_self]
              refine ⟨?_, fun met => absurd (List.contains_iff_mem.mpr met) fresh⟩
              rw [settled List.mem_cons_self]
              exact views.own f mem keyed value change changed s
            · have skipped : (name == key) = false := beq_eq_false_iff_ne.mpr (Ne.symm named)
              have kept : get (change s) = get s :=
                views.others f mem (fun same => named (keyed.symm.trans same)) value change changed s
              rw [List.lookup_cons, skipped]
              rw [kept] at rest settled
              exact ⟨rest, fun met => settled (List.mem_cons_of_mem key met)⟩
          · cases h

/-- A section that is read has for a field what the text gives for it, or what it had. -/
theorem Views.leaf_of_read (views : Views fields name get read) (distinct : (fields.map Field.name).Nodup)
    {json : Json} (h : readSection fields initial json = some s) :
    json.leaf (fields.map Field.name) name read (get initial) = some (get s) := by
  cases json with
  | object members => exact (views.leaf_of_applyMembers h).1
  | array elements => exact leaf_of_applyElements distinct views.own views.others h
  | null => cases h
  | bool b => cases h
  | number n => cases h
  | string text => cases h

/-- The same for a part that is a section itself: it is put over `old`, which is what the part starts from. -/
theorem part_of_read (parts : List (Field τ)) (own : τ) {old : τ} {put : Json → τ → Option τ}
    (views : Views fields name get (readSection parts own)) (distinct : (fields.map Field.name).Nodup)
    {json : Json} (h : readSection fields initial json = some s)
    (puts : ∀ value x, json.field? (fields.map Field.name) name = some value →
      readSection parts own value = some x → put value old = some x)
    (start : json.field? (fields.map Field.name) name = none → old = get initial) :
    json.part (fields.map Field.name) name put old = some (get s) := by
  have taken := views.leaf_of_read distinct h
  unfold Json.leaf Json.part at taken
  unfold Json.part
  cases named : json.field? (fields.map Field.name) name with
  | some value =>
    rw [named] at taken
    exact puts value (get s) named taken
  | none =>
    rw [named] at taken
    rw [start named]
    exact taken

end Field

/-! ## Section 4: Configurations under a text -/

/-- The names of the costs. -/
def CostTable.names : List String := CostTable.fields.map Field.name

/-- What a text makes of the costs. -/
def CostTable.overlay (json : Json) (base : CostTable) : Option CostTable := do
  pure { generic := ← json.leaf names "generic" Json.asWord? base.generic
         add := ← json.leaf names "add" Json.asWord? base.add
         sub := ← json.leaf names "sub" Json.asWord? base.sub
         mul := ← json.leaf names "mul" Json.asWord? base.mul
         div := ← json.leaf names "div" Json.asWord? base.div
         fadd := ← json.leaf names "fadd" Json.asWord? base.fadd
         fsub := ← json.leaf names "fsub" Json.asWord? base.fsub
         fmul := ← json.leaf names "fmul" Json.asWord? base.fmul
         fdiv := ← json.leaf names "fdiv" Json.asWord? base.fdiv
         jmp := ← json.leaf names "jmp" Json.asWord? base.jmp
         branch := ← json.leaf names "branch" Json.asWord? base.branch }

/-- The names of the values of a core. -/
def CoreConfig.names : List String := CoreConfig.fields.map Field.name

/-- What a text makes of a core. -/
def CoreConfig.overlay (json : Json) (base : CoreConfig) : Option CoreConfig := do
  pure { frequencyGhz := ← json.leaf names "frequency_ghz" Json.asFloat? base.frequencyGhz
         model := ← json.leaf names "model" (Json.asChoice? ModelKind.choices) base.model
         smtThreads := ← json.leaf names "smt_threads" Json.asWord? base.smtThreads
         dispatchWidth := ← json.leaf names "dispatch_width" Json.asWord? base.dispatchWidth
         windowSize := ← json.leaf names "window_size" Json.asWord? base.windowSize
         longLatencyCutoff := ← json.leaf names "long_latency_cutoff" Json.asWord? base.longLatencyCutoff
         instructionCosts := ← json.part names "instruction_costs" CostTable.overlay base.instructionCosts }

/-- The names of the values of the window. -/
def WindowConfig.names : List String := WindowConfig.fields.map Field.name

/-- What a text makes of the window. -/
def WindowConfig.overlay (json : Json) (base : WindowConfig) : Option WindowConfig := do
  pure { commitWidth := ← json.leaf names "commit_width" Json.asWord? base.commitWidth
         stations := ← json.leaf names "rs_entries" Json.asWord? base.stations
         outstandingLoads := ← json.leaf names "outstanding_loads" Json.asWord? base.outstandingLoads
         outstandingStores := ← json.leaf names "outstanding_stores" Json.asWord? base.outstandingStores
         forwarding := ← json.leaf names "store_to_load_forwarding" Json.asFlag? base.forwarding
         disambiguation := ← json.leaf names "address_disambiguation" Json.asFlag? base.disambiguation
         inOrder := ← json.leaf names "in_order" Json.asFlag? base.inOrder
         repartition := ← json.leaf names "rob_repartition" Json.asFlag? base.repartition
         simultaneousIssue := ← json.leaf names "simultaneous_issue" Json.asFlag? base.simultaneousIssue
         loadHistogram := ← json.leaf names "mlp_histogram" Json.asFlag? base.loadHistogram
         commitLog := ← json.leaf names "commit_log" Json.asFlag? base.commitLog }

/-- The names of the values of the in-order model. -/
def InOrderConfig.names : List String := InOrderConfig.fields.map Field.name

/-- What a text makes of the in-order model. -/
def InOrderConfig.overlay (json : Json) (base : InOrderConfig) : Option InOrderConfig := do
  pure { storeBufferEntries := ← json.leaf names "num_store_buffer_entries" Json.asWord? base.storeBufferEntries
         outstandingLoads := ← json.leaf names "num_outstanding_loads" Json.asWord? base.outstandingLoads }

/-- The names of the values of branch prediction. -/
def PredictorConfig.names : List String := PredictorConfig.fields.map Field.name

/-- What a text makes of branch prediction. -/
def PredictorConfig.overlay (json : Json) (base : PredictorConfig) : Option PredictorConfig := do
  pure { kind := ← json.leaf names "kind" (Json.asChoice? PredictorKind.choices) base.kind
         penalty := ← json.leaf names "mispredict_penalty" Json.asWord? base.penalty
         targetBufferSize := ← json.leaf names "btb_size" Json.asWord? base.targetBufferSize }

/-- The names of the values of a cache. -/
def CacheConfig.names : List String := CacheConfig.fields.map Field.name

/-- What a text makes of a cache. -/
def CacheConfig.overlay (json : Json) (base : CacheConfig) : Option CacheConfig := do
  pure { enabled := ← json.leaf names "enabled" Json.asFlag? base.enabled
         sizeBytes := ← json.leaf names "size_bytes" Json.asWord? base.sizeBytes
         lineBytes := ← json.leaf names "line_bytes" Json.asWord? base.lineBytes
         ways := ← json.leaf names "ways" Json.asWord? base.ways
         policy := ← json.leaf names "policy" (Json.asChoice? ReplacementKind.choices) base.policy
         latency := ← json.leaf names "latency" Json.asWord? base.latency }

/-- The names of the parts of the memory hierarchy. -/
def MemoryConfig.names : List String := MemoryConfig.fields.map Field.name

/-- What a text makes of the memory hierarchy. -/
def MemoryConfig.overlay (json : Json) (base : MemoryConfig) : Option MemoryConfig := do
  pure { l1i := ← json.part names "l1_i" CacheConfig.overlay base.l1i
         l1d := ← json.part names "l1_d" CacheConfig.overlay base.l1d
         l2 := ← json.part names "l2" CacheConfig.overlay base.l2
         l3 := ← json.part names "l3" CacheConfig.overlay base.l3
         dramLatency := ← json.leaf names "dram_latency" Json.asWord? base.dramLatency }

/-- The names of the sections of a configuration. -/
def Config.names : List String := Config.fields.map Field.name

/-- What a text makes of a configuration: `base` with every value that the text names replaced by what it gives. -/
def Config.overlay (json : Json) (base : Config) : Option Config := do
  pure { core := ← json.part names "core" CoreConfig.overlay base.core
         window := ← json.part names "rob_timer" WindowConfig.overlay base.window
         inOrder := ← json.part names "iocoom" InOrderConfig.overlay base.inOrder
         predictor := ← json.part names "branch_predictor" PredictorConfig.overlay base.predictor
         memory := ← json.part names "memory" MemoryConfig.overlay base.memory }

/-! ## Section 5: What the reader starts from -/

/-- The memory hierarchy that a text is read over: each cache that it names is one on its own. -/
def MemoryConfig.basis (json : Json) : MemoryConfig :=
  let start (name : String) (whole : CacheConfig) : CacheConfig :=
    (json.field? names name).elim whole fun _ => {}
  let whole : MemoryConfig := {}
  { whole with
    l1i := start "l1_i" whole.l1i
    l1d := start "l1_d" whole.l1d
    l2 := start "l2" whole.l2 }

/-- The configuration that a text is read over. -/
def Config.basis (json : Json) : Config :=
  { memory := (json.field? names "memory").elim {} MemoryConfig.basis }

section Reading

variable {json : Json}

/-- A chain whose first value is `a`. -/
theorem Option.bind_of_eq_some {α β : Type} {x : Option α} {f : α → Option β} {a : α} {b : β} (first : x = some a)
    (rest : f a = some b) : (x >>= f) = some b := by
  rw [first]
  exact rest

theorem CostTable.overlay_of_read {base c : CostTable} (h : Field.readSection CostTable.fields base json = some c) :
    CostTable.overlay json base = some c := by
  unfold overlay
  refine Option.bind_of_eq_some (a := c.generic) ?_ <| Option.bind_of_eq_some (a := c.add) ?_ <|
    Option.bind_of_eq_some (a := c.sub) ?_ <| Option.bind_of_eq_some (a := c.mul) ?_ <|
    Option.bind_of_eq_some (a := c.div) ?_ <| Option.bind_of_eq_some (a := c.fadd) ?_ <|
    Option.bind_of_eq_some (a := c.fsub) ?_ <| Option.bind_of_eq_some (a := c.fmul) ?_ <|
    Option.bind_of_eq_some (a := c.fdiv) ?_ <| Option.bind_of_eq_some (a := c.jmp) ?_ <|
    Option.bind_of_eq_some (a := c.branch) ?_ rfl
  all_goals exact Field.Views.leaf_of_read ⟨by decide, by simp [fields], by simp [fields]⟩ (by decide) h

theorem CoreConfig.overlay_of_read {base c : CoreConfig} (costs : base.instructionCosts = {})
    (h : Field.readSection CoreConfig.fields base json = some c) : CoreConfig.overlay json base = some c := by
  unfold overlay
  refine Option.bind_of_eq_some (a := c.frequencyGhz) ?_ <| Option.bind_of_eq_some (a := c.model) ?_ <|
    Option.bind_of_eq_some (a := c.smtThreads) ?_ <| Option.bind_of_eq_some (a := c.dispatchWidth) ?_ <|
    Option.bind_of_eq_some (a := c.windowSize) ?_ <| Option.bind_of_eq_some (a := c.longLatencyCutoff) ?_ <|
    Option.bind_of_eq_some (a := c.instructionCosts) ?_ rfl
  case refine_7 =>
    rw [costs]
    exact Field.part_of_read CostTable.fields {} ⟨by decide, by simp [fields], by simp [fields]⟩ (by decide) h
      (fun _ _ _ read => CostTable.overlay_of_read read) fun _ => costs.symm
  all_goals exact Field.Views.leaf_of_read ⟨by decide, by simp [fields], by simp [fields]⟩ (by decide) h

theorem WindowConfig.overlay_of_read {base c : WindowConfig}
    (h : Field.readSection WindowConfig.fields base json = some c) : WindowConfig.overlay json base = some c := by
  unfold overlay
  refine Option.bind_of_eq_some (a := c.commitWidth) ?_ <| Option.bind_of_eq_some (a := c.stations) ?_ <|
    Option.bind_of_eq_some (a := c.outstandingLoads) ?_ <| Option.bind_of_eq_some (a := c.outstandingStores) ?_ <|
    Option.bind_of_eq_some (a := c.forwarding) ?_ <| Option.bind_of_eq_some (a := c.disambiguation) ?_ <|
    Option.bind_of_eq_some (a := c.inOrder) ?_ <| Option.bind_of_eq_some (a := c.repartition) ?_ <|
    Option.bind_of_eq_some (a := c.simultaneousIssue) ?_ <| Option.bind_of_eq_some (a := c.loadHistogram) ?_ <|
    Option.bind_of_eq_some (a := c.commitLog) ?_ rfl
  all_goals exact Field.Views.leaf_of_read ⟨by decide, by simp [fields], by simp [fields]⟩ (by decide) h

theorem InOrderConfig.overlay_of_read {base c : InOrderConfig}
    (h : Field.readSection InOrderConfig.fields base json = some c) : InOrderConfig.overlay json base = some c := by
  unfold overlay
  refine Option.bind_of_eq_some (a := c.storeBufferEntries) ?_ <|
    Option.bind_of_eq_some (a := c.outstandingLoads) ?_ rfl
  all_goals exact Field.Views.leaf_of_read ⟨by decide, by simp [fields], by simp [fields]⟩ (by decide) h

theorem PredictorConfig.overlay_of_read {base c : PredictorConfig}
    (h : Field.readSection PredictorConfig.fields base json = some c) : PredictorConfig.overlay json base = some c := by
  unfold overlay
  refine Option.bind_of_eq_some (a := c.kind) ?_ <| Option.bind_of_eq_some (a := c.penalty) ?_ <|
    Option.bind_of_eq_some (a := c.targetBufferSize) ?_ rfl
  all_goals exact Field.Views.leaf_of_read ⟨by decide, by simp [fields], by simp [fields]⟩ (by decide) h

theorem CacheConfig.overlay_eq_some {base c : CacheConfig} :
    CacheConfig.overlay json base = some c ↔
      json.leaf names "enabled" Json.asFlag? base.enabled = some c.enabled ∧
      json.leaf names "size_bytes" Json.asWord? base.sizeBytes = some c.sizeBytes ∧
      json.leaf names "line_bytes" Json.asWord? base.lineBytes = some c.lineBytes ∧
      json.leaf names "ways" Json.asWord? base.ways = some c.ways ∧
      json.leaf names "policy" (Json.asChoice? ReplacementKind.choices) base.policy = some c.policy ∧
      json.leaf names "latency" Json.asWord? base.latency = some c.latency := by
  cases c
  simp only [overlay, Option.bind_eq_bind, Option.bind_eq_some_iff, Option.pure_def, Option.some.injEq, mk.injEq]
  grind

theorem CacheConfig.overlay_of_read {base c : CacheConfig}
    (h : Field.readSection CacheConfig.fields base json = some c) : CacheConfig.overlay json base = some c := by
  rw [overlay_eq_some]
  refine ⟨?_, ?_, ?_, ?_, ?_, ?_⟩
  all_goals exact Field.Views.leaf_of_read ⟨by decide, by simp [fields], by simp [fields]⟩ (by decide) h

theorem MemoryConfig.overlay_eq_some {base c : MemoryConfig} :
    MemoryConfig.overlay json base = some c ↔
      json.part names "l1_i" CacheConfig.overlay base.l1i = some c.l1i ∧
      json.part names "l1_d" CacheConfig.overlay base.l1d = some c.l1d ∧
      json.part names "l2" CacheConfig.overlay base.l2 = some c.l2 ∧
      json.part names "l3" CacheConfig.overlay base.l3 = some c.l3 ∧
      json.leaf names "dram_latency" Json.asWord? base.dramLatency = some c.dramLatency := by
  cases c
  simp only [overlay, Option.bind_eq_bind, Option.bind_eq_some_iff, Option.pure_def, Option.some.injEq, mk.injEq]
  grind

/-- A memory hierarchy that is read is an overlay on its basis. -/
theorem MemoryConfig.overlay_of_read {c : MemoryConfig} (h : Field.readSection MemoryConfig.fields {} json = some c) :
    MemoryConfig.overlay json (MemoryConfig.basis json) = some c := by
  rw [overlay_eq_some]
  refine ⟨?_, ?_, ?_, ?_, ?_⟩
  case refine_5 =>
    change json.leaf names "dram_latency" Json.asWord? ({} : MemoryConfig).dramLatency = some c.dramLatency
    exact Field.Views.leaf_of_read ⟨by decide, by simp [fields], by simp [fields]⟩ (by decide) h
  all_goals
    refine Field.part_of_read CacheConfig.fields {} ⟨by decide, by simp [fields], by simp [fields]⟩ (by decide) h ?_ ?_
    · intro value cache named read
      -- a cache that is named starts from what a cache on its own has
      simp only [basis, names, named, Option.elim_some]
      exact CacheConfig.overlay_of_read read
    · intro omitted
      simp only [basis, names, omitted, Option.elim_none]

theorem Config.overlay_eq_some {base c : Config} :
    Config.overlay json base = some c ↔
      json.part names "core" CoreConfig.overlay base.core = some c.core ∧
      json.part names "rob_timer" WindowConfig.overlay base.window = some c.window ∧
      json.part names "iocoom" InOrderConfig.overlay base.inOrder = some c.inOrder ∧
      json.part names "branch_predictor" PredictorConfig.overlay base.predictor = some c.predictor ∧
      json.part names "memory" MemoryConfig.overlay base.memory = some c.memory := by
  cases c
  simp only [overlay, Option.bind_eq_bind, Option.bind_eq_some_iff, Option.pure_def, Option.some.injEq, mk.injEq]
  grind

/-- A configuration that is read is an overlay on its basis. -/
theorem Config.overlay_of_read {c : Config} (h : Field.readSection Config.fields {} json = some c) :
    Config.overlay json (Config.basis json) = some c := by
  have distinct : (Config.fields.map Field.name).Nodup := by decide
  rw [overlay_eq_some]
  refine ⟨?core, ?window, ?inOrder, ?predictor, ?memory⟩
  case core =>
    exact Field.part_of_read CoreConfig.fields {} ⟨by decide, by simp [fields], by simp [fields]⟩ distinct h
      (fun _ _ _ read => CoreConfig.overlay_of_read rfl read) fun _ => rfl
  case window =>
    exact Field.part_of_read WindowConfig.fields {} ⟨by decide, by simp [fields], by simp [fields]⟩ distinct h
      (fun _ _ _ read => WindowConfig.overlay_of_read read) fun _ => rfl
  case inOrder =>
    exact Field.part_of_read InOrderConfig.fields {} ⟨by decide, by simp [fields], by simp [fields]⟩ distinct h
      (fun _ _ _ read => InOrderConfig.overlay_of_read read) fun _ => rfl
  case predictor =>
    exact Field.part_of_read PredictorConfig.fields {} ⟨by decide, by simp [fields], by simp [fields]⟩ distinct h
      (fun _ _ _ read => PredictorConfig.overlay_of_read read) fun _ => rfl
  case memory =>
    refine Field.part_of_read MemoryConfig.fields {} ⟨by decide, by simp [fields], by simp [fields]⟩ distinct h ?_ ?_
    · intro value memory named read
      simp only [basis, names, named, Option.elim_some]
      exact MemoryConfig.overlay_of_read read
    · intro omitted
      simp only [basis, names, omitted, Option.elim_none]

/-! ## Section 6: Where the basis is the default -/

/-- A section names its field `name`. -/
def Json.Names (names : List String) (name : String) (json : Json) : Prop := (json.field? names name).isSome

/-- A value is the same over another section if the text gives it or the two sections agree on it. -/
theorem Json.leaf_other {τ : Type} {names : List String} {name : String} {read : Json → Option τ} {old other x : τ}
    (h : json.leaf names name read old = some x) :
    json.leaf names name read other = some x ↔ json.Names names name ∨ other = old := by
  unfold leaf part at h ⊢
  unfold Names
  cases given : json.field? names name with
  | some value =>
    rw [given] at h
    simpa using h
  | none =>
    rw [given] at h
    obtain rfl : old = x := Option.some.inj h
    simp

/-- A text that names one of the three enabled caches gives the values in which it differs from a cache on its own. -/
structure MemoryConfig.Complete (json : Json) : Prop where
  /-- The first level for instructions is enabled. -/
  l1i : ∀ cache, json.field? names "l1_i" = some cache → cache.Names CacheConfig.names "enabled"
  /-- The first level for data is enabled. -/
  l1d : ∀ cache, json.field? names "l1_d" = some cache → cache.Names CacheConfig.names "enabled"
  /-- The second level is enabled, larger and slower. -/
  l2 : ∀ cache, json.field? names "l2" = some cache →
    cache.Names CacheConfig.names "enabled" ∧ cache.Names CacheConfig.names "size_bytes" ∧
      cache.Names CacheConfig.names "latency"

/-- What comes of a first level does not depend on where it starts from if the text says whether it is enabled. -/
theorem CacheConfig.overlay_first {c : CacheConfig} (h : CacheConfig.overlay json {} = some c) :
    CacheConfig.overlay json { enabled := true } = some c ↔ json.Names names "enabled" := by
  rw [overlay_eq_some] at h
  obtain ⟨enabled, rest⟩ := h
  rw [overlay_eq_some, Json.leaf_other enabled]
  simp [rest]

/-- The same for a second level, which has also a size and a latency of its own. -/
theorem CacheConfig.overlay_second {c : CacheConfig} (h : CacheConfig.overlay json {} = some c) :
    CacheConfig.overlay json { enabled := true, sizeBytes := 262144, latency := 8 } = some c ↔
      json.Names names "enabled" ∧ json.Names names "size_bytes" ∧ json.Names names "latency" := by
  rw [overlay_eq_some] at h
  obtain ⟨enabled, size, line, ways, policy, latency⟩ := h
  rw [overlay_eq_some, Json.leaf_other enabled, Json.leaf_other size, Json.leaf_other latency]
  simp [line, ways, policy]

/-- A cache that starts from what it is in the default is the one that is read if it is not named, or if what the text
gives for it is `enough`. -/
theorem MemoryConfig.cache_default {name : String} {whole c : CacheConfig} {enough : Json → Prop}
    (each : ∀ {cache c}, CacheConfig.overlay cache {} = some c →
      (CacheConfig.overlay cache whole = some c ↔ enough cache))
    (h : json.part names name CacheConfig.overlay ((json.field? names name).elim whole fun _ => {}) = some c) :
    json.part names name CacheConfig.overlay whole = some c ↔
      ∀ cache, json.field? names name = some cache → enough cache := by
  unfold Json.part at h ⊢
  cases named : json.field? names name with
  | some cache =>
    rw [named] at h
    rw [Option.elim_some, each h]
    simp
  | none =>
    rw [named] at h
    simpa using h

theorem MemoryConfig.overlay_default {c : MemoryConfig} (h : MemoryConfig.overlay json (basis json) = some c) :
    MemoryConfig.overlay json {} = some c ↔ Complete json := by
  rw [overlay_eq_some] at h
  obtain ⟨l1i, l1d, l2, l3, dram⟩ := h
  rw [overlay_eq_some, cache_default CacheConfig.overlay_first l1i, cache_default CacheConfig.overlay_first l1d,
    cache_default CacheConfig.overlay_second l2]
  constructor
  · rintro ⟨first, data, second, -⟩
    exact ⟨first, data, second⟩
  · rintro ⟨first, data, second⟩
    exact ⟨first, data, second, l3, dram⟩

/-- Where the text names the memory hierarchy, it describes the enabled caches that it names in full. -/
def Config.Complete (json : Json) : Prop :=
  ∀ memory, json.field? names "memory" = some memory → MemoryConfig.Complete memory

theorem Config.overlay_default {c : Config} (h : Config.overlay json (basis json) = some c) :
    Config.overlay json {} = some c ↔ Complete json := by
  rw [overlay_eq_some] at h
  obtain ⟨core, window, inOrder, predictor, memory⟩ := h
  rw [overlay_eq_some]
  change _ ∧ _ ∧ _ ∧ _ ∧ json.part names "memory" MemoryConfig.overlay {} = _ ↔ _
  have memories : json.part names "memory" MemoryConfig.overlay {} = some c.memory ↔ Complete json := by
    change json.part names "memory" MemoryConfig.overlay
      ((json.field? names "memory").elim {} MemoryConfig.basis) = some c.memory at memory
    unfold Complete
    unfold Json.part at memory ⊢
    cases named : json.field? names "memory" with
    | some value =>
      rw [named] at memory
      rw [Option.elim_some, MemoryConfig.overlay_default memory]
      simp
    | none =>
      rw [named] at memory
      simpa using memory
  rw [memories]
  exact ⟨fun h => h.2.2.2.2, fun complete => ⟨core, window, inOrder, predictor, complete⟩⟩

end Reading

/-! ## Section 7: Texts -/

namespace Config

variable {text : String} {json : Json} {c : Config}

/-- What a text that is accepted holds is read as a section. -/
theorem read_of_text (parsed : Json.ofText? text = some json) (accepted : Config.ofText text = .ok c) :
    Field.readSection Config.fields {} json = some c := by
  unfold Config.ofText Field.ofText? at accepted
  rw [parsed, Option.bind_some] at accepted
  split at accepted
  · rename_i c' read
    obtain ⟨-, -, same⟩ := Except.bind_eq_ok.mp accepted
    rw [read, Except.pure_eq_ok.mp same]
  · cases accepted

/-- A configuration that is accepted is an overlay: every value that the text names is the one that it gives, and every
other one is that of the basis.  It is an overlay on the default exactly where the text describes each enabled cache
that it names with the values in which a cache on its own differs. -/
theorem overlay_of_text (parsed : Json.ofText? text = some json) (accepted : Config.ofText text = .ok c) :
    Config.overlay json (Config.basis json) = some c ∧ (Config.overlay json {} = some c ↔ Config.Complete json) := by
  have laid := overlay_of_read (read_of_text parsed accepted)
  exact ⟨laid, overlay_default laid⟩

theorem ofText_of_computed (computed : (Config.ofText text).toOption = some c) : Config.ofText text = .ok c := by
  cases read : Config.ofText text with
  | ok c' =>
    rw [read] at computed
    rw [Option.some.inj computed]
  | error e =>
    rw [read] at computed
    cases computed

/-- A text that describes the second level in full, and changes the core. -/
def secondLevel : String :=
  "\x7b \"core\": \x7b \"window_size\": 64 \x7d, \"memory\": \x7b \"l2\": \x7b \"enabled\": true, " ++
    "\"size_bytes\": 131072, \"latency\": 6 \x7d, \"l3\": \x7b \"latency\": 30 \x7d \x7d \x7d"

/-- What it describes. -/
def secondLevelConfig : Config :=
  { core := { windowSize := 64 }
    memory := { l2 := { enabled := true, sizeBytes := 131072, latency := 6 }, l3 := { latency := 30 } } }

theorem overlay_of_second_level :
    ∃ json, Json.ofText? secondLevel = some json ∧ Config.ofText secondLevel = .ok secondLevelConfig ∧
      Config.overlay json (Config.basis json) = some secondLevelConfig ∧ Config.Complete json := by
  have accepted : Config.ofText secondLevel = .ok secondLevelConfig := ofText_of_computed (by decide +kernel)
  have computed : (Json.ofText? secondLevel).map (Config.overlay · {}) = some (some secondLevelConfig) := by
    decide +kernel
  obtain ⟨json, parsed, laid⟩ := Option.map_eq_some_iff.mp computed
  obtain ⟨based, complete⟩ := overlay_of_text parsed accepted
  exact ⟨json, parsed, accepted, based, complete.mp laid⟩

/-- A text that changes the latency of the second level only. -/
def slowSecondLevel : String := "\x7b \"memory\": \x7b \"l2\": \x7b \"latency\": 20 \x7d \x7d \x7d"

/-- The text leaves out whether the second level is enabled and how large it is, and what is read has neither as the
default has it. -/
theorem slow_second_level_not_overlay :
    ∃ json c, Json.ofText? slowSecondLevel = some json ∧ Config.ofText slowSecondLevel = .ok c ∧
      c.memory.l2 = { enabled := false, sizeBytes := 32768, latency := 20 } ∧
      ({} : Config).memory.l2 = { enabled := true, sizeBytes := 262144, latency := 8 } ∧
      Config.overlay json {} = some { memory := { l2 := { enabled := true, sizeBytes := 262144, latency := 20 } } } ∧
      Config.overlay json {} ≠ some c := by
  have accepted : Config.ofText slowSecondLevel = .ok { memory := { l2 := { latency := 20 } } } :=
    ofText_of_computed (by decide +kernel)
  have computed : (Json.ofText? slowSecondLevel).map (Config.overlay · {}) =
      some (some { memory := { l2 := { enabled := true, sizeBytes := 262144, latency := 20 } } }) := by
    decide +kernel
  obtain ⟨json, parsed, laid⟩ := Option.map_eq_some_iff.mp computed
  refine ⟨json, _, parsed, accepted, rfl, rfl, laid, fun same => ?_⟩
  rw [laid] at same
  have levels := congrArg (fun c : Config => c.memory.l2.enabled) (Option.some.inj same)
  cases levels

end Config

end CoreTiming
