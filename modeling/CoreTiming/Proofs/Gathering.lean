import CoreTiming.Proofs.Chronicle

/-!
# What cycles leave on record

Much of what a window does cannot be told from its state any more when a run is over.  An observer looks at each
cycle of a series of calls and puts what it sees on record, cycle by cycle (`Chronicle.record`).  What every cycle
preserves as it adds to the record, and every other call preserves without, holds of every chronicle and its record
(`Chronicle.induction_record`).
-/

namespace CoreTiming

variable {M β : Type} [MemorySystem M]

/-! ## Section 1: Observers -/

/-- What an observer sees of the cycle that begins with a window. -/
abbrev Window.Observer (M β : Type) := Running → Window M → List β

/-- What is seen of a call of `w`. -/
def Window.Call.record (stride : Window.Stride M) (observe : Window.Observer M β) :
    Window.Call M → (w : Window M) → List β
  | .execute running, w => (Window.cycles stride running Window.lastCycles w).flatMap (observe running)
  | _, _ => []

namespace Chronicle

/-- What is seen of a series of calls. -/
def recordFrom (stride : Window.Stride M) (observe : Window.Observer M β) (c : Chronicle M) :
    List (Window.Call M) → List β
  | [] => []
  | call :: calls =>
    call.record stride observe c.window ++
      match c.after stride call with
      | .ok c' => recordFrom stride observe c' calls
      | .error _ => []

/-- What is seen of a series of calls of a new window. -/
def record (stride : Window.Stride M) (observe : Window.Observer M β) (config : Config)
    (calls : List (Window.Call M)) : List β :=
  match Window.new config with
  | .ok window => recordFrom stride observe { window } calls
  | .error _ => []

/-! ## Section 2: Chronicles with their records -/

variable {config : Config} {stride : Window.Stride M} {observe : Window.Observer M β} {c : Chronicle M}
  {P : List β → Chronicle M → Prop}

section

variable (cycle : ∀ {log : List β} {c : Chronicle M} {running : Running} {v : Window M}, P log c →
    Window.cycle stride running c.window = .ok () v → P (log ++ observe running c.window)
      { c with
        window := v
        retired := fun i => c.retired i ++ Window.leavingInCycle running i c.window })
  (other : ∀ {log : List β} {c c' : Chronicle M} {call : Window.Call M}, P log c → Truthful config c →
    (∀ running, call ≠ .execute running) → c.after stride call = .ok c' → P log c')

include cycle

/-- What every cycle preserves as it adds to the record, a run does. -/
theorem holds_of_run {log : List β} {running : Running} {grace : Nat} {w v : Window M}
    {us : Nat → List OpInstance} {rs : Nat → List Retirement}
    (h : P log { window := w, pushed := us, retired := rs }) (ran : Window.run stride running grace w = .ok () v) :
    P (log ++ (Window.cycles stride running grace w).flatMap (observe running))
      { window := v
        pushed := us
        retired := fun i =>
          rs i ++ (Window.cycles stride running grace w).flatMap (Window.leavingInCycle running i) } := by
  refine Window.induction_run (P := fun ws x => P (log ++ ws.flatMap (observe running))
    { window := x, pushed := us, retired := fun i => rs i ++ ws.flatMap (Window.leavingInCycle running i) })
    ran (by simpa using h) fun before _ cycled => ?_
  simpa [List.flatMap_append] using cycle before cycled

include other

theorem holds_of_after {log : List β} {call : Window.Call M} {c' : Chronicle M} (h : P log c)
    (truthful : Truthful config c) (made : c.after stride call = .ok c') :
    P (log ++ call.record stride observe c.window) c' := by
  by_cases runs : ∃ running, call = .execute running
  · obtain ⟨running, rfl⟩ := runs
    obtain ⟨v, performed, rfl⟩ := after_eq_ok.mp made
    have ran := holds_of_run (P := P) cycle h performed
    simpa [Window.Call.takesIn, Window.Call.letsOut, Window.Call.record] using ran
  · have idle : ∀ running, call ≠ .execute running := fun running same => runs ⟨running, same⟩
    have nothing : call.record stride observe c.window = [] := by
      cases call with
      | execute running => exact absurd rfl (idle running)
      | _ => rfl
    rw [nothing, List.append_nil]
    exact other h truthful idle made

theorem holds_of_foldlM {log : List β} {calls : List (Window.Call M)} {c' : Chronicle M} (h : P log c)
    (truthful : Truthful config c) (made : calls.foldlM (after stride) c = .ok c') :
    P (log ++ c.recordFrom stride observe calls) c' := by
  induction calls generalizing c log with
  | nil =>
    cases made
    rw [recordFrom, List.append_nil]
    exact h
  | cons call others ih =>
    obtain ⟨c₁, first, made⟩ := Except.bind_eq_ok.mp made
    have rest := ih (holds_of_after (P := P) cycle other h truthful first) (truthful_after truthful first) made
    rw [recordFrom, first, ← List.append_assoc]
    exact rest

/-- What holds of a new window and the empty record, and goes on to hold with every cycle and every other call, holds
of every chronicle and its record. -/
theorem induction_record (new : ∀ w, Window.new config = .ok w → P [] { window := w })
    {calls : List (Window.Call M)} (made : of stride config calls = .ok c) :
    P (record stride observe config calls) c := by
  obtain ⟨w, first, made⟩ := Except.bind_eq_ok.mp made
  unfold record
  rw [first]
  exact holds_of_foldlM (P := P) cycle other (new w first) (truthful_new first) made

end

end Chronicle

end CoreTiming
