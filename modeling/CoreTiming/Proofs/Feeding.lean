import CoreTiming.Proofs.AbreastCycles

/-!
# What happens between cycles

Between cycles the owner of a window pushes micro-ops, collects latencies and marks the ends of streams.
None of this shows in the window: micro-ops that were to come are buffered now, and that is all.  So windows
abreast stay so when such a call is made of one of them.
-/

namespace CoreTiming

open Faulting

/-! ## Section 1: Threads -/

/-- The micro-op as it is buffered, if its instruction is fetched from a memory that answers `a`. -/
def OpInstance.asFetched (a : Answers) (period : Period) (u : OpInstance) : OpInstance :=
  if u.op.first && u.fetchHit == .l1i then
    let served := a.instruction u.op.ip Window.fetchBytes
    if served.hit = .l1i then u
    else
      match served.latency.divideRounded period.length with
      | .ok cycles => u.missFetch served.hit cycles
      | .error _ => u
  else u

namespace Thread

/-- The thread has gone on from `th` to `th₁` at most in that it has been told something, and in that
micro-ops that were to come are buffered now. -/
structure Onward (rest rest₁ : List OpInstance) (time : Time) (th th₁ : Thread) : Prop where
  /-- The window is as it was. -/
  frame : ∃ ring nextSeq now reported endOfStream stats,
    th₁ = { th with ring, nextSeq, now, reported, endOfStream, stats }
  /-- The same micro-ops are in flight and to come. -/
  lineup : th₁.lineup rest₁ = th.lineup rest
  /-- No cycle has been charged. -/
  cpi : th₁.stats.cpi = th.stats.cpi
  /-- The thread is as sound as it was. -/
  expecting : th.Expecting rest time → th₁.Expecting rest₁ time

variable {s : Shift} {rest rest' rest₁ rest₂ : List OpInstance} {time : Time} {th th' th₁ th₂ : Thread}

theorem Onward.refl (rest : List OpInstance) (time : Time) (th : Thread) : th.Onward rest rest time th :=
  ⟨⟨_, _, _, _, _, _, rfl⟩, rfl, rfl, id⟩

theorem Onward.trans (h : th.Onward rest rest₁ time th₁) (h' : th₁.Onward rest₁ rest₂ time th₂) :
    th.Onward rest rest₂ time th₂ := by
  obtain ⟨⟨_, _, _, _, _, _, rfl⟩, lineup, cpi, expecting⟩ := h
  obtain ⟨⟨_, _, _, _, _, _, rfl⟩, lineup', cpi', expecting'⟩ := h'
  exact ⟨⟨_, _, _, _, _, _, rfl⟩, lineup'.trans lineup, cpi'.trans cpi,
    fun h => expecting' (expecting h)⟩

theorem Abreast.left_onward (h : Abreast s rest rest' time th th') (onward : th.Onward rest rest₁ time th₁) :
    Abreast s rest₁ rest' time th₁ th' := by
  obtain ⟨⟨_, _, _, _, _, _, rfl⟩, lineup, cpi, expecting⟩ := onward
  refine { h with lineup := ?_, cpi := h.cpi.trans cpi.symm, left := expecting h.left }
  rw [lineup]
  exact h.lineup

theorem Abreast.right_onward {rest₁' : List OpInstance} {th₁' : Thread}
    (h : Abreast s rest rest' time th th') (onward : th'.Onward rest' rest₁' time th₁') :
    Abreast s rest rest₁' time th th₁' := by
  obtain ⟨⟨_, _, _, _, _, _, rfl⟩, lineup, cpi, expecting⟩ := onward
  refine { h with lineup := ?_, cpi := cpi.trans h.cpi, right := expecting h.right }
  rw [lineup]
  exact h.lineup

/-- The next micro-op is buffered. -/
theorem onward_enqueue {lane : Nat} {u : OpInstance}
    (h : Window.enqueue lane u th = .ok () th₁) : th.Onward (u :: rest) rest time th₁ := by
  obtain ⟨frame, ring, counted, bound⟩ := Window.enqueue_eq_ok h
  refine ⟨⟨_, _, _, _, _, _, frame⟩, ?_, ?_, fun sound => ?_⟩
  · unfold lineup
    rw [frame]
    dsimp only
    rw [ring]
    simp [List.mapIdx_cons, Nat.add_assoc, Nat.add_comm 1]
  · rw [counted]
    rfl
  · have length : th₁.ring.length = th.ring.length + 1 := by
      rw [← Ring.length_toList, ring, List.length_append, Ring.length_toList]
      rfl
    have inside := sound.inside
    rw [frame]
    refine { sound with inside := ?_, numbered := ?_, unlinked := ?_, ends := ?_ }
    · show th.inWindow ≤ th₁.ring.length
      omega
    · intro e mem
      have listed : e ∈ th₁.ring.toList := mem
      rw [ring] at listed
      rcases List.mem_append.mp listed with old | new
      · exact sound.numbered e old
      · rw [List.mem_singleton.mp new, Entry.seq_new]
        unfold noSeq
        omega
    · exact fun v mem => sound.unlinked v (List.mem_cons_of_mem _ mem)
    · intro ended
      have none := sound.ends ended
      cases none

end Thread

/-! ## Section 2: Lanes -/

/-- The thread has gone on, and memory still gives the answers `a`. -/
structure Lane.Onward {M : Type} [MemorySystem M] (a : Answers) (rest rest₁ : List OpInstance)
    (time : Time) (l l₁ : Lane M) : Prop where
  /-- The thread has gone on. -/
  thread : l.thread.Onward rest rest₁ time l₁.thread
  /-- Memory answers as before. -/
  memory : a.Govern l.memory → a.Govern l₁.memory

namespace Lane

variable {M : Type} [MemorySystem M] {a : Answers} {rest rest' rest₁ rest₂ : List OpInstance}
  {time : Time} {l l' l₁ l₂ : Lane M} {period : Period} {i : Nat}

theorem Onward.refl (rest : List OpInstance) (time : Time) (l : Lane M) :
    l.Onward a rest rest time l :=
  ⟨.refl _ _ _, id⟩

theorem Onward.trans (h : l.Onward a rest rest₁ time l₁) (h' : l₁.Onward a rest₁ rest₂ time l₂) :
    l.Onward a rest rest₂ time l₂ :=
  ⟨h.thread.trans h'.thread, fun governed => h'.memory (h.memory governed)⟩

theorem Abreast.left_onward (h : l.Abreast a rest rest' time l')
    (onward : l.Onward a rest rest₁ time l₁) : l₁.Abreast a rest₁ rest' time l' := by
  obtain ⟨s, threads⟩ := h.threads
  exact ⟨⟨s, threads.left_onward onward.thread⟩, onward.memory h.memory, h.memory'⟩

theorem Abreast.right_onward {rest₁' : List OpInstance} {l₁' : Lane M}
    (h : l.Abreast a rest rest' time l') (onward : l'.Onward a rest' rest₁' time l₁') :
    l.Abreast a rest rest₁' time l₁' := by
  obtain ⟨s, threads⟩ := h.threads
  exact ⟨⟨s, threads.right_onward onward.thread⟩, h.memory, onward.memory h.memory'⟩

/-- A fetch gives the answer of memory. -/
theorem fetch_asFetched {u u' : OpInstance} (governed : a.Govern l.memory)
    (h : Window.fetch period u l = .ok u' l₁) : u' = u.asFetched a period ∧ a.Govern l₁.memory := by
  unfold OpInstance.asFetched
  cases Window.fetches_of_fetch h with
  | settled known =>
    rw [if_neg known]
    exact ⟨rfl, governed⟩
  | hit asks answered hit =>
    obtain ⟨rfl, later⟩ := governed.fetch answered
    rw [if_pos asks, if_pos hit]
    exact ⟨rfl, later⟩
  | miss asks answered miss rounded =>
    obtain ⟨rfl, later⟩ := governed.fetch answered
    rw [if_pos asks, if_neg miss, rounded]
    exact ⟨rfl, later⟩

/-- What is pushed is buffered, unless it is squashed. -/
theorem onward_pushOne {u : OpInstance} (predictor : l.thread.predictor = none)
    (governed : a.Govern l.memory) (h : Window.pushOne period i u l = .ok () l₁) :
    l.Onward a (([u].filter (!·.squashed)).map (·.asFetched a period) ++ rest) rest time l₁ := by
  rcases Window.pushOne_eq_ok h with ⟨squashed, rfl⟩ | ⟨squashed, u', l₂, th, fetched, queued, rfl⟩
  · rw [List.filter_singleton, squashed]
    exact .refl _ _ _
  · obtain ⟨-, thread⟩ := Window.fetch_eq_ok fetched
    obtain ⟨rfl, later⟩ := fetch_asFetched governed fetched
    have checked : ∀ u, Window.checkPrediction none u = u := fun _ => rfl
    rw [thread, predictor, checked] at queued
    rw [List.filter_singleton, squashed]
    exact ⟨Thread.onward_enqueue queued, fun _ => later⟩

theorem onward_pushes {us : List OpInstance} (predictor : l.thread.predictor = none)
    (governed : a.Govern l.memory) (h : us.forM (Window.pushOne period i) l = .ok () l₁) :
    l.Onward a ((us.filter (!·.squashed)).map (·.asFetched a period) ++ rest) rest time l₁ := by
  induction us generalizing l with
  | nil =>
    obtain ⟨-, rfl⟩ := pure_eq_ok.mp h
    exact .refl _ _ _
  | cons u us ih =>
    obtain ⟨⟨⟩, l₂, first, h⟩ := bind_eq_ok.mp h
    have step : l.Onward a (([u].filter (!·.squashed)).map (·.asFetched a period)
        ++ ((us.filter (!·.squashed)).map (·.asFetched a period) ++ rest))
        ((us.filter (!·.squashed)).map (·.asFetched a period) ++ rest) time l₂ :=
      onward_pushOne predictor governed first
    have kept : l₂.thread.predictor = none := by
      obtain ⟨⟨_, _, _, _, _, _, frame⟩, -, -, -⟩ := step.thread
      rw [frame]
      exact predictor
    have steps := step.trans (ih kept (step.memory governed) h)
    rw [← List.singleton_append, List.filter_append, List.map_append, List.append_assoc]
    exact steps

end Lane

/-! ## Section 3: Windows -/

namespace Window

variable {M : Type} [MemorySystem M] {answers : Nat → Answers}
  {rests rests' rests₁ : Nat → List OpInstance} {time : Time} {w v w₁ v₁ : Window M} {i : Nat}

/-- Every lane has gone on at most. -/
structure Onward (answers : Nat → Answers) (rests rests₁ : Nat → List OpInstance) (time : Time)
    (w w₁ : Window M) : Prop where
  /-- Nothing but lanes has changed. -/
  frame : w₁ = { w with lanes := w₁.lanes }
  /-- Every lane has gone on. -/
  lanes : ∀ i : Nat,
    Option.Rel (Lane.Onward (answers i) (rests i) (rests₁ i) time) w.lanes[i]? w₁.lanes[i]?

theorem Abreast.left_onward (h : Abreast (LanesAbreast answers rests rests' time) w v)
    (onward : Onward answers rests rests₁ time w w₁) :
    Abreast (LanesAbreast answers rests₁ rests' time) w₁ v := by
  refine ⟨?_, fun i => ?_⟩
  · rw [onward.frame]
    exact h.frame
  · have before := h.lanes i
    have step := onward.lanes i
    generalize w.lanes[i]? = o at before step
    generalize w₁.lanes[i]? = o₁ at step
    generalize v.lanes[i]? = o' at before
    cases step with
    | none =>
      cases before with
      | none => exact .none
    | some step =>
      cases before with
      | some before => exact .some (Lane.Abreast.left_onward before step)

theorem Abreast.right_onward {rests₁' : Nat → List OpInstance}
    (h : Abreast (LanesAbreast answers rests rests' time) w v)
    (onward : Onward answers rests' rests₁' time v v₁) :
    Abreast (LanesAbreast answers rests rests₁' time) w v₁ := by
  refine ⟨?_, fun i => ?_⟩
  · rw [onward.frame, h.frame]
  · refine rel_trans (fun _ _ _ before => ?_) (h.lanes i) (onward.lanes i)
    exact before.right_onward

/-- One lane goes on, the others stay as they are. -/
theorem onward_setLane {l l₁ : Lane M} (found : w.lanes[i]? = some l)
    (others : ∀ j, j ≠ i → rests₁ j = rests j)
    (onward : l.Onward (answers i) (rests i) (rests₁ i) time l₁) :
    Onward answers rests rests₁ time w { w with lanes := w.lanes.setIfInBounds i l₁ } := by
  refine ⟨rfl, fun j => ?_⟩
  dsimp only
  by_cases here : i = j
  · subst here
    rw [getElem?_setLane found, found]
    exact .some onward
  · rw [Array.getElem?_setIfInBounds_ne here, others j (Ne.symm here)]
    exact rel_refl (fun l => .refl _ _ l) _

/-! ## Section 4: Calls that run no cycle -/

/-- The call feeds threads or asks about them, but runs no cycle. -/
def Call.Feeds : Call M → Prop
  | .push _ _ => True
  | .returnLatency _ _ => True
  | .markEndOfStream _ => True
  | _ => False

/-- The micro-ops `later` as they will be buffered. -/
def toCome (answers : Nat → Answers) (period : Period) (later : Nat → List OpInstance) (i : Nat) :
    List OpInstance :=
  (later i).map (·.asFetched (answers i) period)

/-- A call that runs no cycle only buffers what it hands over. -/
theorem Call.onward {stride : Stride M} {call : Call M} {later : Nat → List OpInstance}
    (h : call.perform stride w = .ok () w₁) (feeds : call.Feeds)
    (ends : ∀ i, call = .markEndOfStream i → later i = []) (intime : w.clock.now ≤ time)
    (sound : ∀ i l, w.lanes[i]? = some l →
      l.thread.predictor = none ∧ (answers i).Govern l.memory) :
    Onward answers (toCome answers w.clock.period fun i => call.takesIn i ++ later i)
      (toCome answers w.clock.period later) time w w₁ := by
  cases call with
  | push i us =>
    obtain ⟨l, l₁, found, ran, rfl⟩ := push_eq_ok h
    obtain ⟨predictor, governed⟩ := sound i l found
    refine onward_setLane found ?_ ?_
    · intro j hj
      simp only [toCome, Call.takesIn, if_neg (Ne.symm hj), List.nil_append]
    · simp only [toCome, Call.takesIn, if_true, List.map_append]
      exact Lane.onward_pushes predictor governed ran
  | returnLatency i inWakeup =>
    obtain ⟨l, found, rfl⟩ := modifyThread_eq_ok.mp (Call.told_of_returnLatency h)
    refine onward_setLane found (fun _ _ => rfl) ⟨⟨⟨_, _, _, _, _, _, rfl⟩, rfl, rfl, ?_⟩, id⟩
    intro sound
    refine { sound with intime := ?_ }
    dsimp only
    split
    · exact sound.intime
    · exact max_le sound.intime intime
  | markEndOfStream i =>
    have marked : modifyThread i (fun th => { th with endOfStream := true }) w = .ok () w₁ := h
    obtain ⟨l, found, rfl⟩ := modifyThread_eq_ok.mp marked
    refine onward_setLane found (fun _ _ => rfl) ⟨⟨⟨_, _, _, _, _, _, rfl⟩, rfl, rfl, ?_⟩, id⟩
    intro sound
    refine { sound with ends := fun _ => ?_ }
    unfold toCome
    rw [ends i rfl]
    rfl
  | initializeThread i memory predictor => exact absurd feeds id
  | execute running => exact absurd feeds id
  | synchronize i time => exact absurd feeds id
  | repartition running => exact absurd feeds id

end Window

end CoreTiming
