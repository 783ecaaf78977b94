import CoreTiming.Proofs.Lockstep

/-!
# Threads that differ only in what time was charged to

A thread keeps account of where the time went: why dispatch stopped, what the present cycle is charged
to, what past ones were charged to.  None of this decides what happens to a micro-op.  Threads that
differ in nothing else are alike, and stay so whatever is done with them.
-/

namespace CoreTiming

open Faulting

/-! ## Section 1: Charges -/

/-- What a thread keeps of where its time went, and the long loads by which it explains a stall. -/
structure Charges where
  /-- Why dispatch stopped. -/
  stall : Option Cause
  /-- What the present cycle is charged to. -/
  cause : Cause
  /-- Long loads in flight. -/
  longLoads : List LongLoad
  /-- What past cycles were charged to. -/
  cpi : CpiStack
  /-- Time by the number of outstanding loads. -/
  loadHistogram : Array Time

/-- The counters with other charges. -/
def ThreadStats.recharge (c : Charges) (s : ThreadStats) : ThreadStats :=
  { s with cpi := c.cpi, loadHistogram := c.loadHistogram }

/-- The counters `s`, whose stack is `cpi`, and the same counters with the charges `c`. -/
def ThreadStats.Recharged (c : Charges) (cpi : CpiStack) (s s' : ThreadStats) : Prop :=
  s' = s.recharge c ∧ s.cpi = cpi

/-- The thread with other charges. -/
def Thread.recharge (c : Charges) (th : Thread) : Thread :=
  { th with
    stall := c.stall
    cause := c.cause
    longLoads := c.longLoads
    stats := th.stats.recharge c }

/-- The loads that are not done by `time` are the same. -/
def SameLive (time : Time) (ls ls' : List LongLoad) : Prop :=
  ls'.filter (fun load => time < load.done) = ls.filter fun load => time < load.done

/-- The other thread differs from `th` at most in its charges: its long loads are such as `loads` admits,
and it has been charged `owed` less. -/
inductive Thread.Alike (loads : List LongLoad → List LongLoad → Prop) (owed : Time) (th : Thread) :
    Thread → Prop
  | recharge (c : Charges) (same : loads th.longLoads c.longLoads)
      (paid : c.cpi.total + owed = th.stats.cpi.total) : Alike loads owed th (th.recharge c)

namespace Thread

variable {loads : List LongLoad → List LongLoad → Prop} {owed : Time} {th th' : Thread}
  {e : Entry}

theorem Alike.of_eq {c : Charges} (eq : th' = th.recharge c) (same : loads th.longLoads c.longLoads)
    (paid : c.cpi.total + owed = th.stats.cpi.total) : Alike loads owed th th' := by
  rw [eq]
  exact .recharge c same paid

/-- What does not look at the charges keeps threads alike. -/
theorem Alike.map {f : Thread → Thread} (h : Alike loads owed th th')
    (hf : ∀ c, f (th.recharge c) = (f th).recharge c) (kept : (f th).longLoads = th.longLoads)
    (cpi : (f th).stats.cpi = th.stats.cpi) : Alike loads owed (f th) (f th') := by
  cases h with
  | recharge c same paid =>
    rw [hf]
    refine .recharge c ?_ ?_
    · rwa [kept]
    · rwa [cpi]

/-- What does not look at the charges is the same for threads that are alike. -/
theorem Alike.congr {α : Type} {f : Thread → α} (h : Alike loads owed th th')
    (hf : ∀ c, f (th.recharge c) = f th) : f th' = f th := by
  cases h with
  | recharge c => exact hf c

theorem Alike.ring_eq (h : Alike loads owed th th') : th'.ring = th.ring :=
  h.congr (f := ring) fun _ => rfl

theorem Alike.inWindow_eq (h : Alike loads owed th th') : th'.inWindow = th.inWindow :=
  h.congr (f := inWindow) fun _ => rfl

theorem Alike.nextSeq_eq (h : Alike loads owed th th') : th'.nextSeq = th.nextSeq :=
  h.congr (f := nextSeq) fun _ => rfl

theorem Alike.stalledUntil_eq (h : Alike loads owed th th') :
    th'.stalledUntil = th.stalledUntil :=
  h.congr (f := stalledUntil) fun _ => rfl

theorem Alike.frontSeq?_eq (h : Alike loads owed th th') : th'.frontSeq? = th.frontSeq? :=
  h.congr (f := frontSeq?) fun _ => rfl

theorem Alike.oldest?_eq (h : Alike loads owed th th') : th'.oldest? = th.oldest? :=
  h.congr (f := oldest?) fun _ => rfl

theorem Alike.buffered_eq (h : Alike loads owed th th') : th'.buffered = th.buffered :=
  h.congr (f := buffered) fun _ => rfl

theorem lockstep_modify {f : Thread → Thread} (h : Alike loads owed th th')
    (hf : ∀ c, f (th.recharge c) = (f th).recharge c) (kept : (f th).longLoads = th.longLoads)
    (cpi : (f th).stats.cpi = th.stats.cpi) :
    Lockstep (Alike loads owed) ((modify f : Faulting Thread Unit) th)
      ((modify f : Faulting Thread Unit) th') :=
  .ok (h.map hf kept cpi)

/-! ## Section 2: Linking -/

theorem Alike.setEntry (h : Alike loads owed th th') (i : Nat) (e : Entry) :
    Alike loads owed (th.setEntry i e) (th'.setEntry i e) :=
  h.map (f := (·.setEntry i e)) (fun _ => rfl) rfl rfl

theorem Alike.locate_eq (h : Alike loads owed th th') (seq : Nat) : th'.locate seq = th.locate seq :=
  h.congr (f := (·.locate seq)) fun _ => rfl

theorem Alike.forward_eq (h : Alike loads owed th th') (lowest : Nat) (e : Entry) (seqs : List Nat) :
    th'.forward lowest e seqs = th.forward lowest e seqs := by
  induction seqs with
  | nil => rfl
  | cons seq rest ih =>
    unfold forward
    rw [h.locate_eq, ih]

theorem lockstep_watch {lowest : Nat} {seqs : List Nat} {nearest : Option Nat}
    (h : Alike loads owed th th') :
    Lockstep (Alike loads owed) (watch lowest seqs e nearest th) (watch lowest seqs e nearest th') := by
  induction seqs generalizing e nearest th th' with
  | nil => exact lockstep_pure h
  | cons seq rest ih =>
    unfold watch
    split
    -- the producer has left the ring
    · exact ih h
    · rw [get_bind, get_bind, h.locate_eq]
      refine lockstep_bind (lockstep_ofExcept _ h) fun (i, producer) s t _ _ h => ?_
      dsimp only
      split
      -- it is in the ring, but done
      · exact ih h
      -- it will have to wake the reader
      · refine lockstep_bind (lockstep_ofExcept _ h) fun producer s t _ _ h => ?_
        exact lockstep_bind (.ok (h.setEntry _ _)) fun _ s t _ _ h => ih h

/-- The counters of linked micro-ops are not those of time. -/
theorem lockstep_recordDistance {distance : Nat} {s s' : ThreadStats} {c : Charges} {cpi : CpiStack}
    (h : s.Recharged c cpi s') :
    Lockstep (ThreadStats.Recharged c cpi) (ThreadStats.recordDistance distance s)
      (ThreadStats.recordDistance distance s') := by
  obtain ⟨rfl, charged⟩ := h
  unfold ThreadStats.recordDistance
  refine lockstep_bind (S := ThreadStats.Recharged c cpi) (.ok ⟨rfl, charged⟩)
    fun _ t t' _ _ ⟨same, charged⟩ => ?_
  rw [same]
  split
  · rw [get_bind, get_bind]
    refine lockstep_bind (S := ThreadStats.Recharged c cpi) (lockstep_ofExcept _ ⟨rfl, charged⟩)
      fun total t t' _ _ ⟨same, charged⟩ => ?_
    rw [same]
    exact .ok ⟨rfl, charged⟩
  · exact lockstep_pure ⟨rfl, charged⟩

/-- Counting inside a thread keeps threads alike. -/
theorem lockstep_stats {x : Faulting ThreadStats Unit} (h : Alike loads owed th th')
    (ran : ∀ c cpi s s', s.Recharged c cpi s' → Lockstep (ThreadStats.Recharged c cpi) (x s) (x s')) :
    Lockstep (Alike loads owed) (zoom (·.stats) (fun stats th => { th with stats }) x th)
      (zoom (·.stats) (fun stats th => { th with stats }) x th') := by
  cases h with
  | recharge c same paid =>
    refine lockstep_zoom (ran c th.stats.cpi th.stats _ ⟨rfl, rfl⟩) ?_
    rintro s s' ⟨rfl, charged⟩
    refine .of_eq (c := c) rfl same ?_
    rw [charged]
    exact paid

theorem lockstep_link {forwarding : Bool} (h : Alike loads owed th th') :
    Lockstep (Alike loads owed) (link forwarding e th) (link forwarding e th') := by
  unfold link
  rw [get_bind, get_bind]
  have address : ∀ lowest, th'.linkAddress lowest e = th.linkAddress lowest e :=
    fun lowest => h.congr (f := (·.linkAddress lowest e)) fun _ => rfl
  have registers : th'.registers = th.registers := h.congr (f := registers) fun _ => rfl
  have stores : th'.stores = th.stores := h.congr (f := stores) fun _ => rfl
  rw [h.frontSeq?_eq, address, registers, stores]
  simp only [h.forward_eq]
  refine lockstep_bind (lockstep_ofExcept _ h) fun e₁ s t _ _ h => ?_
  refine lockstep_bind (lockstep_ofExcept _ h) fun u₁ s t _ _ h => ?_
  refine lockstep_bind (lockstep_ofExcept _ h) fun (u₂, stores) s t _ _ h => ?_
  refine lockstep_bind (lockstep_ofExcept _ h) fun e₂ s t _ _ h => ?_
  refine lockstep_bind (lockstep_modify h (fun _ => rfl) rfl rfl) fun _ s t _ _ h => ?_
  refine lockstep_bind (lockstep_watch h) fun (e₃, nearest) s t _ _ h => ?_
  exact lockstep_bind (lockstep_stats h fun _ _ _ _ => lockstep_recordDistance)
    fun _ s t _ _ h => lockstep_pure h

/-! ## Section 3: Dispatching -/

theorem Alike.of_eq_loads {time : Time} (h : Alike Eq owed th th') :
    Alike (SameLive time) owed th th' := by
  cases h with
  | recharge c same paid =>
    refine .recharge c ?_ paid
    unfold SameLive
    rw [same]

/-- What stopped dispatch before is forgotten when a cycle begins, and so are the loads that are
done. -/
theorem Alike.beginDispatch {now : Time} (h : Alike (SameLive now) owed th th') :
    Alike Eq owed (th.beginDispatch now) (th'.beginDispatch now) := by
  cases h with
  | recharge c same paid =>
    exact .of_eq
      (c := { c with stall := none, longLoads := c.longLoads.filter fun load => now < load.done })
      rfl same.symm paid

/-- Threads stay alike whatever dispatch is said to have stopped for. -/
theorem Alike.setStall {f : Thread → Thread} {stall : Option Cause} (h : Alike loads owed th th')
    (hf : ∀ c, f (th.recharge c) = (f th).recharge { c with stall })
    (kept : (f th).longLoads = th.longLoads) (cpi : (f th).stats.cpi = th.stats.cpi) :
    Alike loads owed (f th) (f th') := by
  cases h with
  | recharge c same paid =>
    rw [hf]
    refine .recharge _ ?_ ?_
    · rwa [kept]
    · rwa [cpi]

theorem lockstep_setStall {f : Thread → Thread} {stall : Option Cause} (h : Alike loads owed th th')
    (hf : ∀ c, f (th.recharge c) = (f th).recharge { c with stall })
    (kept : (f th).longLoads = th.longLoads) (cpi : (f th).stats.cpi = th.stats.cpi) :
    Lockstep (Alike loads owed) ((modify f : Faulting Thread Unit) th)
      ((modify f : Faulting Thread Unit) th') :=
  .ok (h.setStall hf kept cpi)

/-- Threads stay alike whatever the cycle is charged to. -/
theorem Alike.setCause {causeOf : Thread → Cause} (h : Alike loads owed th th') :
    Alike loads owed { th with cause := causeOf th } { th' with cause := causeOf th' } := by
  cases h with
  | recharge c same paid =>
    exact .of_eq (c := { c with cause := causeOf (th.recharge c) }) rfl same paid

theorem lockstep_fetchNext {clock : Clock} (h : Alike loads owed th th') :
    Lockstep (Alike loads owed) ((modifyGet (fetchNext clock e) : Faulting Thread Bool) th)
      ((modifyGet (fetchNext clock e) : Faulting Thread Bool) th') := by
  have fetching : th'.fetching = th.fetching := h.congr (f := fetching) fun _ => rfl
  show Lockstep _ (.ok (fetchNext clock e th).1 (fetchNext clock e th).2)
    (.ok (fetchNext clock e th').1 (fetchNext clock e th').2)
  unfold fetchNext
  rw [fetching]
  split
  · exact .ok h
  · split
    · have done := h.setEntry th.inWindow { e with u := { e.u with fetchHit := .l1i } }
      rw [h.inWindow_eq]
      exact .ok (done.map (f := ({ · with fetching := false })) (fun _ => rfl) rfl rfl)
    · refine .ok (h.setStall (f := fun th => { th with
        stalledUntil := clock.afterCycles e.u.fetchLatency
        fetching := true
        stall := some (.instructionCache e.u.fetchHit) }) (fun _ => rfl) rfl rfl)

theorem lockstep_dispatchOne {forwarding free : Bool} {clock : Clock} (h : Alike Eq owed th th') :
    Lockstep (Alike Eq owed) (dispatchOne forwarding clock free th)
      (dispatchOne forwarding clock free th') := by
  unfold dispatchOne
  rw [get_bind, get_bind, h.ring_eq, h.inWindow_eq]
  cases th.ring.get? th.inWindow with
  | none => exact lockstep_pure h
  | some e =>
    refine lockstep_bind (lockstep_fetchNext h) fun fetched s t _ _ h => ?_
    cases fetched with
    | false => exact lockstep_pure h
    | true =>
      cases free with
      | false =>
        exact lockstep_bind (lockstep_setStall h (fun _ => rfl) rfl rfl)
          fun _ s t _ _ h => lockstep_pure h
      | true =>
        -- Long loads in flight hold dispatch up, so it is not enough that the live ones are the same.
        have blocking : t.blockingLoad? = s.blockingLoad? := by
          cases h with
          | recharge c same =>
            unfold blockingLoad?
            rw [same]
            rfl
        simp only [Bool.not_true, Bool.false_eq_true, if_false]
        rw [get_bind, get_bind, blocking]
        cases s.blockingLoad? with
        | some load =>
          exact lockstep_bind (lockstep_setStall h (fun _ => rfl) rfl rfl)
            fun _ s t _ _ h => lockstep_pure h
        | none =>
          refine lockstep_bind (lockstep_link h) fun e s t _ _ h => ?_
          exact lockstep_bind (lockstep_modify h (fun _ => rfl) rfl rfl)
            fun _ s t _ _ h => lockstep_pure h

/-! ## Section 4: Issuing -/

theorem Alike.observeAddress_eq (h : Alike loads owed th th') (front seq : Nat) (done : Time) (e : Entry)
    (producers : List Nat) (latest : Time) (resolved : Bool) :
    th'.observeAddress front seq done e producers latest resolved =
      th.observeAddress front seq done e producers latest resolved := by
  induction producers generalizing latest resolved with
  | nil => rfl
  | cons producer rest ih =>
    unfold observeAddress
    simp only [h.locate_eq, ih]

theorem lockstep_wake {front seq consumer : Nat} {done : Time} (h : Alike loads owed th th') :
    Lockstep (Alike loads owed) (wake front seq done consumer th)
      (wake front seq done consumer th') := by
  unfold wake
  rw [get_bind, get_bind]
  simp only [h.locate_eq, h.observeAddress_eq]
  refine lockstep_bind (lockstep_ofExcept _ h) fun (i, e) s t _ _ h => ?_
  refine lockstep_bind (lockstep_ofExcept _ h) fun e s t _ _ h => ?_
  exact lockstep_modify h (fun _ => rfl) rfl rfl

theorem lockstep_wakeAll {front seq : Nat} {done : Time} {consumers : List Nat}
    (h : Alike loads owed th th') :
    Lockstep (Alike loads owed) (wakeAll front seq done consumers th)
      (wakeAll front seq done consumers th') := by
  induction consumers generalizing th th' with
  | nil => exact lockstep_pure h
  | cons consumer rest ih => exact lockstep_bind (lockstep_wake h) fun _ s t _ _ h => ih h

theorem lockstep_start {i : Nat} {now done latency : Time} (h : Alike loads owed th th') :
    Lockstep (Alike loads owed) (start i e now done latency th)
      (start i e now done latency th') := by
  unfold start
  rw [get_bind, get_bind, h.frontSeq?_eq]
  refine lockstep_bind (lockstep_modify h ?_ rfl ?_) fun _ s t _ _ h => lockstep_wakeAll h
  -- the access is counted beside the charges, if it is one
  · intro c
    unfold countAccess
    by_cases load : e.u.op.isLoad
    · simp only [load, if_true]
      rfl
    · by_cases store : e.u.op.isStore
      · simp only [load, store, if_true]
        rfl
      · simp only [load, store]
        rfl
  · dsimp only
    unfold countAccess
    split
    · rfl
    · split <;> rfl

theorem Alike.accountLongLoad {time : Time} (h : Alike (SameLive time) owed th th') (cutoff : Nat)
    (now : Time) (i : Nat) :
    Alike (SameLive time) owed (th.accountLongLoad cutoff now i)
      (th'.accountLongLoad cutoff now i) := by
  cases h with
  | recharge c same paid =>
    have entry : (th.recharge c).ring.get? i = th.ring.get? i := rfl
    unfold Thread.accountLongLoad
    rw [entry]
    cases th.ring.get? i with
    | none => exact .recharge c same paid
    | some e =>
      dsimp only
      split
      -- both lists grow by the same load
      · refine .of_eq (c := { c with longLoads := c.longLoads ++ [_] }) rfl ?_ paid
        unfold SameLive at same ⊢
        dsimp only
        rw [List.filter_append, List.filter_append, same]
      · exact .recharge c same paid

/-! ## Section 5: Committing -/

theorem Alike.retire (h : Alike loads owed th th') (keepLog : Bool) (now : Time) (e : Entry) :
    Alike loads owed (th.retire keepLog now e) (th'.retire keepLog now e) :=
  h.map (f := (·.retire keepLog now e)) (fun _ => rfl) rfl rfl

theorem Alike.flush (h : Alike loads owed th th') (clock : Clock) (penalty : Nat) :
    (∃ f, th.flush clock penalty = .error f ∧ th'.flush clock penalty = .error f) ∨
      ∃ x x', th.flush clock penalty = .ok x ∧ th'.flush clock penalty = .ok x' ∧
        Alike loads owed x x' := by
  cases h with
  | recharge c same paid =>
    have next : (th.recharge c).nextSeq = th.nextSeq := rfl
    have ring : (th.recharge c).ring = th.ring := rfl
    unfold Thread.flush
    rw [next, ring]
    cases Word.add th.nextSeq th.ring.length with
    | error f => exact .inl ⟨f, rfl, rfl⟩
    | ok nextSeq =>
      refine .inr ⟨_, _, rfl, rfl, ?_⟩
      exact .of_eq (c := { c with stall := some .branchPredictor }) rfl same paid

theorem lockstep_commit {clock : Clock} {penalty width : Nat} {keepLog : Bool}
    (h : Alike loads owed th th') :
    Lockstep (Alike loads owed) (commit clock penalty keepLog width th)
      (commit clock penalty keepLog width th') := by
  induction width generalizing th th' with
  | zero => exact lockstep_pure h
  | succ width ih =>
    unfold commit
    rw [get_bind, get_bind, h.oldest?_eq]
    cases th.oldest? with
    | none => exact lockstep_pure h
    | some e =>
      dsimp only
      split
      · exact lockstep_pure h
      · refine lockstep_bind (.ok (h.retire keepLog clock.now e)) fun _ s t _ _ h => ?_
        split
        -- a branch predicted wrongly ends the turn with a flush
        · have held : t.stationsHeld = s.stationsHeld := h.congr (f := stationsHeld) fun _ => rfl
          rw [get_bind, get_bind, get_bind, get_bind, held]
          rcases h.flush clock penalty with ⟨f, left, right⟩ | ⟨x, x', left, right, h⟩
          · rw [left, right]
            exact .error
          · rw [left, right]
            exact .ok h
        · exact ih h

end Thread

end CoreTiming
