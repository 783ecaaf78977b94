import CoreTiming.Proofs.Room

/-!
# What stops a cycle

A cycle looks entries up by their numbers and works on lanes by their slots.  In a window that calls have led
to, all of them are there, so a cycle never stops over one.  The table of stores in flight has room for each
store.  What is left is that another fixed capacity or the range of a word is exceeded (`Fault.isLimit`), or that
memory stops (`MemorySystem.Raises`).
-/

namespace CoreTiming

open Faulting

/-- Whether the fault says that a fixed capacity or the range of a word has been exceeded. -/
def Fault.isCapacity : Fault → Bool
  | .arithmeticOverflow | .tooLarge | .ringFull _ | .listFull .. | .bufferFull .. => true
  | _ => false

/-- Whether it says so of something else than a ring. -/
def Fault.isLimit : Fault → Bool
  | .arithmeticOverflow | .tooLarge | .listFull .. | .bufferFull .. => true
  | _ => false

theorem Fault.isCapacity_of_isLimit {f : Fault} (h : f.isLimit = true) : f.isCapacity = true := by
  cases f with
  | arithmeticOverflow | tooLarge | listFull | bufferFull => rfl
  | _ => cases h

/-- Some data access stops with the fault. -/
def MemorySystem.Raises (M : Type) [MemorySystem M] (f : Fault) : Prop :=
  ∃ (a : MemoryAccess) (m m' : M), MemorySystem.access a m = .error f m'

/-! ## Section 1: Where a chain stops -/

section

variable {α β σ τ : Type} {s t : σ} {f : Fault}

theorem Except.bind_eq_error {x : Except Fault α} {g : α → Except Fault β} :
    (x >>= g) = .error f ↔ x = .error f ∨ ∃ a, x = .ok a ∧ g a = .error f := by
  cases x with
  | ok a => simp [bind, Except.bind]
  | error e => simp [bind, Except.bind]

/-- A loop that stops does so over one of its elements. -/
theorem Except.foldlM_eq_error {g : β → α → Except Fault β} {xs : List α} {b : β}
    (h : xs.foldlM g b = .error f) : ∃ x ∈ xs, ∃ b', g b' x = .error f := by
  induction xs generalizing b with
  | nil => cases h
  | cons x xs ih =>
    rcases Except.bind_eq_error.mp h with first | ⟨b', -, rest⟩
    · exact ⟨x, List.mem_cons_self, b, first⟩
    · obtain ⟨y, mem, stopped⟩ := ih rest
      exact ⟨y, List.mem_cons_of_mem _ mem, stopped⟩

namespace Faulting

theorem bind_eq_error {x : Faulting σ α} {g : α → Faulting σ β} :
    (x >>= g) s = .error f t ↔ x s = .error f t ∨ ∃ a u, x s = .ok a u ∧ g a u = .error f t := by
  show EStateM.bind x g s = .error f t ↔ _
  unfold EStateM.bind
  cases x s with
  | ok a u => simp [and_assoc]
  | error e u => simp

theorem pure_ne_error {a : α} : (pure a : Faulting σ α) s ≠ .error f t := by
  intro h
  cases h

theorem modify_ne_error {g : σ → σ} : (modify g : Faulting σ PUnit) s ≠ .error f t := by
  intro h
  cases h

theorem ofExcept_eq_error {x : Except Fault α} (h : (ofExcept x : Faulting σ α) s = .error f t) :
    x = .error f := by
  cases x with
  | ok a => cases h
  | error e =>
    cases h
    rfl

theorem zoom_eq_error [Inhabited τ] {part : σ → τ} {replace : τ → σ → σ} {x : Faulting τ α}
    (h : zoom part replace x s = .error f t) : ∃ p, x (part s) = .error f p := by
  unfold zoom at h
  cases ran : x (part s) with
  | ok a p =>
    simp only [ran] at h
    cases h
  | error e p =>
    simp only [ran] at h
    cases h
    exact ⟨p, rfl⟩

end Faulting

namespace Window

variable {M : Type} [MemorySystem M] {w v : Window M} {i : Nat} {l : Lane M}

/-- On a lane that is there, only the operation itself can stop. -/
theorem onLane_eq_error {x : Faulting (Lane M) α} (found : w.lanes[i]? = some l)
    (h : onLane i x w = .error f v) : ∃ l', x l = .error f l' := by
  obtain ⟨inside, rfl⟩ := Array.getElem?_eq_some_iff.mp found
  unfold onLane at h
  rw [dif_pos inside] at h
  dsimp only at h
  cases ran : x w.lanes[i] with
  | ok a l' =>
    simp only [ran] at h
    cases h
  | error e l' =>
    simp only [ran] at h
    cases h
    exact ⟨l', rfl⟩

theorem onThread_eq_error {x : Faulting Thread α} (found : w.lanes[i]? = some l)
    (h : onThread i x w = .error f v) : ∃ th, x l.thread = .error f th := by
  obtain ⟨l', stopped⟩ := onLane_eq_error found h
  exact zoom_eq_error stopped

theorem modifyThread_ne_error {g : Thread → Thread} (found : w.lanes[i]? = some l) :
    modifyThread i g w ≠ .error f v := by
  intro h
  obtain ⟨th, stopped⟩ := onThread_eq_error found h
  exact modify_ne_error stopped

end Window

end

/-! ## Section 2: Words, lists and tables -/

section

variable {f : Fault}

theorem Word.isLimit_of_add {a b : Nat} (h : Word.add a b = .error f) : f.isLimit = true := by
  unfold Word.add at h
  split at h
  · cases h
  · cases h
    rfl

theorem Time.isLimit_of_divideRounded {t period : Time} (h : t.divideRounded period = .error f) :
    f.isLimit = true := by
  unfold Time.divideRounded at h
  split at h
  · cases h
  · rcases Except.bind_eq_error.mp h with added | ⟨_, -, h⟩
    · exact Word.isLimit_of_add added
    · cases h

theorem BoundedList.isLimit_of_push {capacity : Nat} {list : BoundedList capacity} {what : String} {q : Nat}
    (h : list.push what q = .error f) : f.isLimit = true := by
  unfold BoundedList.push at h
  split at h
  · cases h
  · cases h
    rfl

theorem Ring.push_ne_error {α : Type} {ring : Ring α} {x : α} (room : ring.length < ring.capacity) :
    ring.push x ≠ .error f := by
  unfold Ring.push
  rw [if_neg (by simpa [Ring.isFull] using room)]
  intro h
  cases h

namespace OpInstance

variable {u : OpInstance}

theorem isLimit_of_addProducer {q : Nat} (h : u.addProducer q = .error f) : f.isLimit = true := by
  rcases Except.bind_eq_error.mp h with inserted | ⟨_, -, h⟩
  · unfold BoundedList.insert at inserted
    split at inserted
    · cases inserted
    · exact BoundedList.isLimit_of_push inserted
  · cases h

theorem isLimit_of_resolveData {hit : Location} {cycles : Nat} (h : u.resolveData hit cycles = .error f) :
    f.isLimit = true := by
  rcases Except.bind_eq_error.mp h with added | ⟨_, -, h⟩
  · exact Word.isLimit_of_add added
  · cases h

end OpInstance

theorem RegisterTable.isLimit_of_await {table : RegisterTable} {lowest : Nat} {u : OpInstance}
    (h : table.await lowest u = .error f) : f.isLimit = true := by
  obtain ⟨r, -, u', stopped⟩ := Except.foldlM_eq_error h
  unfold RegisterTable.awaitWriter at stopped
  split at stopped
  · exact OpInstance.isLimit_of_addProducer stopped
  · cases stopped

theorem StoreTable.isLimit_of_await {u : OpInstance} {producer : Option Nat}
    (h : StoreTable.await u producer = .error f) : f.isLimit = true := by
  unfold StoreTable.await at h
  split at h
  · exact OpInstance.isLimit_of_addProducer h
  · cases h

theorem StoreTable.isLimit_of_link {table : StoreTable} {lowest : Nat} {u : OpInstance}
    (room : (table.clean lowest).stores.length < (table.clean lowest).stores.capacity)
    (h : table.link u lowest = .error f) : f.isLimit = true := by
  have awaits : ∀ {u : OpInstance} {producer : Option Nat} {table : StoreTable},
      (do pure (← StoreTable.await u producer, table) : Except Fault (OpInstance × StoreTable)) = .error f →
        f.isLimit = true := by
    intro u producer table h
    rcases Except.bind_eq_error.mp h with awaited | ⟨_, -, h⟩
    · exact isLimit_of_await awaited
    · cases h
  unfold StoreTable.link at h
  dsimp only at h
  split at h
  · rcases Except.bind_eq_error.mp h with awaited | ⟨_, -, h⟩
    · exact isLimit_of_await awaited
    · exact awaits h
  split at h
  · rcases Except.bind_eq_error.mp h with pushed | ⟨_, -, h⟩
    · exact absurd pushed (Ring.push_ne_error room)
    · exact awaits h
  split at h
  · exact awaits h
  · cases h

end

/-! ## Section 3: The dispatch of an entry -/

namespace Thread

variable {config : Config} {clock : Clock} {th th' : Thread} {e : Entry} {f : Fault} {lowest q : Nat}

theorem Holds.locate_ne_error (h : th.Holds q) : th.locate q ≠ .error f := by
  obtain ⟨i, e, located⟩ := h
  rw [located]
  intro h
  cases h

theorem isLimit_of_linkAddress (held : ∀ r q, th.registers.live? r lowest = some q → th.Holds q)
    (h : th.linkAddress lowest e = .error f) : f.isLimit = true := by
  rcases Except.bind_eq_error.mp h with loop | ⟨_, -, h⟩
  · obtain ⟨r, -, x, stopped⟩ := Except.foldlM_eq_error loop
    unfold awaitAddress at stopped
    split at stopped
    · cases stopped
    · rename_i writer live
      rcases Except.bind_eq_error.mp stopped with located | ⟨⟨_, p⟩, -, stopped⟩
      · exact absurd located (held r writer live).locate_ne_error
      · dsimp only at stopped
        split at stopped
        · cases stopped
        · rcases Except.bind_eq_error.mp stopped with pushed | ⟨_, -, stopped⟩
          · exact BoundedList.isLimit_of_push pushed
          · cases stopped
  · cases h

theorem isLimit_of_forward {seqs : List Nat} (held : ∀ q ∈ seqs, lowest ≤ q → th.Holds q)
    (h : th.forward lowest e seqs = .error f) : f.isLimit = true := by
  induction seqs with
  | nil => cases h
  | cons q rest ih =>
    have others := ih fun q mem => held q (List.mem_cons_of_mem _ mem)
    unfold forward at h
    split at h
    · exact others h
    · rename_i present
      rcases Except.bind_eq_error.mp h with located | ⟨⟨_, store⟩, -, h⟩
      · exact absurd located (held q List.mem_cons_self (not_lt.mp present)).locate_ne_error
      · dsimp only at h
        split at h
        · rcases Except.bind_eq_error.mp h with loop | ⟨_, -, h⟩
          · obtain ⟨_, -, _, added⟩ := Except.foldlM_eq_error loop
            exact OpInstance.isLimit_of_addProducer added
          · cases h
        · exact others h

theorem isLimit_of_watch {seqs : List Nat} {nearest : Option Nat}
    (held : ∀ q ∈ seqs, lowest ≤ q → th.Holds q) (h : watch lowest seqs e nearest th = .error f th') :
    f.isLimit = true := by
  induction seqs generalizing e nearest th with
  | nil => exact absurd h pure_ne_error
  | cons q rest ih =>
    have others : ∀ q ∈ rest, lowest ≤ q → th.Holds q := fun q mem => held q (List.mem_cons_of_mem _ mem)
    unfold watch at h
    split at h
    · exact ih others h
    · rename_i present
      rw [get_bind] at h
      rcases bind_eq_error.mp h with lost | ⟨⟨i, p⟩, _, found, h⟩
      · exact absurd (ofExcept_eq_error lost) (held q List.mem_cons_self (not_lt.mp present)).locate_ne_error
      · obtain ⟨located, rfl⟩ := ofExcept_eq_ok.mp found
        dsimp only at h
        split at h
        · exact ih others h
        · rcases bind_eq_error.mp h with full | ⟨p', _, told, h⟩
          · rcases Except.bind_eq_error.mp (ofExcept_eq_error full) with pushed | ⟨_, -, h⟩
            · exact BoundedList.isLimit_of_push pushed
            · cases h
          · obtain ⟨added, rfl⟩ := ofExcept_eq_ok.mp told
            rw [modify_bind] at h
            -- a producer that is told of its consumer keeps its number
            have same := (Entry.listed_addDependant added).1.seq_eq
            exact ih (fun q mem le => (others q mem le).setEntry (locate_eq_ok located).1 same) h

theorem isLimit_of_recordDistance {distance : Nat} {s s' : ThreadStats}
    (h : ThreadStats.recordDistance distance s = .error f s') : f.isLimit = true := by
  unfold ThreadStats.recordDistance at h
  rw [modify_bind] at h
  split at h
  · rw [get_bind] at h
    rcases bind_eq_error.mp h with added | ⟨_, _, -, h⟩
    · exact Word.isLimit_of_add (ofExcept_eq_error added)
    · exact absurd h modify_ne_error
  · exact absurd h pure_ne_error

/-- Linking the next entry only stops where a capacity is exceeded. -/
theorem Accounted.isLimit_of_link {forwarding : Bool} (acc : th.Accounted config clock)
    (next : th.ring.get? th.inWindow = some e) (h : link forwarding e.fetched th = .error f th') :
    f.isLimit = true := by
  rw [← Ring.getElem?_toList] at next
  have lowest := acc.oldestSeq_eq next e.fetched
  rw [Ring.getElem?_toList] at next
  have sought : ∀ q, th.Seeks e.fetched q → th.oldestSeq e.fetched ≤ q → th.Holds q := by
    intro q seeks present
    exact acc.holds_sought next seeks (lowest ▸ present)
  unfold link at h
  rw [get_bind] at h
  -- step by step: a step that stops does so at a capacity, as whatever it looks up is there
  rcases bind_eq_error.mp h with stopped | ⟨e₁, _, done, h⟩
  · have stopped := ofExcept_eq_error stopped
    split at stopped
    · refine isLimit_of_linkAddress (fun r q live => acc.holds_writer (r := r) ?_) stopped
      rw [← lowest]
      exact live
    · cases stopped
  obtain ⟨addressed, rfl⟩ := ofExcept_eq_ok.mp done
  have address := addressed_eq addressed
  have u_eq : e₁.u = e.fetched.u := by rw [address]
  rcases bind_eq_error.mp h with stopped | ⟨u₁, _, done, h⟩
  · exact RegisterTable.isLimit_of_await (ofExcept_eq_error stopped)
  obtain ⟨awaited, rfl⟩ := ofExcept_eq_ok.mp done
  rcases bind_eq_error.mp h with stopped | ⟨⟨u₂, stores⟩, _, done, h⟩
  · refine StoreTable.isLimit_of_link ?_ (ofExcept_eq_error stopped)
    have base : th.frontSeq?.getD e.fetched.seq = th.base := lowest
    rw [base]
    exact acc.room_clean next
  obtain ⟨stored, rfl⟩ := ofExcept_eq_ok.mp done
  have added := awaits_tables u_eq awaited stored
  dsimp only at h
  rcases bind_eq_error.mp h with stopped | ⟨e₃, _, done, h⟩
  · have stopped := ofExcept_eq_error stopped
    split at stopped
    · refine isLimit_of_forward (fun q mem present => sought q (.inl ?_) present) stopped
      exact (mem_sought_iff added).mp mem
    · cases stopped
  obtain ⟨forwarded, rfl⟩ := ofExcept_eq_ok.mp done
  have forwards := forwards_of_ite (e := { e₁ with u := u₂ }) forwarded
  rw [modify_bind] at h
  rcases bind_eq_error.mp h with stopped | ⟨⟨e₄, nearest⟩, th₄, watched, h⟩
  · refine isLimit_of_watch (fun q mem present => ?_) stopped
    obtain ⟨i, p, located⟩ := sought q (forwards.seeks added mem) present
    exact ⟨i, p, located⟩
  rcases bind_eq_error.mp h with stopped | ⟨_, _, -, h⟩
  · obtain ⟨_, stopped⟩ := zoom_eq_error stopped
    exact isLimit_of_recordDistance stopped
  · exact absurd h pure_ne_error

/-- So does the attempt to dispatch it. -/
theorem Accounted.isLimit_of_dispatchOne {forwarding free : Bool} (acc : th.Accounted config clock)
    (h : dispatchOne forwarding clock free th = .error f th') : f.isLimit = true := by
  unfold dispatchOne at h
  rw [get_bind] at h
  cases next : th.ring.get? th.inWindow with
  | none =>
    simp only [next] at h
    exact absurd h pure_ne_error
  | some e =>
    simp only [next, modifyGet_bind] at h
    cases fetched : (fetchNext clock e th).1 with
    | false =>
      simp only [fetched, Bool.not_false, if_true] at h
      exact absurd h pure_ne_error
    | true =>
      simp only [fetched, Bool.not_true, Bool.false_eq_true, if_false] at h
      cases free with
      | false =>
        simp only [Bool.not_false, if_true, modify_bind] at h
        exact absurd h pure_ne_error
      | true =>
        simp only [Bool.not_true, Bool.false_eq_true, if_false, get_bind] at h
        cases blocking : (fetchNext clock e th).2.blockingLoad? with
        | some load =>
          simp only [blocking, modify_bind] at h
          exact absurd h pure_ne_error
        | none =>
          simp only [blocking] at h
          rcases bind_eq_error.mp h with stopped | ⟨_, _, -, h⟩
          · have acc' : (fetchNext clock e th).2.Accounted config clock :=
              acc.works ((fetchNext_intakes next).lift id fun _ _ => Intake.work)
            exact acc'.isLimit_of_link (get?_fetchNext next fetched) stopped
          · rw [modify_bind] at h
            exact absurd h pure_ne_error

end Thread

/-! ## Section 4: The dispatch stage -/

namespace Window

variable {M : Type} {w v : Window M} {f : Fault} {i : Nat} {l : Lane M}

theorem Worked.size_eq {W : Config → Clock → Thread → Thread → Prop} (h : Worked W w v) :
    v.lanes.size = w.lanes.size := by
  simpa using h.lanes.length_eq

variable [MemorySystem M] {running : Running}

theorem isLimit_of_dispatchUpTo {width : Nat} {any : Bool} {event : Time} (acc : w.Accounted)
    (found : w.lanes[i]? = some l) (awake : l.thread.stalledUntil ≤ w.clock.now)
    (h : dispatchUpTo i width any event w = .error f v) : f.isLimit = true := by
  induction width generalizing any event w l with
  | zero => exact absurd h pure_ne_error
  | succ width ih =>
    unfold dispatchUpTo at h
    rw [get_bind, thread_bind_of_found found] at h
    split at h
    · have up : ∀ lane, w.lanes[i]? = some lane → lane.thread.stalledUntil ≤ w.clock.now := by
        intro lane at_i
        obtain rfl : l = lane := Option.some.inj (found.symm.trans at_i)
        exact awake
      rcases bind_eq_error.mp h with stopped | ⟨d, w₁, tried, h⟩
      · obtain ⟨th, stopped⟩ := onThread_eq_error found stopped
        exact (acc i l found).isLimit_of_dispatchOne stopped
      cases d with
      | blocked blockedUntil => exact absurd h pure_ne_error
      | entered ready =>
        simp only [modify_bind] at h
        have acc' := acc.worked (Admit.enter up tried).worked
        obtain ⟨l₁, th, found₁, ran, rfl⟩ := onThread_eq_ok.mp tried
        obtain rfl : l = l₁ := Option.some.inj (found.symm.trans found₁)
        have inside := (Array.getElem?_eq_some_iff.mp found).1
        refine ih acc' (Array.getElem?_setIfInBounds_self_of_lt inside) ?_ h
        show th.stalledUntil ≤ w.clock.now
        rw [(Thread.attempt_of_ok ran).stalledUntil_eq]
        exact awake
    · exact absurd h pure_ne_error

theorem isLimit_of_dispatchLane {event : Time} (acc : w.Accounted) (found : w.lanes[i]? = some l)
    (awake : l.thread.stalledUntil ≤ w.clock.now) (h : dispatchLane i event w = .error f v) :
    f.isLimit = true := by
  unfold dispatchLane at h
  rw [get_bind] at h
  rcases bind_eq_error.mp h with stopped | ⟨⟨⟩, w₁, begun, h⟩
  · exact absurd stopped (modifyThread_ne_error found)
  have acc₁ := acc.worked (Admit.begin begun).worked
  obtain ⟨l₀, found₀, rfl⟩ := modifyThread_eq_ok.mp begun
  obtain rfl : l = l₀ := Option.some.inj (found.symm.trans found₀)
  have inside := (Array.getElem?_eq_some_iff.mp found).1
  have found₁ : (w.lanes.setIfInBounds i { l with thread := l.thread.beginDispatch w.clock.now })[i]? = _ :=
    Array.getElem?_setIfInBounds_self_of_lt inside
  rcases bind_eq_error.mp h with stopped | ⟨⟨any, event'⟩, w₂, moved, h⟩
  · exact isLimit_of_dispatchUpTo acc₁ found₁ awake stopped
  have worked : Worked Thread.Admission _ w₂ := .of_moves Admit.admissions
    (admits_dispatchUpTo (fun lane at_i => by
      obtain rfl := Option.some.inj (found₁.symm.trans at_i)
      exact awake) moved)
  have inside₂ : i < w₂.lanes.size := by
    rw [worked.size_eq]
    simpa using inside
  dsimp only at h
  rw [get_bind, thread_bind_of_found (Array.getElem?_eq_getElem inside₂)] at h
  split at h
  · exact absurd h pure_ne_error
  · exact absurd h pure_ne_error

theorem isLimit_of_dispatchTurnOf {round : DispatchRound} (acc : w.Accounted) (inside : i < w.lanes.size)
    (h : dispatchTurnOf running round i w = .error f v) : f.isLimit = true := by
  have found := Array.getElem?_eq_getElem inside
  -- to charge a lane that is there never stops
  have charges : ∀ {cause : Thread → Cause} {u : Window M} {r : DispatchRound}, i < u.lanes.size →
      (modifyThread i (fun th => { th with cause := cause th }) >>= fun _ => pure r) u ≠ .error f v := by
    intro cause u r inside h
    rcases bind_eq_error.mp h with stopped | ⟨⟨⟩, _, -, h⟩
    · exact modifyThread_ne_error (Array.getElem?_eq_getElem inside) stopped
    · exact pure_ne_error h
  unfold dispatchTurnOf at h
  rw [get_bind, thread_bind_of_found found] at h
  split at h
  · exact absurd h (charges inside)
  rename_i up
  split at h
  · exact absurd h (charges inside)
  split at h
  · exact absurd h (charges inside)
  split at h
  · exact absurd h (charges inside)
  rw [not_lt] at up
  rcases bind_eq_error.mp h with stopped | ⟨⟨any, event⟩, w₁, moved, h⟩
  · exact isLimit_of_dispatchLane acc found up stopped
  · have worked : Worked Thread.Admission w w₁ := .of_moves Admit.admissions
      (admits_dispatchLane (fun lane at_i => by
        obtain rfl := Option.some.inj (found.symm.trans at_i)
        exact up) moved)
    exact absurd h (charges (worked.size_eq ▸ inside))

theorem isLimit_of_foldlM_dispatchTurnOf {lanes : List Nat} {round : DispatchRound} (acc : w.Accounted)
    (inside : ∀ i ∈ lanes, i < w.lanes.size)
    (h : lanes.foldlM (dispatchTurnOf running) round w = .error f v) : f.isLimit = true := by
  induction lanes generalizing round w with
  | nil => exact absurd h pure_ne_error
  | cons i rest ih =>
    rw [List.foldlM_cons] at h
    rcases bind_eq_error.mp h with stopped | ⟨round₁, w₁, first, h⟩
    · exact isLimit_of_dispatchTurnOf acc (inside i List.mem_cons_self) stopped
    · have worked := (worked_dispatchTurnOf first).mono Thread.Intake.work
      refine ih (acc.worked worked) (fun j mem => ?_) h
      rw [worked.size_eq]
      exact inside j (List.mem_cons_of_mem _ mem)

theorem isLimit_of_dispatch (acc : w.Accounted) (h : dispatch running w = .error f v) :
    f.isLimit = true := by
  unfold dispatch at h
  rw [get_bind] at h
  rcases bind_eq_error.mp h with stopped | ⟨round, w₁, -, h⟩
  · exact isLimit_of_foldlM_dispatchTurnOf acc (fun i mem => mem_rotation_iff.mp mem) stopped
  · rw [modify_bind] at h
    exact absurd h pure_ne_error

end Window

/-! ## Section 5: The issue stage -/

theorem Lane.stops_of_resolve {M : Type} [MemorySystem M] {f : Fault} {period : Period} {n : Nat} {l l' : Lane M}
    (h : Lane.resolve period n l = .error f l') : f.isLimit = true ∨ MemorySystem.Raises M f := by
  unfold Lane.resolve at h
  rw [get_bind] at h
  cases entry : l.thread.ring.get? n with
  | none =>
    simp only [entry] at h
    exact absurd h pure_ne_error
  | some e =>
  simp only [entry] at h
  split at h
  · rcases bind_eq_error.mp h with asked | ⟨served, _, -, h⟩
    · obtain ⟨m, stopped⟩ := zoom_eq_error asked
      exact .inr ⟨_, _, m, stopped⟩
    rcases bind_eq_error.mp h with rounded | ⟨cycles, _, -, h⟩
    · exact .inl (Time.isLimit_of_divideRounded (ofExcept_eq_error rounded))
    rcases bind_eq_error.mp h with resolved | ⟨u, _, -, h⟩
    · exact .inl (OpInstance.isLimit_of_resolveData (ofExcept_eq_error resolved))
    · exact absurd h modify_ne_error
  · exact absurd h pure_ne_error

namespace Thread

variable {config : Config} {clock : Clock} {th th' : Thread} {e : Entry} {f : Fault} {front seq : Nat} {done : Time}

theorem observeAddress_ne_error {producers : List Nat} {latest : Time} {resolved : Bool}
    (held : ∀ q ∈ producers, front ≤ q → th.Holds q) :
    th.observeAddress front seq done e producers latest resolved ≠ .error f := by
  induction producers generalizing latest resolved with
  | nil =>
    intro h
    cases h
  | cons q rest ih =>
    have others : ∀ q ∈ rest, front ≤ q → th.Holds q := fun q mem => held q (List.mem_cons_of_mem _ mem)
    intro h
    unfold observeAddress at h
    split at h
    · exact ih others h
    · rename_i present
      rcases Except.bind_eq_error.mp h with located | ⟨_, -, h⟩
      · exact (held q List.mem_cons_self (not_lt.mp present)).locate_ne_error located
      · exact ih others h

theorem wake_ne_error {consumer : Nat} (held : th.Holds consumer)
    (known : ∀ x ∈ th.ring.toList, ∀ q ∈ x.addressProducers.toList, front ≤ q → th.Holds q) :
    wake front seq done consumer th ≠ .error f th' := by
  intro h
  unfold wake at h
  rw [get_bind] at h
  rcases bind_eq_error.mp h with lost | ⟨⟨i, e⟩, _, found, h⟩
  · exact held.locate_ne_error (ofExcept_eq_error lost)
  obtain ⟨located, rfl⟩ := ofExcept_eq_ok.mp found
  have entry := List.mem_of_getElem? (locate_eq_ok located).1
  have frame := (Entry.woken_settle seq done e).frame
  dsimp only at h
  rcases bind_eq_error.mp h with stopped | ⟨_, _, -, h⟩
  · have stopped := ofExcept_eq_error stopped
    split at stopped
    · refine observeAddress_ne_error (fun q mem => known e entry q ?_) stopped
      rw [frame] at mem
      exact mem
    · cases stopped
  · exact modify_ne_error h

/-- Consumers that are there are woken. -/
theorem wakeAll_ne_error {consumers : List Nat} (held : ∀ q ∈ consumers, th.Holds q)
    (known : ∀ x ∈ th.ring.toList, ∀ q ∈ x.addressProducers.toList, front ≤ q → th.Holds q) :
    wakeAll front seq done consumers th ≠ .error f th' := by
  induction consumers generalizing th with
  | nil => exact pure_ne_error
  | cons consumer rest ih =>
    intro h
    unfold wakeAll at h
    rcases bind_eq_error.mp h with stopped | ⟨⟨⟩, th₁, woke, h⟩
    · exact wake_ne_error (held consumer List.mem_cons_self) known stopped
    obtain ⟨i, e, e', entry, -, woken, -, rfl⟩ := wake_eq_ok woke
    have stays : ∀ {q}, th.Holds q → (th.setEntry i e').Holds q := fun holds =>
      holds.setEntry entry woken.seq_eq
    refine ih (fun q mem => stays (held q (List.mem_cons_of_mem _ mem))) (fun x mem q listed present => ?_) h
    obtain ⟨k, at_k⟩ := List.getElem?_of_mem mem
    rw [toList_setEntry] at at_k
    have changed : Pointwise (Entry.Woken seq done) th.ring.toList (th.ring.toList.set i e') :=
      .set Entry.Woken.refl entry woken
    obtain ⟨y, before, same⟩ := changed.right at_k
    rw [same.frame] at listed
    exact stays (known y (List.mem_of_getElem? before) q listed present)

/-- An entry in the window that issues never stops over its consumers. -/
theorem Accounted.start_ne_error {n : Nat} {now latency : Time} (acc : th.Accounted config clock)
    (entry : th.ring.get? n = some e) : start n e now done latency th ≠ .error f th' := by
  intro h
  rw [← Ring.getElem?_toList] at entry
  unfold start at h
  rw [get_bind, modify_bind] at h
  have lowest : th.frontSeq?.getD e.seq = th.base := acc.oldestSeq_eq entry e
  have stays : ∀ {q}, th.Holds q →
      ({ th.setEntry n { e with issued := now, done } with
        stats := countAccess e.u.op latency th.stats } : Thread).Holds q := by
    intro q holds
    have holds' : (th.setEntry n { e with issued := now, done }).Holds q := holds.setEntry entry rfl
    exact holds'
  refine wakeAll_ne_error (fun q mem => stays (acc.holds_consumer entry mem)) (fun x mem q listed present => ?_) h
  rw [lowest] at present
  have inside : x ∈ (th.setEntry n { e with issued := now, done }).ring.toList := mem
  rw [toList_setEntry] at inside
  rcases List.mem_or_eq_of_mem_set inside with old | rfl
  · obtain ⟨k, at_k⟩ := List.getElem?_of_mem old
    exact stays (acc.holds_address at_k listed present)
  · exact stays (acc.holds_address entry listed present)

end Thread

namespace Window

variable {M : Type} [MemorySystem M] {w v : Window M} {f : Fault} {i n k : Nat} {l : Lane M} {e : Entry}

theorem stops_of_issueEntry (acc : w.Accounted) (found : w.lanes[i]? = some l) (inside : n < l.thread.inWindow)
    (entry : l.thread.ring.get? n = some e) (waiting : e.isDone = false)
    (h : issueEntry i n w = .error f v) : f.isLimit = true ∨ MemorySystem.Raises M f := by
  unfold issueEntry at h
  rw [get_bind] at h
  rcases bind_eq_error.mp h with stopped | ⟨⟨⟩, w₁, asked, h⟩
  · obtain ⟨l', stopped⟩ := onLane_eq_error found stopped
    exact Lane.stops_of_resolve stopped
  obtain ⟨l₀, l₁, found₀, resolved, rfl⟩ := onLane_eq_ok.mp asked
  obtain rfl : l = l₀ := Option.some.inj (found.symm.trans found₀)
  obtain ⟨e₁, asked⟩ := Lane.resolve_eq_ok entry resolved
  have at_i := (Array.getElem?_eq_some_iff.mp found).1
  have found₁ : (w.lanes.setIfInBounds i l₁)[i]? = some l₁ := Array.getElem?_setIfInBounds_self_of_lt at_i
  rw [get_bind, thread_bind_of_found found₁] at h
  simp only [asked.entry entry, modify_bind] at h
  rcases bind_eq_error.mp h with stopped | ⟨_, _, -, h⟩
  · obtain ⟨th, stopped⟩ := onThread_eq_error (w := accept _ _ _) found₁ stopped
    have acc₁ := (acc i l found).works (asked.works inside entry waiting)
    exact absurd stopped (acc₁.start_ne_error (asked.entry entry))
  · exact absurd h pure_ne_error

theorem stops_of_issueFrom {pass : IssuePass} (acc : w.Accounted) (found : w.lanes[i]? = some l)
    (inside : k + n ≤ l.thread.inWindow) (h : issueFrom i n k pass w = .error f v) :
    f.isLimit = true ∨ MemorySystem.Raises M f := by
  -- along the pass; accounted windows stay so while entries issue
  induction n generalizing k pass w l with
  | zero => exact absurd h pure_ne_error
  | succ n ih =>
    unfold issueFrom at h
    rw [get_bind, thread_bind_of_found found] at h
    cases entry : l.thread.ring.get? k with
    | none =>
      simp only [entry] at h
      exact absurd h pure_ne_error
    | some e =>
      simp only [entry] at h
      cases waiting : e.isDone with
      | true =>
        simp only [waiting, if_true] at h
        exact ih acc found (by omega) h
      | false =>
        simp only [waiting, Bool.false_eq_true, if_false] at h
        cases verdict : w.judge { pass with event := min pass.event e.ready } e with
        | stop =>
          simp only [verdict] at h
          exact absurd h pure_ne_error
        | issue =>
          simp only [verdict] at h
          rcases bind_eq_error.mp h with stopped | ⟨done, w₁, issued, h⟩
          · exact stops_of_issueEntry acc found (by omega) entry waiting stopped
          obtain ⟨l₁, found₁, span₁⟩ := inWindow_issueEntry found entry issued
          rcases bind_eq_error.mp h with stopped | ⟨⟨⟩, w₂, counted, h⟩
          · exact absurd stopped (modifyThread_ne_error found₁)
          have first := (Fire.issue found (by omega) entry waiting verdict issued).worked
          rw [← first.clock] at counted
          have acc₂ := (acc.worked first).worked (Fire.note (.account counted)).worked
          obtain ⟨l₀, found₀, rfl⟩ := modifyThread_eq_ok.mp counted
          obtain rfl : l₁ = l₀ := Option.some.inj (found₁.symm.trans found₀)
          have at_i := (Array.getElem?_eq_some_iff.mp found₁).1
          split at h
          · exact absurd h pure_ne_error
          · refine ih acc₂ (Array.getElem?_setIfInBounds_self_of_lt at_i) ?_ h
            dsimp only
            rw [(Thread.sameFlow_accountLongLoad _ _ _ _).inWindow, span₁]
            omega
        | _ =>
          simp only [verdict] at h
          split at h
          · exact absurd h pure_ne_error
          · exact ih acc found (by omega) h

theorem stops_of_issueLane {event : Time} (acc : w.Accounted) (inside : i < w.lanes.size)
    (h : issueLane i event w = .error f v) : f.isLimit = true ∨ MemorySystem.Raises M f := by
  have found := Array.getElem?_eq_getElem inside
  unfold issueLane at h
  rw [get_bind, thread_bind_of_found found] at h
  split at h
  · exact absurd h pure_ne_error
  split at h
  · exact absurd h pure_ne_error
  rcases bind_eq_error.mp h with stopped | ⟨pass, w₁, looked, h⟩
  · exact stops_of_issueFrom acc found (by omega) stopped
  have worked : Worked Thread.Firing w w₁ := .of_moves Fire.firings (fires_issueFrom found (by omega) looked)
  rcases bind_eq_error.mp h with stopped | ⟨_, _, -, h⟩
  · exact absurd stopped (modifyThread_ne_error (Array.getElem?_eq_getElem (worked.size_eq ▸ inside)))
  · exact absurd h pure_ne_error

theorem stops_of_issueLanes {lanes : List Nat} {event : Time} (acc : w.Accounted)
    (inside : ∀ i ∈ lanes, i < w.lanes.size) (h : issueLanes lanes event w = .error f v) :
    f.isLimit = true ∨ MemorySystem.Raises M f := by
  induction lanes generalizing event w with
  | nil => exact absurd h pure_ne_error
  | cons i rest ih =>
    unfold issueLanes at h
    rcases bind_eq_error.mp h with stopped | ⟨⟨any, event'⟩, w₁, turn, h⟩
    · exact stops_of_issueLane acc (inside i List.mem_cons_self) stopped
    have worked : Worked Thread.Work w w₁ := .of_moves Fire.worked (fires_issueLane turn)
    dsimp only at h
    rw [get_bind] at h
    split at h
    · exact absurd h pure_ne_error
    · refine ih (acc.worked worked) (fun j mem => ?_) h
      rw [worked.size_eq]
      exact inside j (List.mem_cons_of_mem _ mem)

theorem stops_of_issue (acc : w.Accounted) (h : issue w = .error f v) :
    f.isLimit = true ∨ MemorySystem.Raises M f := by
  unfold issue at h
  rw [get_bind] at h
  rcases bind_eq_error.mp h with stopped | ⟨⟨last, event⟩, w₁, -, h⟩
  · exact stops_of_issueLanes acc (fun i mem => mem_rotation_iff.mp mem) stopped
  · simp only [modify_bind] at h
    exact absurd h pure_ne_error

end Window

/-! ## Section 6: The commit stage, and a whole cycle -/

theorem Thread.isLimit_of_commit {f : Fault} {clock : Clock} {penalty width : Nat} {keepLog : Bool}
    {th th' : Thread} (h : Thread.commit clock penalty keepLog width th = .error f th') :
    f.isLimit = true := by
  induction width generalizing th with
  | zero => exact absurd h pure_ne_error
  | succ width ih =>
    unfold Thread.commit at h
    rw [get_bind] at h
    cases entry : th.oldest? with
    | none =>
      simp only [entry] at h
      exact absurd h pure_ne_error
    | some e =>
    simp only [entry] at h
    split at h
    · exact absurd h pure_ne_error
    rw [modify_bind] at h
    split at h
    · rw [get_bind, get_bind] at h
      rcases bind_eq_error.mp h with stopped | ⟨_, _, -, h⟩
      · rcases Except.bind_eq_error.mp (ofExcept_eq_error stopped) with added | ⟨_, -, h⟩
        · exact Word.isLimit_of_add added
        · cases h
      · rw [set_bind] at h
        exact absurd h pure_ne_error
    · exact ih h

namespace Window

variable {M : Type} [MemorySystem M] {w v : Window M} {f : Fault} {running : Running} {stride : Stride M}

theorem isLimit_of_forM_commitLane {lanes : List Nat} (inside : ∀ i ∈ lanes, i < w.lanes.size)
    (h : lanes.forM commitLane w = .error f v) : f.isLimit = true := by
  induction lanes generalizing w with
  | nil => exact absurd h pure_ne_error
  | cons i rest ih =>
    rcases bind_eq_error.mp h with stopped | ⟨⟨⟩, w₁, turn, h⟩
    · unfold commitLane at stopped
      rw [get_bind] at stopped
      rcases bind_eq_error.mp stopped with stopped | ⟨_, _, -, stopped⟩
      · obtain ⟨th, stopped⟩ :=
          onThread_eq_error (Array.getElem?_eq_getElem (inside i List.mem_cons_self)) stopped
        exact Thread.isLimit_of_commit stopped
      · exact absurd stopped modify_ne_error
    · refine ih (fun j mem => ?_) h
      rw [(leads_commitLane turn).size_eq]
      exact inside j (List.mem_cons_of_mem _ mem)

theorem isLimit_of_commit (h : commit w = .error f v) : f.isLimit = true := by
  unfold commit at h
  rw [get_bind] at h
  rcases bind_eq_error.mp h with stopped | ⟨⟨⟩, w₁, -, h⟩
  · exact isLimit_of_forM_commitLane (fun i mem => List.mem_range.mp mem) stopped
  · rw [get_bind] at h
    cases first : w₁.lanes[0]? <;> simp only [first] at h <;> exact absurd h pure_ne_error

/-- Whatever entries look up and whichever lanes have a turn, a cycle of a window that calls lead to only stops
where a capacity other than that of a ring is exceeded, or because memory does. -/
theorem halts_of_cycle (acc : w.Accounted) (h : cycle stride running w = .error f v) :
    f.isLimit = true ∨ MemorySystem.Raises M f := by
  unfold cycle at h
  rcases bind_eq_error.mp h with stopped | ⟨_, w₁, dispatched, h⟩
  · exact .inl (isLimit_of_dispatch acc stopped)
  rcases bind_eq_error.mp h with stopped | ⟨_, w₂, -, h⟩
  · exact stops_of_issue (acc.worked ((worked_dispatch dispatched).mono Thread.Intake.work)) stopped
  rcases bind_eq_error.mp h with stopped | ⟨_, w₃, -, h⟩
  · exact .inl (isLimit_of_commit stopped)
  · exact absurd h modify_ne_error

theorem stops_of_cycle (acc : w.Accounted) (h : cycle stride running w = .error f v) :
    f.isCapacity = true ∨ MemorySystem.Raises M f :=
  (halts_of_cycle acc h).imp_left Fault.isCapacity_of_isLimit

end Window

end CoreTiming
