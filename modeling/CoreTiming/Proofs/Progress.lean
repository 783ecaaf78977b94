import CoreTiming.Proofs.Told
import Mathlib.Data.Prod.Lex

/-!
# What is left to do

The micro-ops of a window have to leave, and on their way each of them is fetched, enters, and issues.
`Window.pending` counts the micro-ops that are left, `Window.chores` what is left to be done for them.
Whatever a cycle does makes the first number smaller, or keeps it and makes the second one smaller
(`Window.Advances`), or else it leaves everything that decides about later cycles as it was
(`Window.Rests`).
-/

namespace CoreTiming

open Faulting

/-! ## Section 1: Threads -/

/-- Whether the instruction has not been fetched yet. -/
def Entry.unfetched (e : Entry) : Bool := e.u.fetchHit != .l1i

namespace Thread

variable {config : Config} {clock : Clock} {th th' th'' : Thread} {e : Entry} {i : Nat}

/-- What is left to be done for a thread before its micro-ops can leave: each of them enters and issues,
and a fetch begins and ends. -/
def chores (th : Thread) : Nat :=
  2 * th.buffered + th.stationsHeld +
    (2 * th.ring.toList.countP Entry.unfetched + if th.fetching then 0 else 1)

/-- A micro-op has left, or else something has been done for those that are there. -/
def Advances (th th' : Thread) : Prop :=
  th'.ring.length < th.ring.length ∨ th'.ring.length = th.ring.length ∧ th'.chores < th.chores

/-- Nothing has been done for the thread, and nothing that it waits for has moved. -/
structure Rests (th th' : Thread) : Prop where
  /-- The entries are the same. -/
  ring : th'.ring = th.ring
  /-- As many of them are in the window. -/
  inWindow : th'.inWindow = th.inWindow
  /-- The front end is stalled up to the same time. -/
  stalledUntil : th'.stalledUntil = th.stalledUntil
  /-- It waits for a fetch if it did before. -/
  fetching : th'.fetching = th.fetching
  /-- The thread knows of the same latency. -/
  now : th'.now = th.now
  /-- No long load has come to be in flight. -/
  longLoads : th'.longLoads ⊆ th.longLoads

theorem Rests.refl (th : Thread) : th.Rests th := ⟨rfl, rfl, rfl, rfl, rfl, fun _ mem => mem⟩

theorem Rests.trans (h : th.Rests th') (h' : th'.Rests th'') : th.Rests th'' :=
  ⟨h'.ring.trans h.ring, h'.inWindow.trans h.inWindow, h'.stalledUntil.trans h.stalledUntil,
    h'.fetching.trans h.fetching, h'.now.trans h.now, fun _ mem => h.longLoads (h'.longLoads mem)⟩

theorem stationsHeld_eq (th : Thread) : th.stationsHeld = th.window.countP (·.issued.isNever) :=
  Ring.countAmong_eq _ _ _

theorem Rests.chores_eq (h : th.Rests th') : th'.chores = th.chores := by
  unfold chores buffered stationsHeld
  rw [h.ring, h.inWindow, h.fetching]

/-- Entries that stay in place and keep what is counted leave as much to be done. -/
theorem stationsHeld_of_pointwise {R : Entry → Entry → Prop}
    (related : Pointwise R th.ring.toList th'.ring.toList) (inWindow : th'.inWindow = th.inWindow)
    (issued : ∀ e e', R e e' → e'.issued = e.issued) : th'.stationsHeld = th.stationsHeld := by
  rw [stationsHeld_eq, stationsHeld_eq, window, window, inWindow]
  exact (related.take _).countP_eq fun e e' same => by rw [issued e e' same]

theorem unfetched_of_pointwise {R : Entry → Entry → Prop}
    (related : Pointwise R th.ring.toList th'.ring.toList)
    (fetchHit : ∀ e e', R e e' → e'.u.fetchHit = e.u.fetchHit) :
    th'.ring.toList.countP Entry.unfetched = th.ring.toList.countP Entry.unfetched :=
  related.countP_eq fun e e' same => by unfold Entry.unfetched; rw [fetchHit e e' same]

/-! ## Section 2: Dispatch, seen from the thread -/

/-- Outside the window, an entry may change without a reservation station being taken. -/
theorem window_setEntry_of_le (outside : th.inWindow ≤ i) (x : Entry) :
    (th.setEntry i x).window = th.window := by
  show ((th.setEntry i x).ring.toList).take th.inWindow = _
  rw [toList_setEntry, List.take_set_of_le outside]
  rfl

/-- A fetch that begins or ends is a step ahead; otherwise there is nothing to fetch. -/
theorem fetchNext_advances (clock : Clock) (next : th.ring.get? th.inWindow = some e) :
    th.Advances (fetchNext clock e th).2 ∨ fetchNext clock e th = (true, th) := by
  rcases fetchNext_cases clock e th with ⟨-, eq⟩ | ⟨miss, fetching, eq⟩ | ⟨-, fetching, eq⟩
  · exact .inr eq
  · rw [eq]
    have length : (th.setEntry th.inWindow e.fetched).ring.length = th.ring.length :=
      length_setEntry _ _ _
    refine .inl (.inr ⟨length, ?_⟩)
    -- the instruction counts as fetched from now on
    have fewer : (th.setEntry th.inWindow e.fetched).ring.toList.countP Entry.unfetched + 1 =
        th.ring.toList.countP Entry.unfetched := by
      rw [← Ring.getElem?_toList] at next
      obtain ⟨inside, entry⟩ := List.getElem?_eq_some_iff.mp next
      have before : e.unfetched = true := by simpa [Entry.unfetched] using miss
      have after : e.fetched.unfetched = false := rfl
      have some : 0 < th.ring.toList.countP Entry.unfetched :=
        List.countP_pos_iff.mpr ⟨e, List.mem_of_getElem? next, before⟩
      rw [toList_setEntry, List.countP_set inside, entry, before, after]
      simp only [if_true, Bool.false_eq_true, if_false]
      omega
    have held : (th.setEntry th.inWindow e.fetched).stationsHeld = th.stationsHeld := by
      rw [stationsHeld_eq, stationsHeld_eq, window_setEntry_of_le (le_refl _)]
    show 2 * ((th.setEntry th.inWindow e.fetched).ring.length - th.inWindow) +
      (th.setEntry th.inWindow e.fetched).stationsHeld +
      (2 * (th.setEntry th.inWindow e.fetched).ring.toList.countP Entry.unfetched + 1) < th.chores
    unfold chores buffered
    rw [length, held, fetching, if_pos rfl]
    omega
  · rw [eq]
    refine .inl (.inr ⟨rfl, ?_⟩)
    show 2 * th.buffered + th.stationsHeld + (2 * th.ring.toList.countP Entry.unfetched + 0) < th.chores
    unfold chores
    simp [fetching]

/-- An entry that enters stands at the end of the window. -/
theorem window_enter (inside : th.inWindow < th.ring.length) (x : Entry) :
    (th.enter x).window = th.window ++ [x] := by
  show ((th.setEntry th.inWindow x).ring.toList).take (th.inWindow + 1) = _
  rw [← Ring.length_toList] at inside
  have inside' : th.inWindow < (th.ring.toList.set th.inWindow x).length := by rwa [List.length_set]
  rw [toList_setEntry, List.take_succ_eq_append_getElem inside', List.getElem_set_self,
    List.take_set_of_le (le_refl _)]
  rfl

theorem stationsHeld_enter (inside : th.inWindow < th.ring.length) (x : Entry) :
    (th.enter x).stationsHeld = th.stationsHeld + if x.issued.isNever then 1 else 0 := by
  rw [stationsHeld_eq, stationsHeld_eq, window_enter inside, List.countP_append, List.countP_singleton]

/-- Linking an entry leaves as much to be done for the others. -/
theorem Linked.counts {forwarding : Bool} {e' : Entry} (h : Linked forwarding th e th' e') :
    th'.ring.length = th.ring.length ∧ th'.stationsHeld = th.stationsHeld ∧
      th'.ring.toList.countP Entry.unfetched = th.ring.toList.countP Entry.unfetched := by
  refine ⟨?_, stationsHeld_of_pointwise h.ring (by rw [h.thread]) fun e e' listed => ?_,
    unfetched_of_pointwise h.ring fun e e' listed => ?_⟩
  · exact length_of_pointwise h.ring
  · rw [listed.frame]
  · rw [listed.frame]

/-- To enter the window is a step ahead. -/
theorem enter_advances {forwarding : Bool} {e' x : Entry} (inside : th.inWindow < th.ring.length)
    (linked : link forwarding e th = .ok e' th') (fetched : x.u.fetchHit = .l1i) :
    th.Advances (th'.enter x) := by
  have link := linked_link linked
  obtain ⟨length, held, unfetched⟩ := link.counts
  have inWindow : th'.inWindow = th.inWindow := by rw [link.thread]
  have fetching : th'.fetching = th.fetching := by rw [link.thread]
  have inside' : th'.inWindow < th'.ring.length := by omega
  have entered : (th'.enter x).ring.length = th.ring.length := by
    show (th'.setEntry th'.inWindow x).ring.length = _
    rw [length_setEntry, length]
  have fewer : (th'.enter x).ring.toList.countP Entry.unfetched ≤
      th.ring.toList.countP Entry.unfetched := by
    show (th'.setEntry th'.inWindow x).ring.toList.countP Entry.unfetched ≤ _
    have none : x.unfetched = false := by simp [Entry.unfetched, fetched]
    rw [toList_setEntry, List.countP_set (by rwa [Ring.length_toList]), none, ← unfetched]
    simp
  have occupied := stationsHeld_enter inside' x
  refine .inr ⟨entered, ?_⟩
  unfold chores buffered
  rw [entered]
  show 2 * (th.ring.length - (th'.inWindow + 1)) + (th'.enter x).stationsHeld +
    (2 * (th'.enter x).ring.toList.countP Entry.unfetched + if th'.fetching then 0 else 1) < _
  rw [fetching, inWindow]
  have one : (if x.issued.isNever = true then 1 else 0) ≤ 1 := by split <;> decide
  omega

theorem Advances.trans (h : th.Advances th') (h' : th'.Advances th'') : th.Advances th'' := by
  unfold Advances at *
  omega

/-- An attempt to dispatch is a step ahead unless something holds it up, and then it leaves the thread
as it was but for the reason. -/
theorem Attempt.advances {forwarding free : Bool} {d : Dispatched}
    (h : Attempt forwarding clock free th d th') :
    th.Advances th' ∨ (th' = { th with stall := th'.stall } ∧ ∀ ready, d ≠ .entered ready) := by
  cases h with
  | empty nothing => exact .inr ⟨rfl, fun _ => by simp⟩
  | @fetch e next missing =>
    rcases fetchNext_advances clock next with ahead | same
    · exact .inl ahead
    · rw [same] at missing
      cases missing
  | @full e next fetched full =>
    rcases fetchNext_advances clock next with ahead | same
    · exact .inl ahead
    · rw [same]
      exact .inr ⟨rfl, fun _ => by simp⟩
  | @loads e load next fetched blocking =>
    rcases fetchNext_advances clock next with ahead | same
    · exact .inl ahead
    · rw [same]
      exact .inr ⟨rfl, fun _ => by simp⟩
  | @enter e e' th₁ next fetched station linked =>
    have next' := get?_fetchNext next fetched
    rw [← Ring.getElem?_toList] at next'
    have inside := (List.getElem?_eq_some_iff.mp next').1
    rw [Ring.length_toList] at inside
    have hit : e'.u.fetchHit = .l1i := by rw [(linked_link linked).entry]; rfl
    have entered := enter_advances inside linked
      (x := { e' with dispatched := clock.now, ready := max e'.ready clock.next }) hit
    rcases fetchNext_advances clock next with ahead | same
    · exact .inl (ahead.trans entered)
    · rw [same] at entered
      exact .inl entered

/-- A thread with a micro-op to dispatch gets ahead if a reservation station is free and few long loads
are in flight. -/
theorem dispatchOne_advances {forwarding : Bool} {d : Dispatched} (waiting : 0 < th.buffered)
    (few : th.longLoads.length < LongLoad.maxOutstanding)
    (h : dispatchOne forwarding clock true th = .ok d th') : th.Advances th' := by
  have inside : th.inWindow < th.ring.toList.length := by
    unfold buffered at waiting
    rw [Ring.length_toList]
    omega
  have tried := attempt_of_ok h
  rcases tried.advances with ahead | ⟨-, blocked⟩
  · exact ahead
  -- nothing else can have held it up
  cases tried with
  | empty nothing =>
    rw [← Ring.getElem?_toList, List.getElem?_eq_none_iff] at nothing
    omega
  | fetch next missing =>
    rcases fetchNext_advances clock next with ahead | same
    · exact ahead
    · rw [same] at missing
      cases missing
  | full next fetched full => cases full
  | @loads e load next fetched blocking =>
    rcases fetchNext_advances clock next with ahead | same
    · exact ahead
    · rw [same] at blocking
      unfold blockingLoad? at blocking
      rw [if_pos few] at blocking
      cases blocking
  | enter => exact absurd rfl (blocked _)

/-! ## Section 3: Issue and commit, seen from the thread -/

/-- What is left to be done shows in the entries, the size of the window and the front end. -/
theorem chores_congr (ring : th'.ring = th.ring) (inWindow : th'.inWindow = th.inWindow)
    (fetching : th'.fetching = th.fetching) : th'.chores = th.chores := by
  unfold chores buffered stationsHeld
  rw [ring, inWindow, fetching]

/-- Where an entry issues that memory has been asked about, nothing else has changed. -/
theorem Asked.issuedAt {n : Nat} {e₁ : Entry} {th₁ : Thread} (asked : th.Asked n e th₁ e₁)
    (now done : Time) : th₁ = { th with ring := th₁.ring } ∧
      th₁.issuedAt n e₁ now done = th.ring.toList.set n { e₁ with issued := now, done } := by
  rcases asked with ⟨rfl, rfl⟩ | ⟨hit, cycles, u, -, rfl, rfl⟩
  · exact ⟨rfl, rfl⟩
  · refine ⟨rfl, ?_⟩
    unfold Thread.issuedAt
    rw [toList_setEntry, List.set_set]

/-- Memory changes what is known of the access, and nothing else. -/
theorem Asked.same_entry {n : Nat} {e₁ : Entry} {th₁ : Thread} (asked : th.Asked n e th₁ e₁) :
    e₁.issued = e.issued ∧ e₁.unfetched = e.unfetched := by
  rcases asked with ⟨-, rfl⟩ | ⟨hit, cycles, u, resolved, rfl, -⟩
  · exact ⟨rfl, rfl⟩
  · refine ⟨rfl, ?_⟩
    unfold Entry.unfetched
    rw [OpInstance.resolveData_eq_ok resolved]

/-- An entry of the window that issues gives its reservation station back, if it has one. -/
theorem start_counts {n : Nat} {e₁ : Entry} {th₁ : Thread} {now done latency : Time}
    (inside : n < th.inWindow) (entry : th.ring.get? n = some e) (asked : th.Asked n e th₁ e₁)
    (h : start n e₁ now done latency th₁ = .ok () th') :
    th'.ring.length = th.ring.length ∧ th'.inWindow = th.inWindow ∧ th'.fetching = th.fetching ∧
      th'.ring.toList.countP Entry.unfetched = th.ring.toList.countP Entry.unfetched ∧
      th'.stationsHeld + (if e.issued.isNever then 1 else 0) =
        th.stationsHeld + if now.isNever then 1 else 0 := by
  obtain ⟨frame, -, woken, -, -⟩ := start_eq_ok h
  obtain ⟨frame₁, ring⟩ := asked.issuedAt now done
  rw [ring] at woken
  rw [← Ring.getElem?_toList] at entry
  obtain ⟨at_n, found⟩ := List.getElem?_eq_some_iff.mp entry
  have inWindow : th'.inWindow = th.inWindow := by rw [frame, frame₁]
  have fetching : th'.fetching = th.fetching := by rw [frame, frame₁]
  refine ⟨?_, inWindow, fetching, ?_, ?_⟩
  · rw [← Ring.length_toList, ← Ring.length_toList, woken.length_eq, List.length_set]
  · -- only the entry itself could change the count, and it is fetched as it was
    rw [woken.countP_eq (p := Entry.unfetched) fun x y told => by
      unfold Entry.unfetched; rw [told.frame], List.countP_set at_n, found]
    have same : ({ e₁ with issued := now, done } : Entry).unfetched = e.unfetched := asked.same_entry.2
    rw [same]
    cases missing : e.unfetched with
    | true =>
      have : 0 < th.ring.toList.countP Entry.unfetched :=
        List.countP_pos_iff.mpr ⟨e, List.mem_of_getElem? entry, missing⟩
      simp only [if_true]
      omega
    | false => rfl
  · -- a station is held for as long as the entry shows no time of issue
    have inWindow' : n < (th.ring.toList.take th.inWindow).length := by
      rw [List.length_take]
      omega
    have entry' : (th.ring.toList.take th.inWindow)[n] = e := by
      rw [List.getElem_take, found]
    rw [stationsHeld_eq, stationsHeld_eq, window, window, inWindow,
      (woken.take _).countP_eq (p := fun x => x.issued.isNever) fun x y told => by rw [told.frame],
      List.take_set, List.countP_set inWindow', entry']
    have some : e.issued.isNever = true → 0 < (th.ring.toList.take th.inWindow).countP (·.issued.isNever) :=
      fun missing => List.countP_pos_iff.mpr ⟨e, entry' ▸ List.getElem_mem inWindow', missing⟩
    cases held : e.issued.isNever with
    | true =>
      have := some held
      simp only [if_true]
      omega
    | false =>
      simp only [Bool.false_eq_true, if_false]
      omega

/-- To issue is a step ahead for an entry that has not issued before. -/
theorem start_advances {n : Nat} {e₁ : Entry} {th₁ : Thread} {now done latency : Time}
    (inside : n < th.inWindow) (entry : th.ring.get? n = some e) (asked : th.Asked n e th₁ e₁)
    (first : e.issued = .never) (intime : now ≠ .never)
    (h : start n e₁ now done latency th₁ = .ok () th') : th.Advances th' := by
  obtain ⟨length, inWindow, fetching, unfetched, held⟩ := start_counts inside entry asked h
  refine .inr ⟨length, ?_⟩
  rw [first, Time.isNever_iff.mpr rfl, Time.isNever_eq_false_iff.mpr intime] at held
  simp only [if_true, Bool.false_eq_true, if_false] at held
  unfold chores buffered
  rw [length, inWindow, fetching, unfetched]
  omega

/-- The commit stage lets micro-ops leave, or else the oldest one is not done and the thread stays as it
was. -/
theorem commit_advances {penalty width freed : Nat} {keepLog : Bool}
    (h : commit clock penalty keepLog width th = .ok freed th') :
    (th' = th ∧ freed = 0 ∧ (0 < width → ∀ e, th.oldest? = some e → clock.now < e.done)) ∨
      th'.ring.length < th.ring.length := by
  induction width generalizing th with
  | zero =>
    obtain ⟨rfl, rfl⟩ := pure_eq_ok.mp h
    exact .inl ⟨rfl, rfl, fun some => absurd some (Nat.lt_irrefl 0)⟩
  | succ width ih =>
    have shorter : ∀ {e : Entry}, th.oldest? = some e →
        (th.retire keepLog clock.now e).ring.length < th.ring.length := fun oldest => by
      have := length_tail oldest
      show th.ring.tail.length < th.ring.length
      omega
    cases departure_of_commit h with
    | empty nothing => exact .inl ⟨rfl, rfl, fun _ e found => nomatch nothing.symm.trans found⟩
    | early oldest early =>
      refine .inl ⟨rfl, rfl, fun _ e' found => ?_⟩
      cases oldest.symm.trans found
      exact early
    | flush oldest _ _ flushed =>
      right
      rw [← Ring.length_toList, (flush_eq_ok flushed).1, List.length_mapIdx, Ring.length_toList]
      exact shorter oldest
    | leave oldest _ _ rest =>
      right
      rcases ih rest with ⟨rfl, -⟩ | less
      · exact shorter oldest
      · exact less.trans (shorter oldest)

end Thread

/-! ## Section 4: Windows -/

namespace Window

variable {M : Type} {w v x : Window M} {i : Nat} {l l' : Lane M}

/-- What the threads of a window come to together. -/
def total (f : Thread → Nat) (w : Window M) : Nat := (w.lanes.toList.map fun l => f l.thread).sum

/-- If one lane changes, the rest come to the same as before. -/
theorem total_setLane (f : Thread → Nat) (found : w.lanes[i]? = some l)
    (lanes : v.lanes = w.lanes.setIfInBounds i l') :
    v.total f + f l.thread = w.total f + f l'.thread := by
  obtain ⟨inside, rfl⟩ := Array.getElem?_eq_some_iff.mp found
  have split := congrArg (fun ls => (ls.map fun l : Lane M => f l.thread).sum)
    (List.take_append_drop i w.lanes.toList)
  have first : w.lanes.toList.drop i = w.lanes[i] :: w.lanes.toList.drop (i + 1) := by
    rw [List.drop_eq_getElem_cons (by simpa using inside), Array.getElem_toList]
  rw [first] at split
  unfold total
  rw [lanes, Array.toList_setIfInBounds, List.set_eq_take_append_cons_drop,
    if_pos (by simpa using inside), ← split]
  simp only [List.map_append, List.map_cons, List.sum_append, List.sum_cons]
  omega

theorem total_congr {f : Thread → Nat} {R : Lane M → Lane M → Prop}
    (lanes : Pointwise R w.lanes.toList v.lanes.toList)
    (same : ∀ l l', R l l' → f l'.thread = f l.thread) : v.total f = w.total f := by
  unfold total
  rw [lanes.map_eq (f := fun l => f l.thread) same]

/-- How many micro-ops are left in the window or in front of it. -/
def pending (w : Window M) : Nat := w.total (·.ring.length)

/-- What is left to be done for them before they can leave. -/
def chores (w : Window M) : Nat := w.total (·.chores)

/-- A micro-op has left, or else something has been done for those that are there. -/
def Advances (w v : Window M) : Prop :=
  v.pending < w.pending ∨ v.pending = w.pending ∧ v.chores < w.chores

/-- Nothing has been done, and nothing that is waited for has moved. -/
structure Rests (w v : Window M) : Prop where
  /-- The parameters stay. -/
  config : v.config = w.config
  /-- No time has passed. -/
  clock : v.clock = w.clock
  /-- The window is split as before. -/
  share : v.share = w.share
  /-- Every thread rests. -/
  lanes : Pointwise (fun l l' => l.thread.Rests l'.thread) w.lanes.toList v.lanes.toList
  /-- As many reservation stations are in use. -/
  stationsUsed : v.stationsUsed = w.stationsUsed
  /-- The load queue is as it was. -/
  loadQueue : v.loadQueue.freeAt = w.loadQueue.freeAt
  /-- The store queue is as it was. -/
  storeQueue : v.storeQueue.freeAt = w.storeQueue.freeAt
  /-- Stores drain at the same time. -/
  lastStoreDone : v.lastStoreDone = w.lastStoreDone

theorem Rests.refl (w : Window M) : w.Rests w :=
  ⟨rfl, rfl, rfl, .refl (fun _ => .refl _) _, rfl, rfl, rfl, rfl⟩

theorem Rests.trans (h : w.Rests v) (h' : v.Rests x) : w.Rests x :=
  ⟨h'.config.trans h.config, h'.clock.trans h.clock, h'.share.trans h.share,
    h.lanes.trans (fun _ _ _ => .trans) h'.lanes, h'.stationsUsed.trans h.stationsUsed,
    h'.loadQueue.trans h.loadQueue, h'.storeQueue.trans h.storeQueue,
    h'.lastStoreDone.trans h.lastStoreDone⟩

theorem Rests.pending_eq (h : w.Rests v) : v.pending = w.pending :=
  total_congr h.lanes fun _ _ rests => by rw [rests.ring]

theorem Rests.chores_eq (h : w.Rests v) : v.chores = w.chores :=
  total_congr h.lanes fun _ _ rests => rests.chores_eq

theorem Advances.trans (h : w.Advances v) (h' : v.Advances x) : w.Advances x := by
  unfold Advances at *
  omega

theorem Advances.rests (h : w.Advances v) (h' : v.Rests x) : w.Advances x := by
  unfold Advances at *
  rw [h'.pending_eq, h'.chores_eq]
  exact h

theorem Rests.advances (h : w.Rests v) (h' : v.Advances x) : w.Advances x := by
  unfold Advances at *
  rwa [← h.pending_eq, ← h.chores_eq]

/-- Either something has been done, or nothing that is waited for has moved. -/
def Proceeds (w v : Window M) : Prop := w.Advances v ∨ w.Rests v

theorem Proceeds.refl (w : Window M) : w.Proceeds w := .inr (.refl w)

theorem Advances.proceeds (h : w.Advances v) (h' : v.Proceeds x) : w.Advances x :=
  h'.elim h.trans h.rests

theorem Proceeds.trans (h : w.Proceeds v) (h' : v.Proceeds x) : w.Proceeds x :=
  h.elim (fun ahead => .inl (ahead.proceeds h')) fun rests => h'.imp rests.advances rests.trans

/-- If one thread gets ahead while the others stay as they are, so does the window. -/
theorem advances_setLane (found : w.lanes[i]? = some l) (lanes : v.lanes = w.lanes.setIfInBounds i l')
    (ahead : l.thread.Advances l'.thread) : w.Advances v := by
  have lengths := total_setLane (fun th => th.ring.length) found lanes
  have chores := total_setLane (·.chores) found lanes
  rcases ahead with fewer | ⟨same, fewer⟩
  · refine .inl ?_
    unfold pending
    omega
  · refine .inr ⟨?_, ?_⟩
    · unfold pending
      omega
    · unfold Window.chores
      omega

/-- If one thread rests while the others stay as they are, so does the window. -/
theorem rests_setLane (found : w.lanes[i]? = some l) (rests : l.thread.Rests l'.thread) :
    w.Rests { w with lanes := w.lanes.setIfInBounds i l' } := by
  refine ⟨rfl, rfl, rfl, ?_, rfl, rfl, rfl, rfl⟩
  rw [Array.toList_setIfInBounds]
  exact .set (fun _ => .refl _) (by simpa using found) rests

/-- Whose turn it is next makes no difference. -/
theorem rests_dispatchTurn (w : Window M) (n : Nat) : w.Rests { w with dispatchTurn := n } :=
  ⟨rfl, rfl, rfl, (Rests.refl w).lanes, rfl, rfl, rfl, rfl⟩

theorem rests_issueTurn (w : Window M) (n : Nat) : w.Rests { w with issueTurn := n } :=
  ⟨rfl, rfl, rfl, (Rests.refl w).lanes, rfl, rfl, rfl, rfl⟩

end Window

end CoreTiming
