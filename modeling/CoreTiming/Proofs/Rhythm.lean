import CoreTiming.Proofs.Accounting
import CoreTiming.Proofs.Draining
import CoreTiming.Proofs.MemoryOrder
import CoreTiming.Proofs.Progress
import CoreTiming.Proofs.StoreAddresses

/-!
# The rhythm of a core

A step of an account may come at any time.  In a core the steps keep a rhythm: between two cycles the owner of
the window turns to its threads, and in a cycle entries first enter the window, then issue, then leave, before
the clock goes on by a period at least.  `Account.Paced` says which accounts are reached in this way, and in
which phase of the cycle.  All accounts of a window are, at every point of a run (`Chronicle.Comes.inPhase`) and
after every call (`Chronicle.inPhase_of`).

An issue step also keeps what the pass over the window has seen when it lets an entry issue: if loads have to wait
for the addresses of older stores, those have issued or know them (`Thread.Clear`), and if entries issue in order, all
older ones have issued (`Thread.Underway`).
-/

namespace CoreTiming

open Faulting

/-- The phases of a core. -/
inductive Phase
  /-- Between two cycles. -/
  | rest
  /-- Entries enter the window. -/
  | dispatch
  /-- Entries issue. -/
  | issue
  /-- Entries leave. -/
  | commit

/-! ## Section 1: What a pass knows of the stores that it has passed -/

namespace Thread

variable {th th' th₁ : Thread} {now done latency : Time} {pass pass' : Window.IssuePass} {n : Nat} {e e₁ : Entry}

/-- Each of the first `n` entries that is a store has issued, or knows its address by `now`. -/
def Clear (th : Thread) (now : Time) (n : Nat) : Prop :=
  ∀ (m : Nat) (x : Entry), th.ring.get? m = some x → m < n → x.u.op.isStore = true → x.issued = .never →
    x.addressReady ≤ now

/-- Each of the first `n` entries has issued. -/
def Underway (th : Thread) (n : Nat) : Prop :=
  ∀ (m : Nat) (x : Entry), th.ring.get? m = some x → m < n → x.issued ≠ .never

/-- What the pass over the window knows when it comes to position `n`. -/
structure Scanned (now : Time) (pass : Window.IssuePass) (n : Nat) (th : Thread) : Prop where
  /-- As long as nothing has stayed, everything so far has issued. -/
  head : pass.atHead = true → th.Underway n
  /-- As long as no store without an address has been seen, there is none so far. -/
  clear : pass.unknownStore = false → th.Clear now n

theorem scanned_start (now : Time) (th : Thread) : th.Scanned now {} 0 :=
  ⟨fun _ m x _ before => by omega, fun _ m x _ before => by omega⟩

theorem Scanned.congr (h : th.Scanned now pass n) (atHead : pass'.atHead = pass.atHead)
    (unknownStore : pass'.unknownStore = pass.unknownStore) (ring : th'.ring = th.ring) :
    th'.Scanned now pass' n := by
  refine ⟨fun head => ?_, fun clear => ?_⟩
  · unfold Underway
    rw [ring]
    exact h.head (atHead ▸ head)
  · unfold Clear
    rw [ring]
    exact h.clear (unknownStore ▸ clear)

/-- The pass goes past an entry that has issued. -/
theorem Scanned.skip (h : th.Scanned now pass n) (entry : th.ring.get? n = some e) (issued : e.issued ≠ .never) :
    th.Scanned now pass (n + 1) := by
  refine ⟨fun head m x hx before => ?_, fun clear m x hx before store waiting => ?_⟩
  · rcases Nat.lt_succ_iff_lt_or_eq.mp before with before | rfl
    · exact h.head head m x hx before
    · rw [entry] at hx
      cases hx
      exact issued
  · rcases Nat.lt_succ_iff_lt_or_eq.mp before with before | rfl
    · exact h.clear clear m x hx before store waiting
    · rw [entry] at hx
      cases hx
      exact absurd waiting issued

/-- The pass goes past an entry that stays. -/
theorem Scanned.hold {fence : Bool} (h : th.Scanned now pass n) (entry : th.ring.get? n = some e) :
    th.Scanned now (pass.hold now e fence) (n + 1) := by
  refine ⟨fun head => (by cases head), fun clear m x hx before store waiting => ?_⟩
  have clear : (pass.unknownStore || (e.u.op.isStore && decide (now < e.addressReady))) = false := clear
  rw [Bool.or_eq_false_iff] at clear
  rcases Nat.lt_succ_iff_lt_or_eq.mp before with before | rfl
  · exact h.clear clear.1 m x hx before store waiting
  · rw [entry] at hx
    cases hx
    simpa [store] using clear.2

/-- The pass goes past an entry that issues. -/
theorem Scanned.issue (h : th.Scanned now pass n) (intime : now ≠ .never) (entry : th.ring.get? n = some e)
    (asked : th.Asked n e th₁ e₁) (started : start n e₁ now done latency th₁ = .ok () th') :
    th'.Scanned now pass (n + 1) := by
  obtain ⟨-, -, woken, -, -⟩ := start_eq_ok started
  have kept := addressReady_start started
  rw [(asked.issuedAt now done).2] at woken kept
  have inside : n < th.ring.toList.length := by
    rw [← Ring.getElem?_toList] at entry
    exact (List.getElem?_eq_some_iff.mp entry).1
  -- what is found there is the entry that has issued, or another one that may have been woken
  have before : ∀ {m : Nat} {x : Entry}, th'.ring.get? m = some x → m < n + 1 → x.issued = now ∨
      m < n ∧ ∃ y, th.ring.get? m = some y ∧ x.issued = y.issued ∧ x.u.op = y.u.op ∧
        (y.addressReady ≠ .never → x.addressReady = y.addressReady) := by
    intro m x hx within
    rw [← Ring.getElem?_toList] at hx
    obtain ⟨y, hy, wakes⟩ := woken.right hx
    have issued : x.issued = y.issued := by rw [wakes.frame]
    by_cases here : m = n
    · subst here
      rw [List.getElem?_set_self inside] at hy
      cases hy
      exact .inl issued
    · obtain ⟨y', hy', same⟩ := kept.right hx
      rw [hy] at hy'
      cases hy'
      rw [List.getElem?_set_ne (Ne.symm here), Ring.getElem?_toList] at hy
      refine .inr ⟨by omega, y, hy, issued, ?_, same⟩
      rw [wakes.frame]
  refine ⟨fun head m x hx within => ?_, fun clear m x hx within store waiting => ?_⟩
  · rcases before hx within with issued | ⟨older, y, hy, issued, -⟩
    · rw [issued]
      exact intime
    · rw [issued]
      exact h.head head m y hy older
  · rcases before hx within with issued | ⟨older, y, hy, issued, op, same⟩
    · rw [issued] at waiting
      exact absurd waiting intime
    · have known := h.clear clear m y hy older (op ▸ store) (issued ▸ waiting)
      rw [same (Time.ne_never_of_le known intime)]
      exact known

/-- Asking memory about an entry is about no entry before it. -/
theorem Asked.get?_of_lt {m : Nat} (asked : th.Asked n e th₁ e₁) (before : m < n) :
    th₁.ring.get? m = th.ring.get? m := by
  rcases asked with ⟨rfl, -⟩ | ⟨_, _, u, -, -, rfl⟩
  · rfl
  · rw [← Ring.getElem?_toList, toList_setEntry, List.getElem?_set_ne (by omega), Ring.getElem?_toList]

theorem Clear.ask (h : th.Clear now n) (asked : th.Asked n e th₁ e₁) : th₁.Clear now n :=
  fun m x hx before => h m x (asked.get?_of_lt before ▸ hx) before

theorem Underway.ask (h : th.Underway n) (asked : th.Asked n e th₁ e₁) : th₁.Underway n :=
  fun m x hx before => h m x (asked.get?_of_lt before ▸ hx) before

end Thread

/-! ## Section 2: The issue stage -/

/-- What the issue stage does to a thread. -/
inductive Thread.Launching (config : Config) (clock : Clock) : Thread → Thread → Prop
  /-- An entry in the window issues, and memory may be asked about it first.  If it is a load that has to wait for
  the addresses of older stores, no such address is unknown.  If entries issue in order, all older ones have
  issued. -/
  | issue {th th₁ th' : Thread} {n : Nat} {e e₁ : Entry} (inside : n < th.inWindow)
      (entry : th.ring.get? n = some e) (waiting : e.isDone = false) (ready : e.ready ≤ clock.now)
      (clear : clock.now ≠ .never → config.window.disambiguation = false → e.u.op.isLoad = true →
        th.Clear clock.now n)
      (front : clock.now ≠ .never → config.window.inOrder = true → th.Underway n)
      (asked : th.Asked n e th₁ e₁)
      (started : Thread.start n e₁ clock.now (e₁.doneFrom clock) (clock.period.cycles e₁.u.latency)
        th₁ = .ok () th') :
      Launching config clock th th'
  /-- Something is noted that concerns no micro-op. -/
  | note {th th' : Thread} (same : th.SameFlow th') : Launching config clock th th'

theorem Thread.Launching.works {config : Config} {clock : Clock} {th th' : Thread}
    (h : Launching config clock th th') : Works config clock th th' := by
  cases h with
  | issue inside entry waiting ready _ _ asked started =>
    obtain ⟨waiting', ready', span⟩ := asked.same
    exact (asked.works inside entry waiting).tail
      (.issue (span ▸ inside) (asked.entry entry) (waiting' ▸ waiting) (ready' ▸ ready) started)
  | note same => exact .single (.keep same)

namespace Window

variable {M : Type} {w v x : Window M} {pass pass' : IssuePass} {e : Entry} {i n k : Nat} {lane : Lane M}

/-- A load that has to wait for addresses only issues if none is unknown, or if it waits for all that is older
anyway. -/
theorem clear_of_judge (verdict : w.judge pass e = .issue) (load : e.u.op.isLoad = true)
    (cautious : w.config.window.disambiguation = false) : pass.atHead = true ∨ pass.unknownStore = false := by
  unfold judge at verdict
  cases head : pass.atHead with
  | true => exact .inl rfl
  | false =>
    refine .inr ?_
    cases unknown : pass.unknownStore with
    | false => rfl
    | true =>
      simp only [head, unknown, load, cautious] at verdict
      grind

/-- What the pass has seen of the stores that it has passed keeps no load from issuing that it lets issue. -/
theorem clear_of_scanned {now : Time} (scanned : lane.thread.Scanned now pass k)
    (verdict : w.judge pass e = .issue) (load : e.u.op.isLoad = true)
    (cautious : w.config.window.disambiguation = false) : lane.thread.Clear now k := by
  rcases clear_of_judge verdict load cautious with head | clear
  · exact fun m x hx older _ waiting => absurd waiting (scanned.head head m x hx older)
  · exact scanned.clear clear

variable [MemorySystem M]

/-- The pass lets an entry issue, and counts it. -/
theorem launchings_issueEntry {cutoff : Nat} {done : Time} (found : w.lanes[i]? = some lane)
    (inside : k < lane.thread.inWindow) (entry : lane.thread.ring.get? k = some e) (waiting : e.isDone = false)
    (verdict : w.judge pass e = .issue)
    (scanned : w.clock.now ≠ .never → lane.thread.Scanned w.clock.now pass k)
    (front : w.config.window.inOrder = true → pass.atHead = true) (issued : issueEntry i k w = .ok done v)
    (counted : modifyThread i (Thread.accountLongLoad cutoff w.clock.now k) v = .ok () x) :
    Worked Thread.Launching w x ∧ ∃ lane', x.lanes[i]? = some lane' ∧
      lane'.thread.inWindow = lane.thread.inWindow ∧
      (w.clock.now ≠ .never → lane'.thread.Scanned w.clock.now pass (k + 1)) := by
  have at_i : i < w.lanes.size := (Array.getElem?_eq_some_iff.mp found).1
  obtain ⟨th, e₁, lane₁, asked, started, -, rfl⟩ := issueEntry_eq_ok found entry issued
  obtain ⟨lane₂, found₂, rfl⟩ := modifyThread_eq_ok.mp counted
  obtain rfl : lane₁ = lane₂ := by
    simpa [at_i] using found₂
  have same := Thread.sameFlow_accountLongLoad cutoff w.clock.now k lane₁.thread
  have launched : Thread.Launching w.config w.clock lane.thread lane₁.thread :=
    .issue inside entry waiting (ready_of_judge verdict)
      (fun intime cautious load => clear_of_scanned (scanned intime) verdict load cautious)
      (fun intime inOrder => (scanned intime).head (front inOrder)) asked started
  refine ⟨⟨rfl, rfl, rfl, ?_, ?_⟩, { lane₁ with thread := lane₁.thread.accountLongLoad cutoff w.clock.now k },
    by simp [at_i], ?_, fun intime => ?_⟩
  · show w.lastStoreDone ≤ if _ then max w.lastStoreDone _ else w.lastStoreDone
    split
    · exact le_max_left _ _
    · exact le_refl _
  · show Pointwise _ _ ((w.lanes.setIfInBounds i lane₁).setIfInBounds i _).toList
    rw [Array.setIfInBounds_setIfInBounds, Array.toList_setIfInBounds]
    exact .set (fun _ => .refl) (by simpa using found) (.tail (.single launched) (.note same))
  · show (lane₁.thread.accountLongLoad cutoff w.clock.now k).inWindow = lane.thread.inWindow
    rw [same.inWindow, (Thread.start_eq_ok started).1, asked.same.2.2]
  · exact ((scanned intime).issue intime entry asked started).congr rfl rfl same.ring

theorem launchings_issueFrom (found : w.lanes[i]? = some lane) (inside : k + n ≤ lane.thread.inWindow)
    (reached : w.Reached) (scanned : w.clock.now ≠ .never → lane.thread.Scanned w.clock.now pass k)
    (front : w.config.window.inOrder = true → pass.atHead = true)
    (h : issueFrom i n k pass w = .ok pass' v) : Worked Thread.Launching w v := by
  induction n generalizing k pass w lane with
  | zero =>
    obtain ⟨-, rfl⟩ := pure_eq_ok.mp h
    exact .refl w
  | succ n ih =>
    cases looks_of_issueFrom found h with
    | nothing _ _ same =>
      rw [same]
      exact .refl w
    | done entry done rest =>
      refine ih found (by omega) reached (fun intime => ?_) ?_ rest
      · have issued := Time.ne_never_of_le ((reached i lane found).issued_le entry) (Entry.isDone_iff.mp done)
        exact ((scanned intime).skip entry issued).congr rfl rfl rfl
      · exact front
    | stop _ _ _ _ same =>
      rw [same]
      exact .refl w
    | @issue e done w₁ w₂ entry waiting verdict issued counted rest =>
      obtain ⟨first, lane₂, found₂, span, scanned₂⟩ := launchings_issueEntry found (by omega) entry waiting verdict
        (fun intime => (scanned intime).congr rfl rfl rfl) front issued counted
      rcases rest with ⟨-, rfl⟩ | rest
      · exact first
      · have reached₂ := reached.worked (first.lift Thread.Launching.works)
        refine first.trans (ih found₂ (by omega) reached₂ (fun intime => ?_) (fun inOrder => ?_) rest)
        · rw [first.clock] at intime ⊢
          exact (scanned₂ intime).congr rfl rfl rfl
        · rw [first.config] at inOrder
          exact front inOrder
    | @wait e entry _ _ _ rest ordered =>
      rcases rest with ⟨-, rfl⟩ | rest
      · exact .refl _
      · by_cases inOrder : w.config.window.inOrder = true
        · rw [ordered inOrder]
          exact .refl _
        refine ih found (by omega) reached (fun intime => ?_) (fun ends => absurd ends inOrder) rest
        -- that the entry is ready at some time makes no difference to what the pass has seen
        have noted : lane.thread.Scanned w.clock.now (pass.noting e.ready) k :=
          (scanned intime).congr rfl rfl rfl
        exact noted.hold entry

theorem launchings_issueLane {event : Time} {result : Bool × Time} (reached : w.Reached)
    (h : issueLane i event w = .ok result v) : Worked Thread.Launching w v := by
  obtain ⟨lane, found, turn⟩ := issueTurn_of_issueLane h
  cases turn with
  | asleep _ _ same =>
    rw [same]
    exact .refl w
  | empty _ _ same =>
    rw [same]
    exact .refl w
  | look _ _ looked noted _ =>
    have path := launchings_issueFrom found (by omega) reached (fun _ => Thread.scanned_start _ _) (fun _ => rfl)
      looked
    have kept : Worked (fun _ _ => Thread.SameFlow) _ v :=
      .modifyThread noted fun _ => ⟨rfl, rfl, rfl, rfl, rfl, rfl, rfl⟩
    exact path.trans (kept.mono .note)

theorem launchings_issueLanes {lanes : List Nat} {event : Time} {result : Option Nat × Time} (reached : w.Reached)
    (h : issueLanes lanes event w = .ok result v) : Worked Thread.Launching w v := by
  induction lanes generalizing event w with
  | nil =>
    obtain ⟨-, rfl⟩ := pure_eq_ok.mp h
    exact .refl w
  | cons i others ih =>
    obtain ⟨any, event', w₁, turn, ⟨-, -, rfl⟩ | ⟨-, onwards⟩⟩ := issueLanes_cons_eq_ok h
    · exact launchings_issueLane reached turn
    · have first := launchings_issueLane reached turn
      exact first.trans (ih (reached.worked (first.lift Thread.Launching.works)) onwards)

theorem launchings_issue {event : Time} (reached : w.Reached) (h : issue w = .ok event v) :
    Worked Thread.Launching w v := by
  obtain ⟨last, x, turns, rfl⟩ := issue_eq_ok h
  have path := launchings_issueLanes reached turns
  exact ⟨path.config, path.clock, path.share, path.drains, path.lanes⟩

end Window

/-! ## Section 3: Accounts -/

namespace Account

/-- A step of an account, and the phases between which the core makes it. -/
inductive Paces (config : Config) : Phase → Phase → Account → Account → Prop
  /-- The owner of the window turns to the thread. -/
  | contact {a b : Account} (contacted : Contact config a b) : Paces config .rest .rest a b
  /-- The owner moves the time of the core. -/
  | wait {a : Account} {clock : Clock} (period : clock.period = a.clock.period)
      (later : a.clock.now ≤ clock.now) : Paces config .rest .rest a { a with clock }
  /-- A cycle begins. -/
  | begin {a : Account} : Paces config .rest .dispatch a a
  /-- The next entry may enter the window. -/
  | accept {a : Account} {th : Thread} (intake : Thread.Intake config a.clock a.thread th) :
      Paces config .dispatch .dispatch a (a.withThread th)
  /-- The dispatch stage ends. -/
  | turn {a : Account} : Paces config .dispatch .issue a a
  /-- An entry may issue. -/
  | launch {a : Account} {th : Thread} (launched : Thread.Launching config a.clock a.thread th) :
      Paces config .issue .issue a (a.withThread th)
  /-- The issue stage ends. -/
  | close {a : Account} : Paces config .issue .commit a a
  /-- The oldest entry leaves. -/
  | leave {a b : Account} (left : Leave config a b) : Paces config .commit .commit a b
  /-- The cycle ends: the clock goes on, and the thread is charged for it. -/
  | advance {a : Account} {span : Time} (histogram : Bool) (long : a.clock.period.length ≤ span) :
      Paces config .commit .rest a
        { a with
          clock := a.clock.addLatency span
          thread := a.thread.charge histogram a.clock.now span }

/-- What a core can make of a new thread, by the phase that it has come to. -/
inductive Paced (config : Config) : Phase → Account → Prop
  /-- A new thread. -/
  | new {clock : Clock} {th : Thread} {predictor : Option Predictor}
      (made : Thread.new config.core.windowSize config.window.loadHistogram predictor = .ok th) :
      Paced config .rest { clock, thread := th }
  /-- One more step. -/
  | step {phase phase' : Phase} {a b : Account} (paced : Paced config phase a)
      (pace : Paces config phase phase' a b) : Paced config phase' b

variable {config : Config} {phase phase' : Phase} {a b : Account}

theorem Paces.steps (h : Paces config phase phase' a b) : Steps config a b := by
  cases h with
  | contact contacted => exact .single contacted.drift.step
  | wait period later => exact .single (.tick period later)
  | begin | turn | close => exact .refl
  | accept intake => exact .single (.work intake.work)
  | launch launched => exact .of_works launched.works
  | leave left => exact .single left.drift.step
  | @advance _ span histogram long =>
    have charged : Step config a (a.withThread (a.thread.charge histogram a.clock.now span)) :=
      .work (.keep ⟨rfl, rfl, rfl, rfl, rfl, rfl, rfl⟩)
    exact .tail (.single charged) (.tick rfl (Time.le_add_right _ _))

theorem Paced.reachable (h : Paced config phase a) : Reachable config a := by
  induction h with
  | new made => exact .new made
  | step _ pace ih => exact ih.steps pace.steps

/-- Time does not go back. -/
theorem Paces.later (h : Paces config phase phase' a b) : a.clock.now ≤ b.clock.now := by
  cases h with
  | contact contacted => cases contacted <;> exact le_refl _
  | wait period later => exact later
  | leave left => cases left <;> exact le_refl _
  | advance histogram long => exact Time.le_add_right _ _
  | _ => exact le_refl _

/-- What was pushed stays pushed. -/
theorem Paces.pushed (h : Paces config phase phase' a b) : ∃ us, b.pushed = a.pushed ++ us := by
  cases h with
  | contact contacted =>
    cases contacted with
    | push same pushed => exact ⟨_, rfl⟩
    | tell => exact ⟨[], (List.append_nil _).symm⟩
  | leave left => cases left <;> exact ⟨[], (List.append_nil _).symm⟩
  | _ => exact ⟨[], (List.append_nil _).symm⟩

/-- What all micro-ops have in common that have been pushed, those have that were pushed before. -/
theorem Paces.of_pushed {P : OpInstance → Prop} (h : Paces config phase phase' a b)
    (all : ∀ u ∈ b.pushed, P u) : ∀ u ∈ a.pushed, P u := by
  obtain ⟨us, pushed⟩ := h.pushed
  intro u mem
  refine all u ?_
  rw [pushed]
  exact List.mem_append_left us mem

theorem Paces.unlinked (h : Paces config phase phase' a b) (unlinked : Unlinked b.pushed) : Unlinked a.pushed :=
  h.of_pushed unlinked

/-- Any number of steps within a phase. -/
theorem Paced.run (h : Paced config phase a) (run : Relation.ReflTransGen (Paces config phase phase) a b) :
    Paced config phase b := by
  induction run with
  | refl => exact h
  | tail _ pace ih => exact .step ih pace

/-- What has left has left by now, and unless entries are just leaving, in an earlier cycle. -/
theorem Paced.left_before (h : Paced config phase a) (intime : a.clock.now ≠ .never) :
    ∀ r ∈ a.retired, r.time ≤ a.clock.now ∧ (phase = .commit ∨ r.time < a.clock.now) := by
  -- entries leave in the commit phase only, and time goes on before the phase comes round again
  induction h with
  | new made =>
    intro r mem
    cases mem
  | @step phase phase' a b paced pace ih =>
    have before := ih (Time.ne_never_of_le pace.later intime)
    cases pace with
    | contact contacted =>
      cases contacted with
      | push => exact before
      | tell => exact before
    | wait period later =>
      intro r mem
      obtain ⟨le, lt | lt⟩ := before r mem
      · cases lt
      · exact ⟨le_trans le later, .inr (lt_of_lt_of_le lt later)⟩
    | begin =>
      intro r mem
      obtain ⟨le, lt | lt⟩ := before r mem
      · cases lt
      · exact ⟨le, .inr lt⟩
    | accept intake => exact before
    | turn =>
      intro r mem
      obtain ⟨le, lt | lt⟩ := before r mem
      · cases lt
      · exact ⟨le, .inr lt⟩
    | launch launched => exact before
    | close => exact fun r mem => ⟨(before r mem).1, .inl rfl⟩
    | leave left =>
      have released : ∀ e : Entry, ∀ r ∈ (a.release config e).retired, r.time ≤ a.clock.now := by
        intro e r mem
        rcases List.mem_append.mp mem with old | new
        · exact (before r old).1
        · rw [List.mem_singleton.mp new]
      cases left with
      | retire => exact fun r mem => ⟨released _ r mem, .inl rfl⟩
      | flush => exact fun r mem => ⟨released _ r mem, .inl rfl⟩
    | advance histogram long =>
      intro r mem
      have moves := Clock.lt_addLatency (Time.ne_never_of_le (Time.le_add_right _ _) intime) long
      have le := (before r mem).1
      exact ⟨le_trans le (le_of_lt moves), .inr (lt_of_le_of_lt le moves)⟩

end Account

/-! ## Section 4: Chronicles -/

namespace Chronicle

variable {M : Type} {config : Config} {phase phase' : Phase} {c c' : Chronicle M}

/-- All threads of the window are accounts that its core has made of new threads, in the same phase. -/
structure InPhase (config : Config) (phase : Phase) (c : Chronicle M) : Prop where
  /-- The parameters are those that the window was made with. -/
  config_eq : c.window.config = config
  /-- The core has made every thread what it is. -/
  lanes : ∀ (i : Nat) (lane : Lane M), c.window.lanes[i]? = some lane → (c.account i lane).Paced config phase

theorem InPhase.reached (h : c.InPhase config phase) : c.window.Reached := by
  intro i lane found
  rw [h.config_eq]
  exact ⟨c.pushed i, c.retired i, (h.lanes i lane found).reachable⟩

/-- The next phase begins. -/
theorem InPhase.turn (h : c.InPhase config phase) (turn : ∀ {a : Account}, a.Paces config phase phase' a) :
    c.InPhase config phase' :=
  ⟨h.config_eq, fun i lane found => .step (h.lanes i lane found) turn⟩

/-- Every thread makes some steps within the phase. -/
theorem InPhase.leads {us : Nat → List OpInstance} {rs : Nat → List Retirement} {v : Window M}
    (h : c.InPhase config phase)
    (leads : Window.Leads (fun config => Account.Paces config phase phase) us rs c.window v) :
    InPhase config phase
      { window := v
        pushed := fun i => c.pushed i ++ us i
        retired := fun i => c.retired i ++ rs i } := by
  refine ⟨leads.config.trans h.config_eq, fun i lane found => ?_⟩
  obtain ⟨lane₀, found₀, run⟩ := rel_right (leads.lanes i) found
  rw [h.config_eq] at run
  exact (h.lanes i lane₀ found₀).run (run (c.pushed i) (c.retired i))

theorem InPhase.advance {span : Time} (h : c.InPhase config .commit) (long : c.window.clock.period.length ≤ span) :
    InPhase config .rest { c with window := c.window.advance span } := by
  refine ⟨h.config_eq, fun i lane found => ?_⟩
  obtain ⟨lane₀, found₀, rfl⟩ : ∃ lane₀, c.window.lanes[i]? = some lane₀ ∧ _ := by
    simpa [Window.advance] using found
  exact .step (h.lanes i lane₀ found₀) (.advance _ long)

variable [MemorySystem M] {running : Running} {v : Window M} {event : Time}

theorem InPhase.dispatch (h : c.InPhase config .rest) (ran : Window.dispatch running c.window = .ok event v) :
    InPhase config .dispatch { c with window := v } := by
  have begun : c.InPhase config .dispatch := h.turn .begin
  have entered := begun.leads ((Window.worked_dispatch ran).leads .accept)
  simpa using entered

theorem InPhase.issue (h : c.InPhase config .dispatch) (ran : Window.issue c.window = .ok event v) :
    InPhase config .issue { c with window := v } := by
  have turned : c.InPhase config .issue := h.turn .turn
  have launched := turned.leads ((Window.launchings_issue h.reached ran).leads .launch)
  simpa using launched

omit [MemorySystem M] in
theorem InPhase.commit {rs : Nat → List Retirement} (h : c.InPhase config .issue)
    (left : Window.Leads Account.Leave Window.noPushes rs c.window v) :
    InPhase config .commit { c with window := v, retired := fun i => c.retired i ++ rs i } := by
  have closed : c.InPhase config .commit := h.turn .close
  have gone := closed.leads (left.mono .leave)
  simpa using gone

/-- The stages of a cycle, one after the other. -/
theorem InPhase.cycle {stride : Window.Stride M} (h : c.InPhase config .rest) (striding : Window.Striding stride)
    (ran : Window.cycle stride running c.window = .ok () v) :
    InPhase config .rest
      { c with
        window := v
        retired := fun i => c.retired i ++ Window.leavingInCycle running i c.window } := by
  obtain ⟨_, _, event, w₁, w₂, w₃, dispatched, issued, committed, rfl⟩ := Window.cycle_eq_ok ran
  exact (((h.dispatch dispatched).issue issued).commit committed).advance (striding w₃ event)

/-! ## Section 5: Runs and calls -/

/-- A run that begins with `c` comes to a point in the phase: between two cycles, or right after a stage of
one. -/
inductive Comes (running : Running) (c : Chronicle M) : Phase → Chronicle M → Prop
  /-- The run begins. -/
  | start : Comes running c .rest c
  /-- A dispatch stage is over. -/
  | dispatch {c' : Chronicle M} {v : Window M} {event : Time} (before : Comes running c .rest c')
      (can : c'.window.canExecute running = true) (ran : Window.dispatch running c'.window = .ok event v) :
      Comes running c .dispatch { c' with window := v }
  /-- An issue stage is over. -/
  | issue {c' : Chronicle M} {v : Window M} {event : Time} (before : Comes running c .dispatch c')
      (ran : Window.issue c'.window = .ok event v) : Comes running c .issue { c' with window := v }
  /-- A commit stage is over. -/
  | commit {c' : Chronicle M} {v : Window M} {event : Time} (before : Comes running c .issue c')
      (ran : Window.commit c'.window = .ok event v) :
      Comes running c .commit { c' with window := v, retired := fun i => c'.retired i ++ c'.window.leaving i }
  /-- A cycle is over. -/
  | cycle {c' : Chronicle M} {v : Window M} (before : Comes running c .rest c')
      (can : c'.window.canExecute running = true)
      (ran : Window.cycle Window.toEvent running c'.window = .ok () v) :
      Comes running c .rest
        { c' with
          window := v
          retired := fun i => c'.retired i ++ Window.leavingInCycle running i c'.window }

theorem Comes.inPhase (h : Comes running c phase c') (rested : c.InPhase config .rest) : c'.InPhase config phase := by
  induction h with
  | start => exact rested
  | dispatch _ _ ran ih => exact ih.dispatch ran
  | issue _ ran ih => exact ih.issue ran
  | commit _ ran ih => exact ih.commit (Window.leads_commit ran)
  | cycle _ _ ran ih => exact ih.cycle Window.striding_toEvent ran

/-- Nothing is taken in while a run goes on. -/
theorem Comes.pushed_eq (h : Comes running c phase c') : c'.pushed = c.pushed := by
  induction h with
  | start => rfl
  | dispatch _ _ _ ih => exact ih
  | issue _ _ ih => exact ih
  | commit _ _ ih => exact ih
  | cycle _ _ _ ih => exact ih

/-- A run comes to its end. -/
theorem Comes.run {grace : Nat} {w : Window M} {us : Nat → List OpInstance} {rs : Nat → List Retirement}
    (before : Comes running c .rest { window := w, pushed := us, retired := rs })
    (ran : Window.run Window.toEvent running grace w = .ok () v) :
    Comes running c .rest
      { window := v
        pushed := us
        retired := fun i => rs i ++
          (Window.cycles Window.toEvent running grace w).flatMap (Window.leavingInCycle running i) } := by
  refine Window.induction_run (P := fun ws x => Comes running c .rest
    { window := x, pushed := us, retired := fun i => rs i ++ ws.flatMap (Window.leavingInCycle running i) })
    ran (by simpa using before) fun comes can cycled => ?_
  simpa [List.flatMap_append] using comes.cycle can cycled

/-- What is found right after a run, the run comes to. -/
theorem comes_of_execute (made : c.after Window.toEvent (.execute running) = .ok c') :
    Comes running c .rest c' := by
  obtain ⟨v, performed, rfl⟩ := after_eq_ok.mp made
  have ended := Comes.start.run (c := c) performed
  simpa [Window.Call.takesIn, Window.Call.letsOut] using ended

omit [MemorySystem M] in
/-- The owner of the window moves the time of its core. -/
theorem InPhase.wait {now : Time} (h : c.InPhase config .rest) (later : c.window.clock.now ≤ now) :
    InPhase config .rest { c with window := { c.window with clock := { c.window.clock with now } } } :=
  ⟨h.config_eq, fun i lane found => .step (h.lanes i lane found) (.wait rfl later)⟩

theorem InPhase.after {call : Window.Call M} (h : c.InPhase config .rest) (truthful : Truthful config c)
    (made : c.after Window.toEvent call = .ok c') : c'.InPhase config .rest := by
  cases call.kind with
  | initializeThread i memory predictor =>
    obtain ⟨v, performed, rfl⟩ := after_eq_ok.mp made
    obtain ⟨-, th, new, rfl⟩ := Window.initializeThread_eq_ok performed
    rw [h.config_eq] at new
    simp only [Window.Call.takesIn, Window.Call.letsOut, List.append_nil]
    refine ⟨h.config_eq, fun j lane found => ?_⟩
    rcases truthful.setUp found with ⟨rfl, pushed, retired⟩ | old
    · show Account.Paced _ _ { pushed := c.pushed j, retired := c.retired j, .. }
      rw [pushed, retired]
      exact .new new
    · exact h.lanes j lane old
  | execute running => exact (comes_of_execute made).inPhase h
  | other old idle =>
    obtain ⟨v, performed, rfl⟩ := after_eq_ok.mp made
    by_cases moves : ∃ i time, call = .synchronize i time
    · obtain ⟨i, time, rfl⟩ := moves
      obtain ⟨w₁, now, told, clock, later, rfl⟩ := Window.told_of_synchronize performed
      rw [← clock] at later ⊢
      have waited := (h.leads (told.mono .contact)).wait later
      simpa [Window.Call.takesIn, Window.Call.letsOut] using waited
    · exact h.leads ((Window.Call.contacts performed old idle fun i time same => moves ⟨i, time, same⟩).mono
        .contact)

omit [MemorySystem M] in
theorem inPhase_new {w : Window M} (new : Window.new config = .ok w) : InPhase config .rest { window := w } := by
  obtain ⟨period, rfl⟩ := Window.new_eq_ok new
  refine ⟨rfl, fun i lane found => ?_⟩
  simp at found

/-- All threads of every chronicle are accounts that their core has made of new threads. -/
theorem inPhase_of {calls : List (Window.Call M)} (made : of Window.toEvent config calls = .ok c) :
    c.InPhase config .rest :=
  induction_of (P := fun _ c => c.InPhase config .rest) (fun _ new => inPhase_new new)
    (fun start ih step => ih.after (truthful_of start) step) made

end Chronicle

end CoreTiming
