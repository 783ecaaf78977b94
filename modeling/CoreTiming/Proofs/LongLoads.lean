import CoreTiming.Proofs.Conservation
import CoreTiming.Proofs.Gathering
import CoreTiming.Proofs.Issuing
import CoreTiming.Proofs.Queues
import Mathlib.Order.Interval.Finset.Nat

/-!
# How long loads overlap

A thread counts two times for the long loads that miss the first-level cache: how long they take altogether, and for
how long some of them is under way.  It does so while they issue, and keeps of those that have issued before only
the latest time at which one of them is done.

That is enough because loads issue in the order of time: whatever is under way from now on is so up to this latest
time, without a gap (`Thread.Overlaps.covered`).  So a load that issues now adds to the time during which some load
is under way just what it takes longer than all before it, and the time that is counted is the length of the union
of all the times (`Chronicle.overlap_counted`), whether or not the window starts over before the loads leave.
-/

namespace CoreTiming

open Faulting

/-! ## Section 1: Unions of times -/

namespace Service

variable {s : Service} {served served' : List Service} {t : Nat}

/-- How long the request is served, in femtoseconds. -/
def length (s : Service) : Nat := s.stop.toNat - s.start.toNat

/-- The femtoseconds in which the request is served. -/
def instants (s : Service) : Finset Nat := Finset.Ico s.start.toNat s.stop.toNat

/-- The femtoseconds in which some of the requests is served. -/
def union (served : List Service) : Finset Nat := served.foldr (fun s u => s.instants ∪ u) ∅

/-- How long the requests are served altogether. -/
def total (served : List Service) : Nat := (served.map length).sum

@[simp] theorem mem_instants : t ∈ s.instants ↔ s.start.toNat ≤ t ∧ t < s.stop.toNat := Finset.mem_Ico

theorem mem_union : t ∈ union served ↔ ∃ s ∈ served, t ∈ s.instants := by
  induction served with
  | nil => simp [union]
  | cons s served ih =>
    rw [show union (s :: served) = s.instants ∪ union served from rfl, Finset.mem_union, ih]
    simp only [List.mem_cons, exists_eq_or_imp]

theorem union_append : union (served ++ [s]) = union served ∪ s.instants := by
  ext t
  simp only [mem_union, Finset.mem_union, List.mem_append, List.mem_singleton, or_and_right, exists_or, exists_eq_left]

theorem total_append : total (served ++ [s]) = total served + s.length := by
  simp [total]

theorem union_perm (same : served.Perm served') : union served = union served' := by
  ext t
  simp only [mem_union, same.mem_iff]

theorem total_perm (same : served.Perm served') : total served = total served' := (same.map length).sum_eq

/-- The union is not longer than time is. -/
theorem card_union_le_limit (served : List Service) : (union served).card ≤ Time.limit := by
  have within : union served ⊆ Finset.range Time.limit := by
    intro t mem
    obtain ⟨s, -, covers⟩ := mem_union.mp mem
    exact Finset.mem_range.mpr (lt_of_lt_of_le (mem_instants.mp covers).2 s.stop.toNat_le_limit)
  simpa using Finset.card_le_card within

/-- The union is not longer than the times are altogether. -/
theorem card_union_le (served : List Service) : (union served).card ≤ total served := by
  induction served with
  | nil => exact Nat.le_refl 0
  | cons s served ih =>
    calc (union (s :: served)).card ≤ s.instants.card + (union served).card := Finset.card_union_le _ _
      _ = s.length + (union served).card := by rw [instants, Nat.card_Ico, length]
      _ ≤ s.length + total served := Nat.add_le_add_left ih _
      _ = total (s :: served) := by simp [total]

end Service

/-! ## Section 2: What is counted, and how -/

namespace Thread

variable {th th' : Thread} {now now' done : Time} {log log' : List Service}

/-- What a thread keeps of its long loads. -/
def tally (th : Thread) : Time × Time × Time := (th.accountedUntil, th.stats.longLoadTime, th.stats.longLoadSpan)

/-- What the thread has counted of the long loads in `log`, which have issued by `now`. -/
structure Overlaps (now : Time) (log : List Service) (th : Thread) : Prop where
  /-- The sum of their times, unless it is out of range. -/
  time : th.stats.longLoadTime.toNat = min (Service.total log) Time.limit
  /-- The length of the union of their times. -/
  span : th.stats.longLoadSpan.toNat = (Service.union log).card
  /-- None of them takes longer than noted. -/
  bounded : ∀ s ∈ log, s.stop ≤ th.accountedUntil
  /-- From now on up to the time that is noted, some of them is always under way. -/
  covered : ∀ t, now.toNat ≤ t → t < th.accountedUntil.toNat → t ∈ Service.union log

/-- The loads in `log` have been counted, unless one of them is not done before the end of time. -/
def Counted (now : Time) (log : List Service) (th : Thread) : Prop :=
  th.accountedUntil ≠ .never → th.Overlaps now log

theorem overlaps_nil {now : Time} (accounted : th.accountedUntil = 0) (time : th.stats.longLoadTime = 0)
    (span : th.stats.longLoadSpan = 0) : th.Overlaps now [] := by
  refine ⟨?_, ?_, fun s mem => (by cases mem), fun t _ within => ?_⟩
  · rw [time]
    rfl
  · rw [span]
    rfl
  · rw [accounted, Time.toNat_zero] at within
    omega

theorem Overlaps.perm (h : th.Overlaps now log) (same : log.Perm log') : th.Overlaps now log' := by
  refine ⟨?_, ?_, fun s mem => h.bounded s (same.mem_iff.mpr mem), ?_⟩
  · rw [← Service.total_perm same]
    exact h.time
  · rw [← Service.union_perm same]
    exact h.span
  · rw [← Service.union_perm same]
    exact h.covered

/-- Where nothing is counted, what has been counted stays so while time goes on. -/
theorem Counted.steady (h : th.Counted now log) (same : th'.tally = th.tally) (later : now ≤ now') :
    th'.Counted now' log := by
  simp only [tally, Prod.mk.injEq] at same
  obtain ⟨accounted, time, span⟩ := same
  intro intime
  rw [accounted] at intime
  have before := h intime
  refine ⟨?_, ?_, ?_, fun t ahead within => ?_⟩
  · rw [time]
    exact before.time
  · rw [span]
    exact before.span
  · rw [accounted]
    exact before.bounded
  · rw [accounted] at within
    exact before.covered t (le_trans (Time.le_iff_toNat_le.mp later) ahead) within

/-- A load that issues now adds what it takes longer than all before it. -/
theorem Overlaps.add (h : th.Overlaps now log) (later : now ≤ done)
    (accounted : th'.accountedUntil = max (max th.accountedUntil now) done)
    (time : th'.stats.longLoadTime = th.stats.longLoadTime + (done - now))
    (span : th'.stats.longLoadSpan = th.stats.longLoadSpan +
      if max th.accountedUntil now < done then done - max th.accountedUntil now else 0) :
    th'.Overlaps now (log ++ [⟨now, done⟩]) := by
  rw [Time.le_iff_toNat_le] at later
  -- what is new is what comes after all that was noted
  have new : (Service.mk now done).instants \ Service.union log =
      Finset.Ico (max th.accountedUntil.toNat now.toNat) done.toNat := by
    ext t
    rw [Finset.mem_sdiff, Service.mem_instants, Finset.mem_Ico]
    show (now.toNat ≤ t ∧ t < done.toNat) ∧ t ∉ Service.union log ↔ _
    constructor
    · rintro ⟨⟨begun, under⟩, out⟩
      have := h.covered t begun
      exact ⟨by_contra fun before => out (this (by omega)), under⟩
    · rintro ⟨after, under⟩
      refine ⟨⟨by omega, under⟩, fun inside => ?_⟩
      obtain ⟨s, mem, covers⟩ := Service.mem_union.mp inside
      have stops := Time.le_iff_toNat_le.mp (h.bounded s mem)
      have within := (Service.mem_instants.mp covers).2
      omega
  have longer : (Service.union (log ++ [⟨now, done⟩])).card =
      (done.toNat - max th.accountedUntil.toNat now.toNat) + (Service.union log).card := by
    rw [Service.union_append, Finset.union_comm, ← Finset.card_sdiff_add_card, new, Nat.card_Ico]
  refine ⟨?_, ?_, fun s mem => ?_, fun t ahead within => ?_⟩
  · rw [time, Time.toNat_add, Time.toNat_sub, h.time, Service.total_append]
    show min (min _ _ + (done.toNat - now.toNat)) _ = min (_ + (done.toNat - now.toNat)) _
    omega
  · have inRange := Service.card_union_le_limit (log ++ [⟨now, done⟩])
    have more : (if max th.accountedUntil now < done then done - max th.accountedUntil now else 0).toNat =
        done.toNat - max th.accountedUntil.toNat now.toNat := by
      split
      · rw [Time.toNat_sub, Time.toNat_max]
      · rename_i covered
        rw [Time.lt_iff_toNat_lt, Time.toNat_max] at covered
        rw [Time.toNat_zero]
        omega
    rw [span, Time.toNat_add, h.span, more, longer] at *
    omega
  · rw [accounted]
    rcases List.mem_append.mp mem with old | here
    · exact le_trans (h.bounded s old) (le_trans (le_max_left _ _) (le_max_left _ _))
    · rw [List.mem_singleton.mp here]
      exact le_max_right _ _
  · rw [Service.union_append, Finset.mem_union]
    rw [accounted, Time.toNat_max, Time.toNat_max] at within
    by_cases under : t < done.toNat
    · exact .inr (Service.mem_instants.mpr ⟨ahead, under⟩)
    · exact .inl (h.covered t ahead (by omega))

end Thread

/-! ## Section 3: Loads that issue -/

namespace Entry

variable {cutoff n : Nat} {e e' : Entry} {l l' l'' : List Entry}

/-- When the entry is under way, if it has a result and is a long load that misses the first-level cache. -/
def flight? (cutoff : Nat) (e : Entry) : Option Service :=
  if e.isDone && (e.u.isLongLoad cutoff && e.u.dataHit != .l1) then some ⟨e.issued, e.done⟩ else none

/-- The long loads that have issued between two states of the entries: they have a result then and had none before. -/
def flights (cutoff : Nat) (l l' : List Entry) : List Service :=
  (l.zip l').filterMap fun (e, e') => if e.isDone then none else e'.flight? cutoff

/-- If `e` had a result, `e'` is under way when it was. -/
def Landed (e e' : Entry) : Prop :=
  e.isDone = true → e'.isDone = true ∧ ∀ cutoff, e'.flight? cutoff = e.flight? cutoff

theorem flight?_of_waiting (waiting : e.isDone = false) : e.flight? cutoff = none := by
  simp [flight?, waiting]

theorem landed_of_waiting (waiting : e.isDone = false) : e.Landed e' := by
  intro done
  rw [waiting] at done
  cases done

theorem Landed.refl (e : Entry) : e.Landed e := fun done => ⟨done, fun _ => rfl⟩

theorem Landed.trans {e'' : Entry} (h : e.Landed e') (h' : e'.Landed e'') : e.Landed e'' := by
  intro done
  obtain ⟨done', same⟩ := h done
  obtain ⟨done'', same'⟩ := h' done'
  exact ⟨done'', fun cutoff => (same' cutoff).trans (same cutoff)⟩

/-- A wake-up changes neither the result of an entry nor its way. -/
theorem Woken.flight_eq {seq : Nat} {done : Time} (h : e.Woken seq done e') :
    e'.isDone = e.isDone ∧ ∀ cutoff, e'.flight? cutoff = e.flight? cutoff := by
  rw [h.frame]
  exact ⟨rfl, fun _ => rfl⟩

theorem Woken.landed {seq : Nat} {done : Time} (h : e.Woken seq done e') : e.Landed e' :=
  fun done => ⟨h.flight_eq.1.trans done, h.flight_eq.2⟩

/-- What issues in two steps issues in one of them. -/
theorem flights_trans (first : Pointwise Landed l l') (second : Pointwise Landed l' l'') :
    (flights cutoff l l'').Perm (flights cutoff l l' ++ flights cutoff l' l'') := by
  induction l generalizing l' l'' with
  | nil =>
    obtain rfl : l' = [] := List.eq_nil_of_length_eq_zero first.length_eq
    obtain rfl : l'' = [] := List.eq_nil_of_length_eq_zero second.length_eq
    exact .refl _
  | cons e l ih =>
    obtain ⟨e', l', rfl⟩ := List.exists_cons_of_length_eq_add_one first.length_eq
    obtain ⟨e'', l'', rfl⟩ := List.exists_cons_of_length_eq_add_one second.length_eq
    obtain ⟨head, first⟩ := Pointwise.cons_iff.mp first
    obtain ⟨head', second⟩ := Pointwise.cons_iff.mp second
    have rest := ih first second
    simp only [flights, List.zip_cons_cons, List.filterMap_cons] at rest ⊢
    cases done : e.isDone with
    | true => simpa [(head done).1] using rest
    | false =>
      cases done' : e'.isDone with
      | true =>
        rw [(head' done').2 cutoff]
        cases e'.flight? cutoff with
        | none => simpa using rest
        | some s => simpa using rest.cons s
      | false =>
        rw [flight?_of_waiting done']
        cases e''.flight? cutoff with
        | none => simpa using rest
        | some s => simpa using (rest.cons s).trans List.perm_middle.symm

/-- If nothing gets a result, nothing issues. -/
theorem flights_eq_nil (same : ∀ (m : Nat) (x x' : Entry), l[m]? = some x → l'[m]? = some x' → x'.isDone = x.isDone) :
    flights cutoff l l' = [] := by
  refine List.filterMap_eq_nil_iff.mpr fun ⟨x, x'⟩ mem => ?_
  obtain ⟨m, entries⟩ := List.getElem?_of_mem mem
  obtain ⟨first, second⟩ := List.getElem?_zip_eq_some.mp entries
  have done := same m x x' first second
  dsimp only
  split
  · rfl
  · rename_i waiting
    exact flight?_of_waiting (done.trans (Bool.not_eq_true _ ▸ waiting))

/-- If a single entry issues, it alone is under way. -/
theorem flights_of_single (before : l[n]? = some e) (waiting : e.isDone = false) (after : l'[n]? = some e')
    (others : ∀ (m : Nat) (x x' : Entry), m ≠ n → l[m]? = some x → l'[m]? = some x' → x'.isDone = x.isDone) :
    flights cutoff l l' = (e'.flight? cutoff).toList := by
  -- at the front it is the first pair that counts and the rest that does not; behind it is the other way round
  induction n generalizing l l' with
  | zero =>
    cases l with
    | nil => cases before
    | cons x l =>
      cases l' with
      | nil => cases after
      | cons x' l' =>
        cases before
        cases after
        have rest : flights cutoff l l' = [] :=
          flights_eq_nil fun m x x' hx hx' => others (m + 1) x x' (Nat.succ_ne_zero m) hx hx'
        unfold flights at rest ⊢
        rw [List.zip_cons_cons, List.filterMap_cons, rest]
        dsimp only
        rw [waiting, if_neg Bool.false_ne_true]
        cases e'.flight? cutoff with
        | none => rfl
        | some s => rfl
  | succ n ih =>
    cases l with
    | nil => cases before
    | cons x l =>
      cases l' with
      | nil => cases after
      | cons x' l' =>
        have rest := ih before after fun m y y' other hy hy' =>
          others (m + 1) y y' (fun same => other (Nat.succ.inj same)) hy hy'
        have same := others 0 x x' (Nat.succ_ne_zero n).symm rfl rfl
        unfold flights at rest ⊢
        rw [List.zip_cons_cons, List.filterMap_cons, rest]
        dsimp only
        split
        · rfl
        · rename_i s issues
          split at issues
          · cases issues
          · rename_i waiting'
            rw [flight?_of_waiting (same.trans (Bool.not_eq_true _ ▸ waiting'))] at issues
            cases issues

end Entry

namespace Thread

variable {config : Config} {clock : Clock} {th th' th₁ : Thread} {now done latency : Time} {log : List Service}
  {n : Nat} {e e₁ : Entry}

/-- What an entry that starts changes of the ring: it gets its times, and its consumers may be woken. -/
theorem woken_of_asked (asked : th.Asked n e th₁ e₁) (started : start n e₁ now done latency th₁ = .ok () th') :
    Pointwise (Entry.Woken e₁.seq done) (th.ring.toList.set n { e₁ with issued := now, done }) th'.ring.toList := by
  rw [← (asked.issuedAt now done).2]
  exact (start_eq_ok started).2.2.1

/-- Long loads are not counted before they have started. -/
theorem tally_of_asked (asked : th.Asked n e th₁ e₁) (started : start n e₁ now done latency th₁ = .ok () th') :
    th'.tally = th.tally := by
  have accounted : th'.accountedUntil = th.accountedUntil := by
    rw [(start_eq_ok started).1, (asked.issuedAt now done).1]
  have stats : th₁.stats = th.stats := by
    rw [(asked.issuedAt now done).1]
  unfold tally
  rw [accounted, stats_start started, countAccess_frame, stats]

/-- The load that has just issued is counted. -/
theorem Counted.account {x : Entry} {cutoff : Nat} (h : th.Counted now log) (entry : th.ring.get? n = some x)
    (issued : x.issued = now) (later : now ≤ x.done) :
    (th.accountLongLoad cutoff now n).Counted now (log ++ (x.flight? cutoff).toList) := by
  unfold accountLongLoad
  rw [entry]
  dsimp only
  cases long : x.u.isLongLoad cutoff && x.u.dataHit != .l1 with
  | false =>
    rw [if_neg Bool.false_ne_true]
    simpa [Entry.flight?, long] using h
  | true =>
    rw [if_pos rfl]
    intro intime
    have within : x.done ≠ .never := Time.ne_never_of_le (le_trans (le_max_right now _) (le_max_right _ _)) intime
    have flight : x.flight? cutoff = some ⟨now, x.done⟩ := by
      simp [Entry.flight?, long, Entry.isDone_iff.mpr within, issued]
    have before := h (Time.ne_never_of_le (le_trans (le_max_left _ now) (le_max_left _ _)) intime)
    rw [flight]
    refine before.add later ?_ ?_ ?_
    all_goals
      dsimp only
      rw [max_eq_right later]

end Thread

namespace Lane

variable {M : Type} [MemorySystem M] {config : Config} {clock : Clock} {lane lane' : Lane M} {log : List Service}

/-- The long loads that have issued between two states of a lane. -/
def flights (cutoff : Nat) (lane lane' : Lane M) : List Service :=
  Entry.flights cutoff lane.thread.ring.toList lane'.thread.ring.toList

theorem Issuing.landed (h : Issuing config clock lane lane') :
    Pointwise Entry.Landed lane.thread.ring.toList lane'.thread.ring.toList := by
  cases h with
  | issue inside entry waiting ready consults started =>
    have woken := Thread.woken_of_asked consults.asked started
    rw [← Ring.getElem?_toList] at entry
    show Pointwise _ _ (Thread.accountLongLoad _ _ _ _).ring.toList
    rw [(Thread.sameFlow_accountLongLoad _ _ _ _).ring]
    exact (Pointwise.set Entry.Landed.refl entry (Entry.landed_of_waiting waiting)).trans (fun _ _ _ => .trans)
      (woken.mono fun _ _ => Entry.Woken.landed)
  | look => exact .refl Entry.Landed.refl _

/-- What issues in one step is counted. -/
theorem Issuing.counted (h : Issuing config clock lane lane') (before : lane.thread.Counted clock.now log) :
    lane'.thread.Counted clock.now (log ++ lane.flights config.core.longLatencyCutoff lane') := by
  cases h with
  | @issue lane₁ th n e e₁ inside entry waiting ready consults started =>
    have woken := Thread.woken_of_asked consults.asked started
    have at_n : lane.thread.ring.toList[n]? = some e := by rw [Ring.getElem?_toList, entry]
    have inRing := (List.getElem?_eq_some_iff.mp at_n).1
    obtain ⟨x, hx, told⟩ := woken.left (List.getElem?_set_self inRing)
    have ring : (th.accountLongLoad config.core.longLatencyCutoff clock.now n).ring = th.ring :=
      (Thread.sameFlow_accountLongLoad _ _ _ _).ring
    -- whoever is woken has no result yet, so at most the entry that issues is a new flight
    have single : lane.flights config.core.longLatencyCutoff
        { lane₁ with thread := th.accountLongLoad config.core.longLatencyCutoff clock.now n } =
        (x.flight? config.core.longLatencyCutoff).toList := by
      unfold flights
      rw [ring]
      refine Entry.flights_of_single at_n waiting hx fun m y y' other hy hy' => ?_
      obtain ⟨y₀, hy₀, told'⟩ := woken.right hy'
      rw [List.getElem?_set_ne (Ne.symm other), hy] at hy₀
      cases hy₀
      exact told'.flight_eq.1
    rw [single]
    have started' : th.Counted clock.now log :=
      before.steady (Thread.tally_of_asked consults.asked started) (le_refl _)
    rw [Ring.getElem?_toList] at hx
    refine started'.account hx ?_ ?_
    · rw [told.frame]
    · rw [told.frame]
      exact e₁.le_doneFrom clock
  | look event =>
    have none : lane.flights config.core.longLatencyCutoff
        { lane with thread := { lane.thread with nextEvent := event } } = [] :=
      Entry.flights_eq_nil fun m x x' hx hx' => by
        rw [Option.some.inj (hx.symm.trans hx')]
    rw [none, List.append_nil]
    exact before.steady rfl (le_refl _)

/-- What issues in a stage is counted. -/
theorem counted_of_issuing (steps : Relation.ReflTransGen (Issuing config clock) lane lane')
    (before : lane.thread.Counted clock.now log) :
    lane'.thread.Counted clock.now (log ++ lane.flights config.core.longLatencyCutoff lane') := by
  have all : Pointwise Entry.Landed lane.thread.ring.toList lane'.thread.ring.toList ∧
      lane'.thread.Counted clock.now (log ++ lane.flights config.core.longLatencyCutoff lane') := by
    induction steps with
    | refl =>
      have none : lane.flights config.core.longLatencyCutoff lane = [] :=
        Entry.flights_eq_nil fun m x x' hx hx' => by rw [Option.some.inj (hx.symm.trans hx')]
      rw [none, List.append_nil]
      exact ⟨.refl Entry.Landed.refl _, before⟩
    | tail _ step ih =>
      obtain ⟨landed, counted⟩ := ih
      refine ⟨landed.trans (fun _ _ _ => .trans) step.landed, fun intime => ?_⟩
      have more := step.counted counted intime
      rw [List.append_assoc] at more
      exact more.perm ((Entry.flights_trans landed step.landed).symm.append_left log)
  exact all.2

end Lane

/-! ## Section 4: All other stages and calls -/

namespace Thread

variable {config : Config} {clock : Clock} {th th' : Thread}

theorem tally_fetchNext (clock : Clock) (e : Entry) (th : Thread) : (fetchNext clock e th).2.tally = th.tally := by
  rw [fetchNext_frame]
  rfl

theorem tally_link {forwarding : Bool} {e e' : Entry} (h : link forwarding e th = .ok e' th') :
    th'.tally = th.tally := by
  have accounted : th'.accountedUntil = th.accountedUntil := by rw [(linked_link h).thread]
  unfold tally
  rw [accounted, stats_link h]

theorem Admission.tally_eq (h : Admission config clock th th') : th'.tally = th.tally := by
  cases h with
  | begin => rfl
  | attempt awake tried =>
    cases attempt_of_ok tried with
    | empty => rfl
    | fetch | full | loads => exact tally_fetchNext clock _ th
    | @enter e _ _ _ _ _ linked => exact (tally_link linked).trans (tally_fetchNext clock e th)
  | blame cause => rfl

end Thread

namespace Account

variable {config : Config} {a b : Account}

theorem Leave.tally_eq (h : Leave config a b) : b.thread.tally = a.thread.tally := by
  cases h with
  | retire => rfl
  | @flush e th oldest done flushes flushed =>
    show th.tally = (a.release config e).thread.tally
    unfold Thread.tally
    rw [(Thread.flush_eq_ok flushed).2.2.2]

theorem Contact.tally_eq (h : Contact config a b) : b.thread.tally = a.thread.tally := by
  cases h with
  | @push th lane u v same pushed =>
    obtain ⟨frame, -, stats, -⟩ := Window.enqueue_eq_ok pushed
    show th.tally = a.thread.tally
    unfold Thread.tally
    rw [stats, show th.accountedUntil = a.thread.accountedUntil by rw [frame]]
    rfl
  | tell now reported endOfStream => rfl

end Account

namespace Window

variable {M : Type} {w v : Window M} {i : Nat} {log : List Service}

/-- The long loads of lane `i` that have issued are those in `log`, and they have been counted. -/
structure CountsLoads (i : Nat) (log : List Service) (w : Window M) : Prop where
  /-- The thread has counted them. -/
  counted : ∀ lane, w.lanes[i]? = some lane → lane.thread.Counted w.clock.now log
  /-- Without a thread there are none. -/
  absent : w.lanes[i]? = none → log = []

/-- While nothing issues, and no thread is set up, the tallies stay as they are. -/
theorem CountsLoads.steady (h : w.CountsLoads i log)
    (same : Option.Rel (fun l l' => l'.thread.tally = l.thread.tally) w.lanes[i]? v.lanes[i]?)
    (later : w.clock.now ≤ v.clock.now) : v.CountsLoads i log := by
  refine ⟨fun lane found => ?_, fun none => h.absent ?_⟩
  · obtain ⟨lane₀, found₀, tally⟩ := rel_right same found
    exact (h.counted lane₀ found₀).steady tally later
  · rw [none] at same
    cases present : w.lanes[i]? with
    | none => rfl
    | some lane =>
      obtain ⟨lane', found', -⟩ := rel_left same present
      cases found'

/-- What each step keeps of the tally of a thread, all of them keep. -/
theorem Leads.tally_eq {R : Config → Account → Account → Prop} {us : Nat → List OpInstance}
    {rs : Nat → List Retirement} (h : Leads R us rs w v)
    (keep : ∀ {config : Config} {a b : Account}, R config a b → b.thread.tally = a.thread.tally) (i : Nat) :
    Option.Rel (fun l l' => l'.thread.tally = l.thread.tally) w.lanes[i]? v.lanes[i]? :=
  rel_mono (fun l _ leads => leads.keeps (P := fun a => a.thread.tally = l.thread.tally)
    (fun step same => (keep step).trans same) [] [] rfl) (h.lanes i)

theorem tally_advance (span : Time) (w : Window M) (i : Nat) :
    Option.Rel (fun l l' : Lane M => l'.thread.tally = l.thread.tally) w.lanes[i]? (w.advance span).lanes[i]? := by
  show Option.Rel _ w.lanes[i]? (w.lanes.map _)[i]?
  rw [Array.getElem?_map]
  refine rel_map (fun _ => ?_) _
  rfl

variable [MemorySystem M]

/-- The long loads of lane `i` that issue between two states of a window. -/
def flights (i : Nat) (w v : Window M) : List Service :=
  match w.lanes[i]?, v.lanes[i]? with
  | some lane, some lane' => lane.flights w.config.core.longLatencyCutoff lane'
  | _, _ => []

/-- The long loads of lane `i` that issue in the cycle that begins with `w`. -/
def flightsInCycle (i : Nat) : Observer M Service := fun running w =>
  match dispatch running w with
  | .error _ _ => []
  | .ok _ v =>
    match issue v with
    | .error _ _ => []
    | .ok _ x => v.flights i x

/-- What issues in an issue stage is counted. -/
theorem CountsLoads.issue {event : Time} (h : w.CountsLoads i log) (ran : Window.issue w = .ok event v) :
    v.CountsLoads i (log ++ w.flights i v) := by
  have issued := launches_issue ran
  have steps := issued.lanes i
  refine ⟨fun lane found => ?_, fun none => ?_⟩
  · obtain ⟨lane₀, found₀, steps⟩ := rel_right steps found
    unfold flights
    rw [found₀, found, issued.clock]
    exact Lane.counted_of_issuing steps (h.counted lane₀ found₀)
  · have none₀ : w.lanes[i]? = Option.none := by
      rw [none] at steps
      cases present : w.lanes[i]? with
      | none => rfl
      | some lane =>
        obtain ⟨lane', found', -⟩ := rel_left steps present
        cases found'
    unfold flights
    rw [none₀, h.absent none₀]
    rfl

theorem CountsLoads.cycle {stride : Stride M} {running : Running} (h : w.CountsLoads i log)
    (ran : Window.cycle stride running w = .ok () v) : v.CountsLoads i (log ++ flightsInCycle i running w) := by
  obtain ⟨_, _, _, w₁, w₂, w₃, dispatched, issued, committed, rfl⟩ := stages_of_cycle ran
  have seen : flightsInCycle i running w = w₁.flights i w₂ := by
    unfold flightsInCycle
    rw [dispatched]
    dsimp only
    rw [issued]
  rw [seen]
  have admits := admissions_dispatch dispatched
  have entered : w₁.CountsLoads i log :=
    h.steady ((admits.leads (R := fun _ a b => b.thread.tally = a.thread.tally) fun admitted =>
      admitted.tally_eq).tally_eq id i) (le_of_eq (by rw [admits.clock]))
  have left : w₃.CountsLoads i (log ++ w₁.flights i w₂) :=
    (entered.issue issued).steady ((leads_commit committed).tally_eq Account.Leave.tally_eq i)
      (le_of_eq (by rw [commit_frame committed]))
  exact left.steady (tally_advance _ w₃ i) (Time.le_add_right _ _)

/-- A call that runs no cycles lets nothing issue. -/
theorem CountsLoads.call {stride : Stride M} {call : Call M} (h : w.CountsLoads i log)
    (idle : ∀ running, call ≠ .execute running) (performed : call.perform stride w = .ok () v) :
    v.CountsLoads i log := by
  cases call.kind with
  | initializeThread j memory predictor =>
    obtain ⟨rfl, th, new, rfl⟩ := initializeThread_eq_ok performed
    obtain ⟨-, rfl⟩ := Thread.new_eq_ok new
    refine ⟨fun lane found => ?_, fun none => h.absent ?_⟩
    · rw [Array.getElem?_push] at found
      split at found
      · rename_i here
        cases found
        rw [h.absent (Array.getElem?_eq_none (le_of_eq here.symm))]
        exact fun _ => Thread.overlaps_nil rfl rfl rfl
      · exact h.counted lane found
    · rw [Array.getElem?_eq_none_iff, Array.size_push] at none
      exact Array.getElem?_eq_none (by omega)
  | execute running => exact absurd rfl (idle running)
  | other old _ =>
    have later := (Call.grows performed old idle).later
    by_cases jumps : ∃ j time, call = .synchronize j time
    · obtain ⟨j, time, rfl⟩ := jumps
      obtain ⟨w₁, now, told, -, -, rfl⟩ := told_of_synchronize performed
      exact h.steady (told.tally_eq Account.Contact.tally_eq i) later
    · have contacts := Call.contacts performed old idle fun j time same => jumps ⟨j, time, same⟩
      exact h.steady (contacts.tally_eq Account.Contact.tally_eq i) later

end Window

/-! ## Section 5: Chronicles -/

namespace Chronicle

variable {M : Type} [MemorySystem M] {stride : Window.Stride M} {config : Config} {c : Chronicle M} {lane : Lane M}

/-- The long loads that miss the first-level cache and issue on lane `i` in a series of calls of a new window, each
as often as it issues. -/
def flightLog (i : Nat) (stride : Window.Stride M) (config : Config) (calls : List (Window.Call M)) : List Service :=
  record stride (Window.flightsInCycle i) config calls

theorem countsLoads_of {calls : List (Window.Call M)} (made : of stride config calls = .ok c) (i : Nat) :
    c.window.CountsLoads i (flightLog i stride config calls) := by
  refine induction_record (P := fun log c => c.window.CountsLoads i log) (fun h ran => h.cycle ran)
    (fun h _ idle made => ?_) (fun w new => ?_) made
  · obtain ⟨v, performed, rfl⟩ := after_eq_ok.mp made
    exact h.call idle performed
  · obtain ⟨period, rfl⟩ := Window.new_eq_ok new
    exact ⟨fun lane found => (by simp at found), fun _ => rfl⟩

/-- Whatever is asked of a window, and whether or not it starts over in between, as long as time does not run out the
times that a thread counts for its long loads are the sum of the times in which they are under way, counted for each
load as often as it issues, and the length of the union of these times. -/
theorem overlap_counted {i : Nat} {calls : List (Window.Call M)} (made : of stride config calls = .ok c)
    (found : c.window.lanes[i]? = some lane) (intime : lane.thread.accountedUntil ≠ .never)
    (inRange : lane.thread.stats.longLoadTime ≠ .never) :
    lane.thread.stats.longLoadTime.toNat = Service.total (flightLog i stride config calls) ∧
    lane.thread.stats.longLoadSpan.toNat = (Service.union (flightLog i stride config calls)).card ∧
    lane.thread.stats.longLoadSpan ≤ lane.thread.stats.longLoadTime := by
  have counted := (countsLoads_of made i).counted lane found intime
  have time : lane.thread.stats.longLoadTime.toNat = Service.total (flightLog i stride config calls) := by
    have finite := Time.toNat_lt_limit inRange
    have := counted.time
    omega
  refine ⟨time, counted.span, Time.le_iff_toNat_le.mpr ?_⟩
  rw [time, counted.span]
  exact Service.card_union_le _

/-- Three loads behind a branch that was predicted wrongly; the last one is served by the first-level cache. -/
def overlappingCalls : List (Window.Call FixedMemory) :=
  [.initializeThread 0 default none,
    .push 0 [{ op := { kind := .branch }, mispredicted := true },
      { op := { kind := .load }, latency := 100, dataHit := .dramLocal },
      { op := { kind := .load }, latency := 40, dataHit := .l2 },
      { op := { kind := .load }, latency := 50, dataHit := .l1 }],
    .markEndOfStream 0, .execute #[true]]

/-- All loads issue twice, and the first one is still under way when it issues again. -/
theorem overlap_counted_behind_branch :
    ∃ (c : Chronicle FixedMemory) (lane : Lane FixedMemory), of Window.toEvent default overlappingCalls = .ok c ∧
      c.window.lanes[0]? = some lane ∧ lane.thread.accountedUntil ≠ .never ∧
      lane.thread.stats.longLoadTime ≠ .never ∧
      (c.retired 0).map (·.entry.issued) = [⟨375940⟩, ⟨4135340⟩, ⟨4135340⟩, ⟨4135340⟩] ∧
      Service.total (flightLog 0 Window.toEvent default overlappingCalls) = 105263200 ∧
      (Service.union (flightLog 0 Window.toEvent default overlappingCalls)).card = 41353400 ∧
      lane.thread.stats.longLoadSpan ≤ lane.thread.stats.longLoadTime := by
  have computed : ((ofWithin Window.toEvent 80 default overlappingCalls).map fun c =>
      (c.window.lanes[0]?.map (·.thread.tally), (c.retired 0).map (·.entry.issued))) =
      some (some (⟨41729340⟩, ⟨105263200⟩, ⟨41353400⟩), [⟨375940⟩, ⟨4135340⟩, ⟨4135340⟩, ⟨4135340⟩]) := by
    decide +kernel
  obtain ⟨c, made, same⟩ := exists_of_computed computed
  obtain ⟨tally, issued⟩ := Prod.mk.inj same
  obtain ⟨lane, found, tally⟩ := Option.map_eq_some_iff.mp tally
  simp only [Thread.tally, Prod.mk.injEq] at tally
  obtain ⟨accounted, time, span⟩ := tally
  have intime : lane.thread.accountedUntil ≠ .never := by
    rw [accounted]
    decide
  have inRange : lane.thread.stats.longLoadTime ≠ .never := by
    rw [time]
    decide
  obtain ⟨total, union, less⟩ := overlap_counted made found intime inRange
  rw [time] at total
  rw [span] at union
  exact ⟨c, lane, made, found, intime, inRange, issued, total.symm, union.symm, less⟩

end Chronicle

end CoreTiming
