import CoreTiming.Proofs.Tables
import Mathlib.Data.List.Induction

/-!
# The register table and the map of last writers

The plain meaning of the register table is a map from registers to their last writers.  The table is not that map: it
goes on naming writers that have left the window, and forgets such a writer only when somebody looks at it.  So the two
differ nearly everywhere; what they agree on is who is found by those who look (`RegisterTable.Names`), and this is kept
as micro-ops arrive in order while the window moves on (`RegisterTable.Names.link`).

It follows that a whole sequence of arrivals is linked as the map would link it, and that the table answers as the map
does at any time afterwards (`RegisterTable.links_to_last_writers`).  Registers that are not tracked have no writer on
record, whoever wrote them.
-/

namespace CoreTiming

/-! ## Section 1: Adding producers one by one -/

theorem eraseDups_concat (qs : List Nat) (q : Nat) :
    (qs ++ [q]).eraseDups = if q ∈ qs then qs.eraseDups else qs.eraseDups ++ [q] := by
  rw [List.eraseDups_append]
  by_cases listed : q ∈ qs <;> simp [List.removeAll, listed, List.eraseDups_cons]

theorem nodup_eraseDups (qs : List Nat) : qs.eraseDups.Nodup := by
  induction qs using List.reverseRecOn with
  | nil => simp
  | append_singleton qs q ih =>
    rw [eraseDups_concat]
    split
    · exact ih
    · rename_i new
      apply List.nodup_append.mpr
      refine ⟨ih, by simp, ?_⟩
      intro p old r last
      rintro rfl
      exact new (List.mem_singleton.mp last ▸ List.mem_eraseDups.mp old)

namespace OpInstance

/-- A producer that is listed already takes no room. -/
theorem exists_of_addProducer (u : OpInstance) (q : Nat)
    (room : q ∈ u.producers.toList ∨ u.producers.toList.length < maxProducers) :
    ∃ producers, u.addProducer q = .ok { u with producers } ∧ producers.toList =
      if q ∈ u.producers.toList then u.producers.toList else u.producers.toList ++ [q] := by
  unfold addProducer BoundedList.insert BoundedList.push BoundedList.contains
  by_cases old : q ∈ u.producers.toList
  · simp [old]
  · simp [old, room.resolve_left old]

theorem addProducer_eq_error {u : OpInstance} {q : Nat}
    (full : ¬(q ∈ u.producers.toList ∨ u.producers.toList.length < maxProducers)) :
    u.addProducer q = .error (.listFull "micro-op dependency list" maxProducers q) := by
  obtain ⟨new, long⟩ := not_or.mp full
  unfold addProducer BoundedList.insert BoundedList.push BoundedList.contains
  simp only [List.contains_eq_mem, new, decide_false, Bool.false_eq_true, if_false, long, dif_neg, not_false_iff]
  rfl

/-- Producers that are added come behind those that are there already, and each that is new is listed once; if there is
no room for all of them, this is an overflow. -/
theorem addProducers_cases (u : OpInstance) (qs : List Nat) :
    (∃ producers, qs.foldlM (fun u q => u.addProducer q) u = .ok { u with producers } ∧
      producers.toList = u.producers.toList ++ (qs.filter (· ∉ u.producers.toList)).eraseDups) ∨
    (maxProducers < u.producers.toList.length + (qs.filter (· ∉ u.producers.toList)).eraseDups.length ∧
      ∃ q, qs.foldlM (fun u q => u.addProducer q) u =
        .error (.listFull "micro-op dependency list" maxProducers q)) := by
  induction qs generalizing u with
  | nil => exact .inl ⟨u.producers, rfl, by simp⟩
  | cons q qs ih =>
    rw [List.foldlM_cons]
    by_cases room : q ∈ u.producers.toList ∨ u.producers.toList.length < maxProducers
    · obtain ⟨producers, added, listed⟩ := exists_of_addProducer u q room
      -- what is new behind `q` is new before it as well, unless it is `q`
      have together : producers.toList ++ (qs.filter (· ∉ producers.toList)).eraseDups =
          u.producers.toList ++ ((q :: qs).filter (· ∉ u.producers.toList)).eraseDups := by
        rw [listed]
        by_cases old : q ∈ u.producers.toList
        · simp [old]
        · have behind : qs.filter (· ∉ u.producers.toList ++ [q]) =
              qs.filter fun r => (!r == q) && decide (r ∉ u.producers.toList) := by
            apply List.filter_congr
            intro r _
            by_cases same : r = q <;> simp [same]
          rw [if_neg old, List.filter_cons_of_pos (by simpa using old), List.eraseDups_cons, List.filter_filter, behind,
            List.append_assoc, List.singleton_append]
      rw [added]
      rcases ih { u with producers } with ⟨rest, went, list⟩ | ⟨many, q', stopped⟩
      · exact .inl ⟨rest, went, list.trans together⟩
      · refine .inr ⟨?_, q', stopped⟩
        rw [← List.length_append, together, List.length_append] at many
        exact many
    · refine .inr ⟨?_, q, by rw [addProducer_eq_error room]; rfl⟩
      obtain ⟨new, long⟩ := not_or.mp room
      rw [List.filter_cons_of_pos (by simpa using new), List.eraseDups_cons, List.length_cons]
      omega

/-- A micro-op without producers gets those it is given, each once, as long as they fit. -/
theorem exists_of_addProducers {u : OpInstance} (fresh : u.producers = .empty) (qs : List Nat)
    (few : qs.eraseDups.length ≤ maxProducers) :
    ∃ producers, qs.foldlM (fun u q => u.addProducer q) u = .ok { u with producers } ∧
      producers.toList = qs.eraseDups := by
  have all : qs.filter (· ∉ u.producers.toList) = qs := by simp [fresh]
  rcases u.addProducers_cases qs with ⟨producers, added, listed⟩ | ⟨many, -⟩
  · refine ⟨producers, added, ?_⟩
    rw [listed, all, fresh]
    rfl
  · rw [all, fresh] at many
    simp only [BoundedList.toList_empty, List.length_nil, Nat.zero_add] at many
    omega

end OpInstance

namespace RegisterTable

variable {t : RegisterTable} {lowest : Nat} {u : OpInstance}

theorem await_eq (t : RegisterTable) (lowest : Nat) (u : OpInstance) :
    t.await lowest u = (t.sought lowest u.op).foldlM (fun u q => u.addProducer q) u := by
  unfold sought await
  rw [List.foldlM_filterMap]
  apply congrArg (fun f => u.op.sources.foldlM f u)
  funext v r
  unfold awaitWriter
  cases t.live? r lowest <;> rfl

/-! ## Section 2: The map of last writers -/

/-- A micro-op that arrives, while `lowest` is the lowest number in the window. -/
structure Arrival where
  /-- The micro-op, with its number. -/
  op : OpInstance
  /-- The lowest number in the window. -/
  lowest : Nat
  deriving DecidableEq

/-- The number of the last one of `as` that writes `r`. -/
def lastWriter (as : List Arrival) (r : Register) : Option Nat :=
  (as.reverse.find? (r ∈ ·.op.op.destinations)).map (·.op.seq)

/-- The last writers, among those that came `before`, of the tracked sources of `a`: in the order of the sources, each
once, and without those that have left the window. -/
def lastWriters (before : List Arrival) (a : Arrival) : List Nat :=
  ((a.op.op.sources.filter (· < numRegisters)).filterMap fun r =>
    (lastWriter before r).filter (a.lowest ≤ ·)).eraseDups

@[simp] theorem lastWriter_nil (r : Register) : lastWriter [] r = none := rfl

theorem lastWriter_concat (as : List Arrival) (a : Arrival) (r : Register) :
    lastWriter (as ++ [a]) r = if r ∈ a.op.op.destinations then some a.op.seq else lastWriter as r := by
  unfold lastWriter
  rw [List.reverse_append, List.reverse_singleton, List.singleton_append, List.find?_cons]
  by_cases writes : r ∈ a.op.op.destinations <;> simp [writes]

theorem exists_of_lastWriter {as : List Arrival} {r : Register} {q : Nat} (h : lastWriter as r = some q) :
    ∃ a ∈ as, a.op.seq = q := by
  obtain ⟨a, found, number⟩ := Option.map_eq_some_iff.mp h
  exact ⟨a, List.mem_reverse.mp (List.mem_of_find?_eq_some found), number⟩

/-- Micro-ops that wait for nothing yet arrive in the order of their numbers, the window moves forward only and never
beyond the one that arrives, and none has more producers than it can wait for. -/
structure InOrder (as : List Arrival) : Prop where
  /-- Numbers grow. -/
  increasing : as.Pairwise (·.op.seq < ·.op.seq)
  /-- The window does not move back. -/
  forward : as.Pairwise (·.lowest ≤ ·.lowest)
  /-- Who arrives is in the window. -/
  inside : ∀ a ∈ as, a.lowest ≤ a.op.seq
  /-- Numbers are machine words. -/
  word : ∀ a ∈ as, a.op.seq ≤ Word.max
  /-- Who arrives waits for nothing yet. -/
  fresh : ∀ a ∈ as, a.op.producers = .empty
  /-- There is room for the producers of each. -/
  few : ∀ k (_ : k < as.length), (lastWriters (as.take k) as[k]).length ≤ maxProducers

instance (as : List Arrival) : Decidable (InOrder as) :=
  decidable_of_iff (as.Pairwise (·.op.seq < ·.op.seq) ∧ as.Pairwise (·.lowest ≤ ·.lowest) ∧
      (∀ a ∈ as, a.lowest ≤ a.op.seq) ∧ (∀ a ∈ as, a.op.seq ≤ Word.max) ∧ (∀ a ∈ as, a.op.producers = .empty) ∧
      ∀ k (_ : k < as.length), (lastWriters (as.take k) as[k]).length ≤ maxProducers)
    ⟨fun ⟨increasing, forward, inside, word, fresh, few⟩ => ⟨increasing, forward, inside, word, fresh, few⟩,
      fun h => ⟨h.increasing, h.forward, h.inside, h.word, h.fresh, h.few⟩⟩

/-- What holds of a sequence holds of its beginning. -/
theorem InOrder.init {as : List Arrival} {a : Arrival} (h : InOrder (as ++ [a])) : InOrder as where
  increasing := (List.pairwise_append.mp h.increasing).1
  forward := (List.pairwise_append.mp h.forward).1
  inside := fun b hb => h.inside b (List.mem_append_left _ hb)
  word := fun b hb => h.word b (List.mem_append_left _ hb)
  fresh := fun b hb => h.fresh b (List.mem_append_left _ hb)
  few := by
    intro k inside
    have longer : k < (as ++ [a]).length := by
      rw [List.length_append]
      omega
    have := h.few k longer
    rwa [List.take_append_of_le_length (Nat.le_of_lt inside), List.getElem_append_left inside] at this

/-! ## Section 3: What the table and the map agree on -/

/-- Whoever looks up a register from the present window, or a later one, finds what the map of last writers says. -/
structure Names (t : RegisterTable) (as : List Arrival) : Prop where
  /-- The table tracks as many registers as it should. -/
  size : t.writers.size = numRegisters
  /-- It says of each of them what the map says, and nothing of the others. -/
  live?_eq : ∀ later, (∀ a ∈ as, a.lowest ≤ later) → ∀ r, t.live? r later =
    if r < numRegisters then ((lastWriter as r).bind seq?).filter (later ≤ ·) else none

theorem names_empty : empty.Names [] where
  size := size_empty
  live?_eq := by simp

/-- The table and the map agree on what a micro-op is to wait for. -/
theorem Names.sought_eq {as : List Arrival} {a : Arrival} (h : t.Names as) (order : InOrder (as ++ [a])) :
    (t.sought a.lowest a.op.op).eraseDups = lastWriters as a := by
  have forward : ∀ b ∈ as, b.lowest ≤ a.lowest := fun b hb =>
    (List.pairwise_append.mp order.forward).2.2 b hb a (List.mem_singleton_self a)
  have same : ∀ r, (lastWriter as r).bind seq? = lastWriter as r := by
    intro r
    cases writer : lastWriter as r with
    | none => rfl
    | some q =>
      obtain ⟨b, hb, rfl⟩ := exists_of_lastWriter writer
      -- there is a later number, so that this one is not the largest
      have later : b.op.seq < a.op.seq :=
        (List.pairwise_append.mp order.increasing).2.2 b hb a (List.mem_singleton_self a)
      have word := order.word a (by simp)
      have proper : b.op.seq ≠ noSeq := by
        unfold noSeq
        omega
      simp [seq?, proper]
  unfold sought lastWriters
  apply congrArg List.eraseDups
  rw [List.filterMap_filter]
  apply congrArg (fun f => a.op.op.sources.filterMap f)
  funext r
  rw [h.live?_eq a.lowest forward r, same r]
  simp

/-- Whoever arrives waits for the last writers of its sources, and the table and the map go on agreeing. -/
theorem Names.link {as : List Arrival} {a : Arrival} (h : t.Names as) (order : InOrder (as ++ [a])) :
    ∃ producers t', RegisterTable.link a.op a.lowest t = .ok ({ a.op with producers }, t') ∧
      producers.toList = lastWriters as a ∧ t'.Names (as ++ [a]) := by
  have few : (lastWriters as a).length ≤ maxProducers := by
    have := order.few as.length (by simp)
    simpa using this
  rw [← h.sought_eq order] at few ⊢
  obtain ⟨producers, added, listed⟩ := OpInstance.exists_of_addProducers (order.fresh a (by simp)) _ few
  rw [← await_eq] at added
  refine ⟨producers, t.note a.lowest { a.op with producers }, ?_, listed, ?_⟩
  · simp only [RegisterTable.link, added]
    rfl
  · refine ⟨by rw [size_note, h.size], ?_⟩
    intro later covers r
    have behind : a.lowest ≤ later := covers a (by simp)
    have forward : ∀ b ∈ as, b.lowest ≤ a.lowest := fun b hb =>
      (List.pairwise_append.mp order.forward).2.2 b hb a (List.mem_singleton_self a)
    -- the table is right from the present window on, and later ones see less
    rw [live?_of_le behind, live?_note, h.live?_eq a.lowest forward, h.size, lastWriter_concat]
    have within : ∀ o : Option Nat, (o.filter (a.lowest ≤ ·)).filter (later ≤ ·) = o.filter (later ≤ ·) := by
      intro o
      rw [Option.filter_filter]
      apply congrArg (fun p => o.filter p)
      funext q
      by_cases later_le : later ≤ q
      · simp [later_le, Nat.le_trans behind later_le]
      · simp [later_le]
    by_cases tracked : r < numRegisters
    · by_cases writes : r ∈ a.op.op.destinations <;> simp [tracked, writes, within]
    · simp [tracked]

/-! ## Section 4: A whole sequence -/

/-- Links the next micro-op, behind those that have been linked. -/
def linkNext (done : List OpInstance × RegisterTable) (a : Arrival) :
    Except Fault (List OpInstance × RegisterTable) := do
  let (u, t) ← link a.op a.lowest done.2
  pure (done.1 ++ [u], t)

/-- Links one micro-op after the other, beginning with a table that names nobody. -/
def linkAll (as : List Arrival) : Except Fault (List OpInstance × RegisterTable) := as.foldlM linkNext ([], empty)

theorem linkAll_concat (as : List Arrival) (a : Arrival) :
    linkAll (as ++ [a]) = (linkAll as).bind fun done => linkNext done a := by
  unfold linkAll
  rw [List.foldlM_append]
  apply bind_congr
  intro done
  simp

/-- What has become of the arrivals `as`: each waits for the last writers before it, and for nothing else. -/
def Linked (as : List Arrival) (us : List OpInstance) : Prop :=
  us.length = as.length ∧ ∀ k (_ : k < as.length), ∃ producers, us[k]? = some { as[k].op with producers } ∧
    producers.toList = lastWriters (as.take k) as[k]

theorem Linked.concat {as : List Arrival} {us : List OpInstance} {a : Arrival} {producers : BoundedList maxProducers}
    (h : Linked as us) (listed : producers.toList = lastWriters as a) :
    Linked (as ++ [a]) (us ++ [{ a.op with producers }]) := by
  apply And.intro (by simp [h.1])
  intro k inside
  by_cases old : k < as.length
  · obtain ⟨producers, at_k, rest⟩ := h.2 k old
    apply Exists.intro producers
    rw [List.getElem?_append_left (by rw [h.1]; exact old), List.take_append_of_le_length (Nat.le_of_lt old),
      List.getElem_append_left old]
    exact ⟨at_k, rest⟩
  · have last : k = as.length := by
      rw [List.length_append, List.length_singleton] at inside
      omega
    subst last
    apply Exists.intro producers
    simp only [List.take_left, List.getElem_concat_length]
    exact ⟨by rw [← h.1]; simp, listed⟩

theorem exists_of_inOrder (as : List Arrival) (order : InOrder as) :
    ∃ us t, linkAll as = .ok (us, t) ∧ Linked as us ∧ t.Names as := by
  induction as using List.reverseRecOn with
  | nil => exact ⟨[], empty, rfl, ⟨rfl, by simp⟩, names_empty⟩
  | append_singleton as a ih =>
    obtain ⟨us, t, linked, done, names⟩ := ih order.init
    obtain ⟨producers, t', arrived, listed, names'⟩ := names.link order
    refine ⟨us ++ [{ a.op with producers }], t', ?_, done.concat listed, names'⟩
    rw [linkAll_concat, linked]
    show linkNext (us, t) a = _
    simp only [linkNext, arrived]
    rfl

/-- Nobody is among the last writers before it. -/
theorem InOrder.not_mem_lastWriters {as : List Arrival} (h : InOrder as) {k : Nat} (inside : k < as.length) :
    as[k].op.seq ∉ lastWriters (as.take k) as[k] := by
  intro listed
  obtain ⟨r, _, found⟩ := List.mem_filterMap.mp (List.mem_eraseDups.mp listed)
  obtain ⟨writer, _⟩ := Option.filter_eq_some_iff.mp found
  obtain ⟨b, old, number⟩ := exists_of_lastWriter writer
  obtain ⟨i, hi, rfl⟩ := List.mem_iff_getElem.mp old
  have before : i < k := by
    rw [List.length_take] at hi
    omega
  rw [List.getElem_take] at number
  have grows := List.pairwise_iff_getElem.mp h.increasing i k (by omega) inside before
  omega

/-- However many micro-ops arrive, in whatever registers they deal: each waits for the last writers of its sources that
are tracked and still in the window, in the order of the sources and each once, so never for itself; and at the end, as
at any time before, a look-up from any window that is not behind the last one yields the last writer of a tracked
register if it is in that window, and nobody otherwise. -/
theorem links_to_last_writers (as : List Arrival) (order : InOrder as) :
    ∃ us t, linkAll as = .ok (us, t) ∧ us.length = as.length ∧
      (∀ k (_ : k < as.length), ∃ producers, us[k]? = some { as[k].op with producers } ∧
        producers.toList = lastWriters (as.take k) as[k] ∧ producers.toList.Nodup ∧
        as[k].op.seq ∉ producers.toList) ∧
      ∀ r later, (∀ a ∈ as, a.lowest ≤ later) → (t.live? r later).getD noSeq =
        if r < numRegisters then ((lastWriter as r).filter (later ≤ ·)).getD noSeq else noSeq := by
  obtain ⟨us, t, linked, ⟨length, each⟩, names⟩ := exists_of_inOrder as order
  refine ⟨us, t, linked, length, ?_, ?_⟩
  · intro k inside
    obtain ⟨producers, at_k, listed⟩ := each k inside
    refine ⟨producers, at_k, listed, ?_, ?_⟩
    · rw [listed]
      exact nodup_eraseDups _
    · rw [listed]
      exact order.not_mem_lastWriters inside
  · intro r later covers
    rw [names.live?_eq later covers]
    by_cases tracked : r < numRegisters
    · rw [if_pos tracked, if_pos tracked]
      cases writer : lastWriter as r with
      | none => rfl
      | some q =>
        -- the largest number is the one that stands for nobody
        by_cases largest : q = noSeq
        · subst largest
          by_cases within : later ≤ noSeq <;> simp [seq?, within, Option.filter]
        · simp [seq?, largest]
    · rw [if_neg tracked, if_neg tracked]
      rfl

/-- The arrival of a micro-op that reads `sources` and writes `destinations`. -/
def Arrival.of (seq lowest : Nat) (sources destinations : List Register) : Arrival where
  op := { op := { sources, destinations }, seq }
  lowest := lowest

/-- Registers that are read twice, overwritten, left behind by the window and not tracked at all. -/
def mixedArrivals : List Arrival :=
  [.of 3 0 [] [5, 6], .of 4 3 [5, 6, 5] [5, 400], .of 9 4 [400, 6, 5, 383] [6, 383], .of 10 4 [6, 5, 383, 6, 9999] []]

theorem links_mixedArrivals :
    InOrder mixedArrivals ∧ ∃ us t, linkAll mixedArrivals = .ok (us, t) ∧
      (∃ u, us[2]? = some u ∧ u.producers.toList = [4]) ∧ (∃ u, us[3]? = some u ∧ u.producers.toList = [9, 4]) ∧
      (t.live? 5 4).getD noSeq = 4 ∧ (t.live? 5 5).getD noSeq = noSeq ∧ (t.live? 400 4).getD noSeq = noSeq := by
  have order : InOrder mixedArrivals := by decide
  apply And.intro order
  obtain ⟨us, t, linked, _, each, found⟩ := links_to_last_writers mixedArrivals order
  refine ⟨us, t, linked, ?_, ?_, ?_, ?_, ?_⟩
  · obtain ⟨producers, at_2, listed, _⟩ := each 2 (by decide)
    exact ⟨_, at_2, listed⟩
  · obtain ⟨producers, at_3, listed, _⟩ := each 3 (by decide)
    exact ⟨_, at_3, listed⟩
  · exact found 5 4 (by decide)
  · exact found 5 5 (by decide)
  · exact found 400 4 (by decide)

/-- Register 400 is not tracked: its writer is in the window, and is not found. -/
theorem untracked_writer_not_found :
    InOrder [.of 0 0 [] [400]] ∧ lastWriter [.of 0 0 [] [400]] 400 = some 0 ∧
      ∃ us t, linkAll [.of 0 0 [] [400]] = .ok (us, t) ∧
        (t.live? 400 0).getD noSeq ≠ ((lastWriter [.of 0 0 [] [400]] 400).filter (0 ≤ ·)).getD noSeq := by
  refine ⟨by decide, rfl, _, _, rfl, ?_⟩
  decide +kernel

end RegisterTable

end CoreTiming
