import CoreTiming.Proofs.TimeOrder
import CoreTiming.Stats.CpiStack
import Mathlib.Algebra.BigOperators.Group.List.Basic

/-!
# All the time charged

Whatever a span of time is charged to, the total grows by that span.
-/

namespace CoreTiming

/-- Sums stop at `never` in whatever order they are taken. -/
instance : AddCommMonoid Time where
  add_assoc a b c := by
    apply Time.ext_toNat
    simp only [Time.toNat_add]
    omega
  zero_add a := by
    apply Time.ext_toNat
    have := a.toNat_le_limit
    rw [Time.toNat_add, Time.toNat_zero]
    omega
  add_zero a := by
    apply Time.ext_toNat
    have := a.toNat_le_limit
    rw [Time.toNat_add, Time.toNat_zero]
    omega
  add_comm a b := by
    apply Time.ext_toNat
    simp only [Time.toNat_add]
    omega
  nsmul := nsmulRec

theorem LocationTimes.sum_charge (v : LocationTimes) (l : Location) (t : Time) :
    (v.charge l t).toList.sum = v.toList.sum + t := by
  have inside : l.index < v.toList.length := by
    rw [Vector.length_toList]
    exact l.index_lt
  have split : v.toList.sum =
      (v.toList.take l.index).sum + (v.at l + (v.toList.drop (l.index + 1)).sum) := by
    rw [← List.sum_cons, ← List.sum_append]
    exact congrArg List.sum ((List.take_append_drop l.index _).symm.trans
      (congrArg _ (List.drop_eq_getElem_cons inside)))
  unfold charge
  rw [Vector.toList_set, List.sum_set, if_pos inside, split]
  ac_rfl

namespace CpiStack

theorem total_eq (s : CpiStack) :
    s.total = s.base + s.smt + s.idle + s.branchPredictor + s.serialization + s.stationsFull +
      s.instructionCache.toList.sum + s.dataCache.toList.sum := by
  have fold (ts : List Time) (t : Time) : ts.foldl (· + ·) t = t + ts.sum := by
    calc ts.foldl (· + ·) t
      _ = ts.foldl (· + ·) (t + 0) := by rw [add_zero]
      _ = t + ts.foldl (· + ·) 0 := List.foldl_assoc
      _ = t + ts.sum := by rw [List.sum_eq_foldl]
  unfold total
  rw [fold, fold]

@[simp] theorem total_new : ({} : CpiStack).total = 0 := by
  decide +kernel

theorem total_charge (s : CpiStack) (c : Cause) (t : Time) :
    (s.charge c t).total = s.total + t := by
  rw [total_eq, total_eq]
  cases c with
  | instructionCache l =>
    simp only [charge, LocationTimes.sum_charge]
    ac_rfl
  | dataCache l =>
    simp only [charge, LocationTimes.sum_charge]
    ac_rfl
  | _ =>
    simp only [charge]
    ac_rfl

end CpiStack

end CoreTiming
