import SolcDispatch.Version.Order

/-! Any two versions are in order one way or the other, versions that differ in their builds
alone in both ways, and sorting puts all of them in order. -/

namespace SolcDispatch.CompilerVersion

theorem order_eq_compareLex : order =
    compareLex (compareOn major) (compareLex (compareOn minor) (compareLex (compareOn patch)
      (compareLex (compareOn fun v => v.prerelease.isNone)
        (compareOn fun v => v.prerelease.getD "")))) := rfl

instance : Std.TransCmp order := by
  rw [order_eq_compareLex]
  infer_instance

variable {a b c : CompilerVersion}

theorem isAtLeast_eq_isGE (a b : CompilerVersion) : a.isAtLeast b = (order a b).isGE := by
  rw [isAtLeast]
  cases order a b <;> rfl

theorem isAtLeast_trans (hab : a.isAtLeast b = true) (hbc : b.isAtLeast c = true) :
    a.isAtLeast c = true := by
  rw [isAtLeast_eq_isGE] at hab hbc ⊢
  exact Std.TransCmp.isGE_trans hab hbc

theorem isAfter_eq_false_iff : a.isAfter b = false ↔ b.isAtLeast a = true := by
  have hswap : order a b = (order b a).swap := Std.OrientedCmp.eq_swap
  rw [isAfter, isAtLeast, hswap]
  cases order b a <;> decide

theorem isAtLeast_of_isAfter (h : a.isAfter b = true) : a.isAtLeast b = true := by
  rw [isAfter, beq_iff_eq] at h
  rw [isAtLeast, h]
  rfl

theorem isAtLeast_total (a b : CompilerVersion) : (a.isAtLeast b || b.isAtLeast a) = true := by
  cases h : a.isAfter b with
  | true => rw [isAtLeast_of_isAfter h, Bool.true_or]
  | false => rw [isAfter_eq_false_iff.mp h, Bool.or_true]

theorem pairwise_sortDescending (versions : List CompilerVersion) :
    (sortDescending versions).Pairwise fun a b => a.isAtLeast b = true :=
  @List.pairwise_mergeSort _ isAtLeast (fun _ _ _ => isAtLeast_trans) isAtLeast_total versions

theorem sortDescending_perm (versions : List CompilerVersion) :
    (sortDescending versions).Perm versions :=
  List.mergeSort_perm versions isAtLeast

end SolcDispatch.CompilerVersion
