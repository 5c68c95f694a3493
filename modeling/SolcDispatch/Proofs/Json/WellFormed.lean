import SolcDispatch.Json.Basic
import SolcDispatch.Json.ParseError
import SolcDispatch.Number.Decimal
import SolcDispatch.Proofs.Assoc
import SolcDispatch.Proofs.Number.Rounding

/-! Values as they are read, and induction over values that hold values. -/

namespace SolcDispatch.Json

variable {τ : Type}

mutual

/-- Values as they are read: each name of an object once, whole numbers of not too many
digits, and numbers in their one form. -/
def WellFormed : Json τ → Prop
  | .int n => n.natAbs < 10 ^ maxDigits
  | .float x => x.WellFormed
  | .arr items => WellFormedItems items
  | .obj members => (members.map Prod.fst).Nodup ∧ WellFormedMembers members
  | _ => True

def WellFormedItems : List (Json τ) → Prop
  | [] => True
  | item :: rest => item.WellFormed ∧ WellFormedItems rest

def WellFormedMembers : List (τ × Json τ) → Prop
  | [] => True
  | (_, value) :: rest => value.WellFormed ∧ WellFormedMembers rest

end

theorem wellFormedItems_iff {items : List (Json τ)} :
    WellFormedItems items ↔ ∀ v ∈ items, v.WellFormed := by
  induction items with
  | nil => simp [WellFormedItems]
  | cons item rest ih => rw [WellFormedItems, ih, List.forall_mem_cons]

theorem wellFormedMembers_iff {members : List (τ × Json τ)} :
    WellFormedMembers members ↔ ∀ m ∈ members, m.2.WellFormed := by
  induction members with
  | nil => simp [WellFormedMembers]
  | cons first rest ih => rw [WellFormedMembers, ih, List.forall_mem_cons]

theorem WellFormed.obj_of_sublist {some all : Members τ} (hall : (Json.obj all).WellFormed)
    (h : some.Sublist all) : (Json.obj some).WellFormed := by
  rw [WellFormed, wellFormedMembers_iff] at hall ⊢
  exact ⟨hall.1.sublist (h.map Prod.fst), fun m hm => hall.2 m (h.subset hm)⟩

theorem wellFormed_of_get? [DecidableEq τ] {ms : Members τ} {name : τ} {v : Json τ}
    (h : Assoc.get? ms name = some v) (hm : ∀ m ∈ ms, m.2.WellFormed) : v.WellFormed :=
  hm (name, v) (Assoc.mem_of_get? h)

/-- Induction in which lists and objects may use what holds of what they hold. -/
@[elab_as_elim]
theorem nested {motive : Json τ → Prop} (null : motive .null) (bool : ∀ b, motive (.bool b))
    (int : ∀ n, motive (.int n)) (float : ∀ x, motive (.float x)) (str : ∀ s, motive (.str s))
    (arr : ∀ vs, (∀ v ∈ vs, motive v) → motive (.arr vs))
    (obj : ∀ ms, (∀ m ∈ ms, motive m.2) → motive (.obj ms)) (v : Json τ) : motive v := by
  match v with
  | .null => exact null
  | .bool b => exact bool b
  | .int n => exact int n
  | .float x => exact float x
  | .str s => exact str s
  | .arr vs => exact arr vs fun v hv => nested null bool int float str arr obj v
  | .obj ms => exact obj ms fun m hm => nested null bool int float str arr obj m.2
termination_by sizeOf v
decreasing_by
  · have := List.sizeOf_lt_of_mem hv
    rw [Json.arr.sizeOf_spec]
    omega
  · have := List.sizeOf_lt_of_mem hm
    obtain ⟨name, v⟩ := m
    simp only [Prod.mk.sizeOf_spec, Json.obj.sizeOf_spec] at this ⊢
    omega

end SolcDispatch.Json
