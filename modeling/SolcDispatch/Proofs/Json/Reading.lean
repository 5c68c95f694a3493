import SolcDispatch.Proofs.Json.RoundTrip
import SolcDispatch.Proofs.Results

/-! Values that are read from texts are well-formed. -/

namespace SolcDispatch.Json

theorem natOfDigits_lt {ds : List Char} (h : ∀ c ∈ ds, isDigit c) :
    natOfDigits ds < 10 ^ ds.length := by
  have hds : ∀ c ∈ ds, c.isDigit := fun c hc => isDigit_iff ▸ h c hc
  rw [natOfDigits_eq, ← Text.digitsValue_eq_ofDigitChars hds]
  exact Text.digitsValue_lt ds

theorem digits_of_wholePart? {cs whole rest : List Char} (h : wholePart? cs = some (whole, rest)) :
    ∀ c ∈ whole, isDigit c := by
  unfold wholePart? at h
  split at h
  · cases h
    exact List.forall_mem_singleton.mpr rfl
  · unfold digits? at h
    split at h
    · cases h
    · cases h
      exact List.all_eq_true.mp List.all_takeWhile

variable {τ : Type}

theorem wellFormed_of_unsignedNumber {negative : Bool} {start cs rest : List Char} {v : Json τ}
    (h : unsignedNumber (some maxDigits) negative start cs = .ok (v, rest)) : v.WellFormed := by
  unfold unsignedNumber at h
  split at h
  · cases h
  · rename_i whole afterWhole hwhole
    dsimp only at h
    split at h
    · split at h
      · cases h
      · rename_i hlength
        cases h
        have hlt := natOfDigits_lt (digits_of_wholePart? hwhole)
        have hshort : whole.length ≤ maxDigits := by simpa using hlength
        have hle := Nat.pow_le_pow_right (by decide : 0 < 10) hshort
        rw [WellFormed]
        split <;> omega
    · cases h
      rw [WellFormed]
      exact Binary64.wellFormed_ofDecimal negative _ _

theorem wellFormed_of_scalar {cs rest : List Char} {v : Json τ}
    (h : scalar lenient cs = .ok (v, rest)) : v.WellFormed := by
  have hwords : ∀ w ∈ (lenient : Dialect τ).words, w.2.WellFormed := by
    simp [lenient, strict, WellFormed, Binary64.WellFormed]
  unfold scalar at h
  split at h
  · rename_i read hread
    cases h
    rw [Dialect.word?, Option.map_eq_some_iff] at hread
    obtain ⟨w, hw, heq⟩ := hread
    cases heq
    exact hwords w (List.mem_of_find?_eq_some hw)
  · split at h
    · exact wellFormed_of_unsignedNumber h
    · exact wellFormed_of_unsignedNumber h

variable [DecidableEq τ] [TextLike τ]

theorem wellFormed_of_reading (fuel : Nat) :
    (∀ cs (v : Json τ) rest, value lenient fuel cs = .ok (v, rest) → v.WellFormed) ∧
    (∀ (read : List (Json τ)) cs vs rest, (∀ v ∈ read, v.WellFormed) →
      items lenient fuel read cs = .ok (vs, rest) → ∀ v ∈ vs, v.WellFormed) ∧
    (∀ (read : Members τ) cs ms rest, (∀ m ∈ read, m.2.WellFormed) →
      members lenient fuel read cs = .ok (ms, rest) → ∀ m ∈ ms, m.2.WellFormed) := by
  -- One induction carries the three readers, on the fuel that they share.
  induction fuel with
  | zero =>
    refine ⟨?_, ?_, ?_⟩
    · intro cs v rest h
      cases h
    · intro read cs vs rest _ h
      cases h
    · intro read cs ms rest _ h
      cases h
  | succ fuel ih =>
    obtain ⟨hvalue, hitems, hmembers⟩ := ih
    refine ⟨?_, ?_, ?_⟩
    · intro cs v rest h
      unfold value at h
      split at h
      · obtain ⟨body, -, hv⟩ := Results.map_eq_ok h
        cases hv
        trivial
      · split at h
        · cases h
          simp [WellFormed, WellFormedMembers]
        · obtain ⟨⟨ms, left⟩, hms, hv⟩ := Results.map_eq_ok h
          cases hv
          rw [WellFormed, wellFormedMembers_iff]
          have hall := hmembers [] _ ms _ (by simp) hms
          exact ⟨Assoc.nodup_ofPairs ms, fun m hm => hall m (Assoc.mem_ofPairs hm)⟩
      · split at h
        · cases h
          simp [WellFormed, WellFormedItems]
        · obtain ⟨⟨vs, left⟩, hvs, hv⟩ := Results.map_eq_ok h
          cases hv
          rw [WellFormed, wellFormedItems_iff]
          exact hitems [] _ vs _ (by simp) hvs
      · exact wellFormed_of_scalar h
    · intro read cs vs rest hread h
      unfold items at h
      split at h
      · cases h
      · rename_i item after hitem
        have hall : ∀ v ∈ item :: read, v.WellFormed :=
          List.forall_mem_cons.mpr ⟨hvalue _ _ _ hitem, hread⟩
        split at h
        · cases h
          exact fun v hv => hall v (List.mem_reverse.mp hv)
        · exact hitems _ _ _ _ hall h
        · cases h
    · intro read cs ms rest hread h
      unfold members at h
      split at h
      · split at h
        · cases h
        · split at h
          · split at h
            · cases h
            · rename_i name _ _ _ _ _ _ v after hv
              dsimp only at h
              have hall : ∀ m ∈ (TextLike.ofCodes name, v) :: read, m.2.WellFormed :=
                List.forall_mem_cons.mpr ⟨hvalue _ _ _ hv, hread⟩
              split at h
              · cases h
                exact fun m hm => hall m (List.mem_reverse.mp hm)
              · exact hmembers _ _ _ _ hall h
              · cases h
          · cases h
      · cases h

theorem wellFormed_of_parseChars {text : List Char} {v : Json τ} (h : parseChars text τ = .ok v) :
    v.WellFormed := by
  unfold parseChars parseWith at h
  split at h
  · cases h
  · rename_i hread
    split at h
    · cases h
      exact (wellFormed_of_reading _).1 _ _ _ hread
    · cases h

theorem wellFormed_of_parse {text : String} {v : Json τ} (h : parse text τ = .ok v) :
    v.WellFormed := by
  unfold parse at h
  split at h
  · cases h
  · exact wellFormed_of_parseChars h

theorem wellFormed_of_parseBytes? {bytes : Text.Bytes} {v : Json τ}
    (h : parseBytes? bytes τ = some (.ok v)) : v.WellFormed := by
  rw [parseBytes?, Option.map_eq_some_iff] at h
  obtain ⟨text, -, htext⟩ := h
  exact wellFormed_of_parseChars htext

end SolcDispatch.Json
