import SolcDispatch.Proofs.Json.Strings

/-! Texts that are put together of parts with dots between them. -/

namespace SolcDispatch

/-- Two texts make one, unless the halves of a surrogate pair meet where they join. -/
class Concatenates (τ : Type) [TextLike τ] : Prop where
  exists_append (a b : τ) (h : Text.isJoined (TextLike.codes a ++ TextLike.codes b)) :
    ∃ t : τ, TextLike.codes t = TextLike.codes a ++ TextLike.codes b

instance : Concatenates String where
  exists_append a b _ := ⟨a ++ b, by simp [TextLike.codes]⟩

instance : Concatenates Wide where
  exists_append a b h := ⟨⟨a.codes ++ b.codes, h⟩, rfl⟩

namespace Text

theorem isJoined_append {a b : List Nat} (ha : isJoined a) (hb : isJoined b)
    (hfront : b.head?.any isLowSurrogate = false) : isJoined (a ++ b) := by
  induction a with
  | nil => exact hb
  | cons n a ih =>
    obtain ⟨hlt, hpair, hrest⟩ := Json.isJoined_cons_iff.mp ha
    rw [List.cons_append, Json.isJoined_cons_iff]
    refine ⟨hlt, ?_, ih hrest⟩
    cases a with
    | nil => rw [List.nil_append, hfront, Bool.and_false]
    | cons m a => exact hpair

theorem joinHalves_of_isJoined {codes : List Nat} (h : isJoined codes) :
    joinHalves [] codes = codes := by
  have hall : joinHalves [] (codes.flatMap (Json.unitsOf false)) = codes :=
    Json.joinHalves_unitsOf false h
  have hunits : Json.unitsOf false = fun n => [n] := rfl
  rwa [hunits, List.flatMap_singleton'] at hall

theorem map_intercalate {α β : Type} (f : α → β) (mark : List α) (parts : List (List α)) :
    (mark.intercalate parts).map f = (mark.map f).intercalate (parts.map (List.map f)) := by
  induction parts with
  | nil => rfl
  | cons part parts ih =>
    cases parts with
    | nil => simp only [List.map_singleton, List.intercalate_singleton]
    | cons next parts =>
      rw [List.intercalate_cons_cons, List.map_append, List.map_append, ih]
      simp only [List.map_cons, List.intercalate_cons_cons]

variable {τ : Type} [TextLike τ] [Json.LawfulTextLike τ] [Concatenates τ]

theorem exists_codes_append {a b : List Nat} {s t : τ} (hs : TextLike.codes s = a)
    (ht : TextLike.codes t = b) (hfront : b.head?.any isLowSurrogate = false) :
    ∃ u : τ, TextLike.codes u = a ++ b := by
  subst hs ht
  apply Concatenates.exists_append
  exact isJoined_append (Json.LawfulTextLike.isJoined_codes s)
    (Json.LawfulTextLike.isJoined_codes t) hfront

theorem exists_codes_dot_cons (t : τ) : ∃ u : τ, TextLike.codes u = 0x2E :: TextLike.codes t := by
  have hdot : TextLike.codes (TextLike.ofString "." : τ) = [0x2E] :=
    Json.LawfulTextLike.codes_ofString "."
  obtain ⟨u, hu⟩ : ∃ u : τ, TextLike.codes u =
      TextLike.codes (TextLike.ofString "." : τ) ++ TextLike.codes t := by
    apply Concatenates.exists_append
    rw [hdot, List.singleton_append, Json.isJoined_cons_iff]
    exact ⟨by decide, rfl, Json.LawfulTextLike.isJoined_codes t⟩
  exact ⟨u, by rw [hu, hdot, List.singleton_append]⟩

/-- Parts with dots between them make a text, before anything that no part can join with. -/
theorem exists_codes_dotted {rest : List Nat} {t : τ} (ht : TextLike.codes t = rest)
    (hfront : rest.head?.any isLowSurrogate = false) (part : τ) (parts : List τ) :
    ∃ u : τ, TextLike.codes u =
      [0x2E].intercalate ((part :: parts).map TextLike.codes) ++ rest := by
  induction parts generalizing part with
  | nil =>
    rw [List.map_singleton, List.intercalate_singleton]
    exact exists_codes_append rfl ht hfront
  | cons next parts ih =>
    obtain ⟨dotted, hdotted⟩ := ih next
    obtain ⟨tail, htail⟩ := exists_codes_dot_cons dotted
    obtain ⟨u, hu⟩ := exists_codes_append (s := part) rfl htail rfl
    refine ⟨u, ?_⟩
    rw [List.map_cons, List.map_cons, List.intercalate_cons_cons, hu, hdotted, List.map_cons,
      List.append_assoc, List.append_assoc, List.singleton_append]

end Text

end SolcDispatch
