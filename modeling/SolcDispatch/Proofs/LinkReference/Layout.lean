import Mathlib.Data.Nat.Find
import SolcDispatch.Proofs.LinkReference.Scan

/-! Code as compilers lay it out: runs of hexadecimal digits and placeholders of
libraries. The scan goes on in the middle of the placeholder found last, so it reads a
layout as it is meant only if no mark in the second half of a placeholder stands 38
characters before another mark. -/

namespace SolcDispatch.LinkReference

inductive Piece
  | digits (run : List Char)
  | library (name : List Char)
  deriving DecidableEq

namespace Piece

def isHexDigit (c : Char) : Bool :=
  c.isDigit || ('a' ≤ c && c ≤ 'f') || ('A' ≤ c && c ≤ 'F')

/-- Digits write whole bytes. A name has between 1 and 36 characters on one line and
does not end in the character that fills it up. -/
def WellFormed : Piece → Prop
  | digits run => run.length % 2 = 0 ∧ ∀ c ∈ run, isHexDigit c
  | library name =>
    name ≠ [] ∧ name.length ≤ nameWidth ∧ '\n' ∉ name ∧ name.getLast? ≠ some '_'

def text : Piece → List Char
  | digits run => run
  | library name => mark ++ (name ++ List.replicate (nameWidth - name.length) '_') ++ mark

def textOf (pieces : List Piece) : List Char := pieces.flatMap text

/-- The libraries of pieces whose text begins at an offset, each with its place. -/
def placesFrom (offset : Nat) : List Piece → List (String × LinkReference)
  | [] => []
  | digits run :: rest => placesFrom (offset + run.length) rest
  | library name :: rest =>
    (String.ofList name, ⟨offset / 2, placeholderBytes⟩) :: placesFrom (offset + 40) rest

/-- No mark in the second half of a placeholder stands 38 characters before another. -/
def Unambiguous (pieces : List Piece) : Prop :=
  ∀ name rest, library name :: rest <:+ pieces → ∀ i, 20 ≤ i → i < 40 →
    ¬ (mark <+: (textOf (library name :: rest)).drop i ∧
      mark <+: (textOf (library name :: rest)).drop (i + 38))

theorem unambiguous_nil : Unambiguous [] := by
  intro name rest h
  simp at h

theorem unambiguous_digits_cons {run : List Char} {rest : List Piece} :
    Unambiguous (digits run :: rest) ↔ Unambiguous rest := by
  constructor
  · intro h name more hm
    exact h name more (hm.trans (List.suffix_cons _ _))
  · intro h name more hm
    rcases List.suffix_cons_iff.mp hm with he | hm
    · cases he
    · exact h name more hm

theorem unambiguous_library_cons {name : List Char} {rest : List Piece} :
    Unambiguous (library name :: rest) ↔
      (∀ i, 20 ≤ i → i < 40 → ¬ (mark <+: (textOf (library name :: rest)).drop i ∧
        mark <+: (textOf (library name :: rest)).drop (i + 38))) ∧ Unambiguous rest := by
  constructor
  · intro h
    exact ⟨h name rest (List.suffix_refl _),
      fun other more hm => h other more (hm.trans (List.suffix_cons _ _))⟩
  · rintro ⟨hfirst, hrest⟩ other more hm
    rcases List.suffix_cons_iff.mp hm with he | hm
    · cases he
      exact hfirst
    · exact hrest other more hm

theorem textOf_cons (piece : Piece) (rest : List Piece) :
    textOf (piece :: rest) = piece.text ++ textOf rest := List.flatMap_cons

theorem not_mark_of_isHexDigit {c : Char} {cs : List Char} (h : isHexDigit c) :
    ¬ mark <+: c :: cs := by
  intro hm
  obtain ⟨rest, he⟩ := mark_prefix_iff.mp hm
  obtain rfl : c = '_' := (List.cons.inj he).1
  exact absurd h (by decide)

theorem dropLastWhile_padding {name : List Char} (n : Nat) (h : name.getLast? ≠ some '_') :
    Text.dropLastWhile (· == '_') (name ++ List.replicate n '_') = name := by
  have hpad : (List.replicate n '_').dropWhile (· == '_') = [] := by simp
  rw [Text.dropLastWhile, List.reverse_append, List.reverse_replicate, List.dropWhile_append, hpad]
  rw [← List.head?_reverse] at h
  cases hr : name.reverse with
  | nil => simpa using hr.symm
  | cons c rest =>
    have hc : (c == '_') = false := by simpa [hr] using h
    simp only [List.isEmpty_nil, if_true, List.dropWhile_cons, hc, Bool.false_eq_true, if_false]
    rw [← hr, List.reverse_reverse]

theorem length_library {name : List Char} (h : (library name).WellFormed) :
    (library name).text.length = 40 := by
  have := h.2.1
  simp only [nameWidth] at this
  simp only [text, mark, nameWidth, List.length_append, List.length_replicate, List.length_cons,
    List.length_nil]
  omega

theorem placeholder?_library {name : List Char} (rest : List Char)
    (h : (library name).WellFormed) : placeholder? ((library name).text ++ rest) = some name := by
  obtain ⟨_, hlen, hline, hlast⟩ := h
  let filled := name ++ List.replicate (nameWidth - name.length) '_'
  have hfilled : filled.length = 36 := by
    simp only [nameWidth] at hlen
    simp only [filled, nameWidth, List.length_append, List.length_replicate]
    omega
  have htext : (library name).text ++ rest = '_' :: '_' :: (filled ++ (mark ++ rest)) := by
    simp only [text, mark, filled, List.append_assoc, List.cons_append, List.nil_append]
  have hbody : body ((library name).text ++ rest) = filled := by
    rw [htext]
    exact List.take_left' hfilled
  refine placeholder?_eq_some_iff.mpr ⟨⟨_, htext.symm⟩, ⟨rest, ?_⟩, ?_, ?_⟩
  · rw [htext]
    exact (List.drop_left' hfilled).symm
  · simp [hbody, filled, hline]
  · rw [hbody]
    exact dropLastWhile_padding _ hlast

theorem newline_notMem_textOf {pieces : List Piece} (hw : ∀ p ∈ pieces, p.WellFormed) :
    '\n' ∉ textOf pieces := by
  intro hm
  obtain ⟨piece, hp, hm⟩ := List.mem_flatMap.mp hm
  have hpiece := hw piece hp
  cases piece with
  | digits run => exact absurd (hpiece.2 _ hm) (by decide)
  | library name => simp [text, mark, hpiece.2.2.1] at hm

theorem placeholder?_isSome_iff {cs : List Char} (hline : '\n' ∉ cs) :
    (placeholder? cs).isSome ↔ mark <+: cs ∧ mark <+: cs.drop 38 := by
  constructor
  · intro h
    obtain ⟨name, h⟩ := Option.isSome_iff_exists.mp h
    have hh := placeholder?_eq_some_iff.mp h
    exact ⟨hh.1, hh.2.1⟩
  · rintro ⟨hfront, hback⟩
    have hbody : '\n' ∉ body cs := fun hm => hline (List.mem_of_mem_drop (List.mem_of_mem_take hm))
    rw [placeholder?_eq_some_iff.mpr ⟨hfront, hback, hbody, rfl⟩]
    rfl

theorem scan_digits_append {run : List Char} (offset : Nat) (rest : List Char)
    (h : ∀ c ∈ run, isHexDigit c) :
    scan 0 offset (run ++ rest) = scan 0 (offset + run.length) rest := by
  have hnone : ∀ i < run.length, placeholder? ((run ++ rest).drop i) = none := by
    intro i hi
    rw [List.drop_append_of_le_length (Nat.le_of_lt hi), List.drop_eq_getElem_cons hi]
    by_contra hsome
    obtain ⟨name, hname⟩ := Option.ne_none_iff_exists'.mp hsome
    exact not_mark_of_isHexDigit (h _ (List.getElem_mem hi)) (placeholder?_eq_some_iff.mp hname).1
  rw [scan_of_none offset hnone, List.drop_left]

/-- The scan of a placeholder and what follows it, if nothing misleads it in the middle. -/
theorem scan_library_append {name : List Char} {rest : List Piece} (offset : Nat)
    (hw : ∀ p ∈ library name :: rest, p.WellFormed)
    (hquiet : ∀ i, 20 ≤ i → i < 40 → placeholder? ((textOf (library name :: rest)).drop i) = none) :
    scan 0 offset (textOf (library name :: rest)) =
      (String.ofList name, ⟨offset / 2, placeholderBytes⟩) ::
        scan 0 (offset + 40) (textOf rest) := by
  have hname := hw _ List.mem_cons_self
  have hfound := placeholder?_library (textOf rest) hname
  rw [← textOf_cons] at hfound
  have hpass : ∀ i < 20,
      placeholder? (((textOf (library name :: rest)).drop 20).drop i) = none := by
    intro i hi
    rw [List.drop_drop]
    exact hquiet (20 + i) (by omega) (by omega)
  rw [scan_of_some offset hfound, placeholderBytes, scan_of_none (offset + 20) hpass,
    List.drop_drop, textOf_cons, List.drop_left' (length_library hname)]

theorem scan_textOf {offset : Nat} {pieces : List Piece} (hw : ∀ p ∈ pieces, p.WellFormed)
    (hu : Unambiguous pieces) : scan 0 offset (textOf pieces) = placesFrom offset pieces := by
  induction pieces generalizing offset with
  | nil => rfl
  | cons piece rest ih =>
    have hrest : ∀ p ∈ rest, p.WellFormed := fun p hp => hw p (List.mem_cons_of_mem _ hp)
    cases piece with
    | digits run =>
      have hrun : (digits run).WellFormed := hw _ List.mem_cons_self
      rw [textOf_cons, text, scan_digits_append offset (textOf rest) hrun.2,
        ih hrest (unambiguous_digits_cons.mp hu), placesFrom]
    | library name =>
      obtain ⟨hfirst, hmore⟩ := unambiguous_library_cons.mp hu
      have hline := newline_notMem_textOf hw
      have hquiet : ∀ i, 20 ≤ i → i < 40 →
          placeholder? ((textOf (library name :: rest)).drop i) = none := by
        intro i hlow hhigh
        have hi := (placeholder?_isSome_iff (fun hm => hline (List.mem_of_mem_drop hm))).not.mpr
          (by simpa only [List.drop_drop] using hfirst i hlow hhigh)
        simpa using hi
      rw [scan_library_append offset hw hquiet, ih hrest hmore, placesFrom]

theorem offset_le_of_mem_placesFrom {offset : Nat} {pieces : List Piece}
    {place : String × LinkReference} (h : place ∈ placesFrom offset pieces) :
    offset / 2 ≤ place.2.start := by
  induction pieces generalizing offset with
  | nil => simp [placesFrom] at h
  | cons piece rest ih =>
    cases piece with
    | digits run => exact Nat.le_trans (by omega) (ih h)
    | library name =>
      rcases List.mem_cons.mp h with rfl | h
      · exact Nat.le_refl _
      · exact Nat.le_trans (by omega) (ih h)

/-- A placeholder that seems to begin in the second half of another is reported there. -/
theorem exists_place_in_second_half {name : List Char} {rest : List Piece} {offset : Nat}
    (hw : (library name).WellFormed) (heven : offset % 2 = 0)
    (hmis : ∃ k, k < 20 ∧
      placeholder? ((textOf (library name :: rest)).drop (20 + k)) ≠ none) :
    ∃ found ∈ scan 0 offset (textOf (library name :: rest)),
      offset / 2 < found.2.start ∧ found.2.start < (offset + 40) / 2 := by
  obtain ⟨hk, hat⟩ := Nat.find_spec hmis
  obtain ⟨other, hother⟩ := Option.ne_none_iff_exists'.mp hat
  let code := textOf (library name :: rest)
  let k := Nat.find hmis
  have hbefore : ∀ i < k, placeholder? ((code.drop 20).drop i) = none := by
    intro i hi
    by_contra hne
    exact Nat.find_min hmis hi ⟨by omega, by rwa [← List.drop_drop]⟩
  have hfirst : placeholder? code = some name := by
    simpa only [code, textOf_cons] using placeholder?_library (textOf rest) hw
  have hscan : scan 0 offset code = (String.ofList name, ⟨offset / 2, placeholderBytes⟩) ::
      (String.ofList other, ⟨(offset + 20 + k) / 2, placeholderBytes⟩) ::
        scan 0 (offset + 20 + k + 20) ((code.drop 20).drop (k + 20)) := by
    rw [scan_of_some offset hfirst]
    exact congrArg _ (scan_first (offset + 20) hbefore (by rwa [List.drop_drop]))
  refine ⟨(String.ofList other, ⟨(offset + 20 + k) / 2, placeholderBytes⟩), ?_, ?_, ?_⟩
  · rw [hscan]
    simp
  · dsimp only
    omega
  · dsimp only
    omega

/-- A layout that is not unambiguous makes the scan report a place where no library is. -/
theorem exists_false_place {offset : Nat} {pieces : List Piece}
    (hw : ∀ p ∈ pieces, p.WellFormed) (heven : offset % 2 = 0) (hu : ¬ Unambiguous pieces) :
    ∃ found ∈ scan 0 offset (textOf pieces),
      ∀ place ∈ placesFrom offset pieces, place.2.start ≠ found.2.start := by
  induction pieces generalizing offset with
  | nil => exact absurd unambiguous_nil hu
  | cons piece rest ih =>
    have hrest : ∀ p ∈ rest, p.WellFormed := fun p hp => hw p (List.mem_cons_of_mem _ hp)
    cases piece with
    | digits run =>
      have hrun : (digits run).WellFormed := hw _ List.mem_cons_self
      rw [textOf_cons, text, scan_digits_append offset (textOf rest) hrun.2, placesFrom]
      exact ih hrest (by have := hrun.1; omega) (fun h => hu (unambiguous_digits_cons.mpr h))
    | library name =>
      by_cases hmis : ∃ k, k < 20 ∧
          placeholder? ((textOf (library name :: rest)).drop (20 + k)) ≠ none
      · obtain ⟨found, hfound, hlow, hhigh⟩ :=
          exists_place_in_second_half (hw _ List.mem_cons_self) heven hmis
        refine ⟨found, hfound, fun place hp => ?_⟩
        rcases List.mem_cons.mp hp with rfl | hp
        · exact Nat.ne_of_lt hlow
        · have := offset_le_of_mem_placesFrom hp
          omega
      · have hquiet : ∀ i, 20 ≤ i → i < 40 →
            placeholder? ((textOf (library name :: rest)).drop i) = none := by
          intro i hlow hhigh
          by_contra hne
          exact hmis ⟨i - 20, by omega, by rwa [show 20 + (i - 20) = i by omega]⟩
        have hmore : ¬ Unambiguous rest := by
          intro hr
          refine hu (unambiguous_library_cons.mpr ⟨fun i hlow hhigh hm => ?_, hr⟩)
          have hline := fun h => newline_notMem_textOf hw (List.mem_of_mem_drop (i := i) h)
          have hsome := (placeholder?_isSome_iff hline).mpr
            (by simpa only [List.drop_drop] using hm)
          rw [hquiet i hlow hhigh] at hsome
          cases hsome
        have heven' : (offset + 40) % 2 = 0 := by omega
        obtain ⟨found, hfound, hnone⟩ := ih hrest heven' hmore
        have hlow := offset_le_of_mem_scan hfound
        rw [scan_library_append offset hw hquiet, placesFrom]
        refine ⟨found, List.mem_cons_of_mem _ hfound, fun place hp => ?_⟩
        rcases List.mem_cons.mp hp with rfl | hp
        · dsimp only
          omega
        · exact hnone place hp

end Piece

open Piece

/-- Every placeholder of a layout is found under its name, at its place and in its order,
and nothing else is found, exactly if the layout is unambiguous. -/
theorem find_textOf_eq_iff_unambiguous {pieces : List Piece} (hw : ∀ p ∈ pieces, p.WellFormed) :
    find (String.ofList (textOf pieces)) = byLibrary (placesFrom 0 pieces) ↔
      Unambiguous pieces := by
  rw [find_eq_byLibrary, String.toList_ofList]
  constructor
  · intro he
    by_contra hu
    obtain ⟨found, hfound, hnone⟩ := exists_false_place hw (Nat.zero_mod 2) hu
    have hm := mem_byLibrary.mp hfound
    rw [he] at hm
    exact hnone found (mem_byLibrary.mpr hm) rfl
  · intro hu
    rw [scan_textOf hw hu]

theorem find_repeated_library :
    (∀ p ∈ [Piece.library ['L', 'i', 'b'], .digits (List.replicate 60 '0'), .library ['L', 'i', 'b']],
      p.WellFormed) ∧
    Unambiguous [.library ['L', 'i', 'b'], .digits (List.replicate 60 '0'), .library ['L', 'i', 'b']] ∧
    find (String.ofList (textOf
      [.library ['L', 'i', 'b'], .digits (List.replicate 60 '0'), .library ['L', 'i', 'b']])) =
        [("Lib", [⟨0, 20⟩, ⟨50, 20⟩])] := by
  have hw : ∀ p ∈ [Piece.library ['L', 'i', 'b'], .digits (List.replicate 60 '0'),
      .library ['L', 'i', 'b']], p.WellFormed := by
    have hlib : (Piece.library ['L', 'i', 'b']).WellFormed := by
      rw [Piece.WellFormed]
      decide
    have hzeros : (Piece.digits (List.replicate 60 '0')).WellFormed :=
      ⟨by decide, List.all_eq_true.mp (by decide)⟩
    simp only [List.forall_mem_cons]
    exact ⟨hlib, hzeros, hlib, by simp⟩
  have hu : Unambiguous [.library ['L', 'i', 'b'], .digits (List.replicate 60 '0'),
      .library ['L', 'i', 'b']] := by
    rw [unambiguous_library_cons, unambiguous_digits_cons, unambiguous_library_cons]
    exact ⟨by decide, by decide, unambiguous_nil⟩
  exact ⟨hw, hu, ((find_textOf_eq_iff_unambiguous hw).mpr hu).trans (by decide)⟩

theorem find_adjacent_libraries_ne :
    (∀ p ∈ [Piece.library ['A'], .library ['B']], p.WellFormed) ∧
    find (String.ofList (textOf [.library ['A'], .library ['B']])) ≠
      byLibrary (placesFrom 0 [.library ['A'], .library ['B']]) := by
  refine ⟨?_, ?_⟩
  · simp only [List.forall_mem_cons, Piece.WellFormed]
    exact ⟨by decide, by decide, by simp⟩
  rw [find_eq_byLibrary, String.toList_ofList]
  decide

end SolcDispatch.LinkReference
