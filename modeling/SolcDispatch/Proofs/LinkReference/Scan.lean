import Mathlib.Data.List.Induction
import SolcDispatch.LinkReference.Placeholder

/-! What the scan for placeholders finds in a text, and the libraries that its finds
are gathered into. -/

namespace SolcDispatch.LinkReference

def mark : List Char := ['_', '_']

/-- What stands between the marks of a placeholder at the front of a text. -/
def body (cs : List Char) : List Char := (cs.drop 2).take nameWidth

theorem mark_prefix_iff {cs : List Char} : mark <+: cs ↔ ∃ rest, cs = '_' :: '_' :: rest := by
  constructor
  · rintro ⟨rest, rfl⟩
    exact ⟨rest, rfl⟩
  · rintro ⟨rest, rfl⟩
    exact ⟨rest, rfl⟩

theorem placeholder?_eq_some_iff {cs name : List Char} :
    placeholder? cs = some name ↔ mark <+: cs ∧ mark <+: cs.drop 38 ∧ '\n' ∉ body cs ∧
      Text.dropLastWhile (· == '_') (body cs) = name := by
  constructor
  · intro h
    unfold placeholder? at h
    split at h
    · rename_i rest
      dsimp only at h
      split at h
      · rename_i more hmore
        have hdrop : ('_' :: '_' :: rest).drop 38 = '_' :: '_' :: more := hmore
        split at h
        · cases h
        · rename_i hline
          simp only [List.contains_eq_mem, decide_eq_true_eq] at hline
          exact ⟨⟨rest, rfl⟩, mark_prefix_iff.mpr ⟨more, hdrop⟩, hline, Option.some.inj h⟩
      · cases h
    · cases h
  · rintro ⟨hfront, hback, hline, rfl⟩
    obtain ⟨rest, rfl⟩ := mark_prefix_iff.mp hfront
    obtain ⟨more, hmore⟩ := mark_prefix_iff.mp hback
    have hdrop : rest.drop nameWidth = '_' :: '_' :: more := hmore
    have hbody : '\n' ∉ rest.take nameWidth := hline
    have hline' : ¬ (rest.take nameWidth).contains '\n' = true := by
      simpa only [List.contains_eq_mem, decide_eq_true_eq] using hbody
    simp only [placeholder?, hdrop, if_neg hline']
    rfl

theorem scan_skip (skip offset : Nat) (cs : List Char) :
    scan skip offset cs = scan 0 (offset + skip) (cs.drop skip) := by
  induction cs generalizing skip offset with
  | nil => simp [scan]
  | cons c rest ih =>
    cases skip with
    | zero => simp
    | succ skip =>
      rw [scan, ih, List.drop_succ_cons]
      congr 1
      omega

theorem scan_of_some {cs name : List Char} (offset : Nat) (h : placeholder? cs = some name) :
    scan 0 offset cs = (String.ofList name, ⟨offset / 2, placeholderBytes⟩) ::
      scan 0 (offset + placeholderBytes) (cs.drop placeholderBytes) := by
  cases cs with
  | nil => cases h
  | cons c rest =>
    have hskip := scan_skip (placeholderBytes - 1) (offset + 1) rest
    simp only [scan, h, hskip]
    rfl

theorem scan_of_none {k : Nat} {cs : List Char} (offset : Nat)
    (h : ∀ i < k, placeholder? (cs.drop i) = none) :
    scan 0 offset cs = scan 0 (offset + k) (cs.drop k) := by
  induction k generalizing cs offset with
  | zero => simp
  | succ k ih =>
    cases cs with
    | nil => simp [scan]
    | cons c rest =>
      have hfirst : placeholder? (c :: rest) = none := h 0 (by omega)
      have hrest := ih (offset + 1) (fun i hi => h (i + 1) (by omega))
      simp only [scan, hfirst, hrest, List.drop_succ_cons]
      congr 1
      omega

theorem scan_first {k : Nat} {cs name : List Char} (offset : Nat)
    (hbefore : ∀ i < k, placeholder? (cs.drop i) = none)
    (hat : placeholder? (cs.drop k) = some name) :
    scan 0 offset cs = (String.ofList name, ⟨(offset + k) / 2, placeholderBytes⟩) ::
      scan 0 (offset + k + placeholderBytes) (cs.drop (k + placeholderBytes)) := by
  rw [scan_of_none offset hbefore, scan_of_some (offset + k) hat, List.drop_drop]

theorem offset_le_of_mem_scan {skip offset : Nat} {cs : List Char} {found : String × LinkReference}
    (h : found ∈ scan skip offset cs) : offset / 2 ≤ found.2.start := by
  induction cs generalizing skip offset with
  | nil => simp [scan] at h
  | cons c rest ih =>
    cases skip with
    | succ skip => exact Nat.le_trans (by omega) (ih h)
    | zero =>
      simp only [scan] at h
      split at h
      · rcases List.mem_cons.mp h with rfl | h
        · exact Nat.le_refl _
        · exact Nat.le_trans (by omega) (ih h)
      · exact Nat.le_trans (by omega) (ih h)

def byLibrary (found : List (String × LinkReference)) : ByLibrary :=
  (found.map Prod.fst).eraseDups.map fun name =>
    (name, (found.filter fun f => f.1 == name).map Prod.snd)

theorem mem_byLibrary {found : List (String × LinkReference)} {name : String} {r : LinkReference} :
    (name, r) ∈ found ↔ ∃ places, (name, places) ∈ byLibrary found ∧ r ∈ places := by
  simp only [byLibrary, List.mem_map, List.mem_eraseDups, Prod.mk.injEq]
  constructor
  · intro h
    refine ⟨_, ⟨name, ⟨(name, r), h, rfl⟩, rfl, rfl⟩, List.mem_map.mpr ⟨(name, r), ?_, rfl⟩⟩
    exact List.mem_filter.mpr ⟨h, by simp⟩
  · rintro ⟨places, ⟨_, _, rfl, rfl⟩, hr⟩
    obtain ⟨f, hf, rfl⟩ := List.mem_map.mp hr
    obtain ⟨hf, hname⟩ := List.mem_filter.mp hf
    rwa [← beq_iff_eq.mp hname]

theorem nodup_eraseDups (names : List String) : names.eraseDups.Nodup := by
  match names with
  | [] => simp
  | name :: rest =>
    have hlen : (rest.filter fun n => !n == name).length < rest.length + 1 :=
      Nat.lt_succ_of_le (List.length_filter_le _ rest)
    rw [List.eraseDups_cons, List.nodup_cons]
    exact ⟨by simp [List.mem_eraseDups], nodup_eraseDups _⟩
termination_by names.length

theorem insert_of_notMem {refs : ByLibrary} {name : String} (r : LinkReference)
    (h : name ∉ refs.map Prod.fst) : refs.insert name r = refs ++ [(name, [r])] := by
  induction refs with
  | nil => rfl
  | cons entry rest ih =>
    simp only [List.map_cons, List.mem_cons, not_or] at h
    rw [ByLibrary.insert, if_neg (fun he => h.1 he.symm), ih h.2, List.cons_append]

theorem insert_of_mem {refs : ByLibrary} {name : String} (r : LinkReference)
    (hnd : (refs.map Prod.fst).Nodup) (h : name ∈ refs.map Prod.fst) :
    refs.insert name r = refs.map fun e => (e.1, if e.1 = name then e.2 ++ [r] else e.2) := by
  induction refs with
  | nil => simp at h
  | cons entry rest ih =>
    obtain ⟨key, places⟩ := entry
    simp only [List.map_cons, List.nodup_cons] at hnd
    by_cases he : key = name
    · subst he
      have hrest : rest.map (fun e => (e.1, if e.1 = key then e.2 ++ [r] else e.2)) = rest := by
        conv_rhs => rw [← List.map_id rest]
        apply List.map_congr_left
        intro e hm
        have hne : e.1 ≠ key := fun h => hnd.1 (h ▸ List.mem_map_of_mem hm)
        simp [hne]
      simp only [ByLibrary.insert, if_true, List.map_cons, hrest]
    · have hm : name ∈ rest.map Prod.fst := by
        rcases List.mem_cons.mp h with rfl | hm
        · exact absurd rfl he
        · exact hm
      simp only [ByLibrary.insert, he, if_false, List.map_cons, ih hnd.2 hm]

theorem byLibrary_keys (found : List (String × LinkReference)) :
    (byLibrary found).map Prod.fst = (found.map Prod.fst).eraseDups := by
  simp [byLibrary, Function.comp_def]

theorem byLibrary_append_singleton (found : List (String × LinkReference)) (name : String)
    (r : LinkReference) : byLibrary (found ++ [(name, r)]) = (byLibrary found).insert name r := by
  by_cases hm : name ∈ found.map Prod.fst
  · have hkeys : ((found ++ [(name, r)]).map Prod.fst).eraseDups =
        (found.map Prod.fst).eraseDups := by
      simp [List.eraseDups_append, List.removeAll, hm]
    rw [insert_of_mem r (by rw [byLibrary_keys]; exact nodup_eraseDups _)
      (by rwa [byLibrary_keys, List.mem_eraseDups]), byLibrary, hkeys, byLibrary, List.map_map]
    apply List.map_congr_left
    intro key _
    by_cases he : name = key
    · simp [he]
    · simp [he, Ne.symm he]
  · have hkeys : ((found ++ [(name, r)]).map Prod.fst).eraseDups =
        (found.map Prod.fst).eraseDups ++ [name] := by
      simp [List.eraseDups_append, List.removeAll, hm, List.eraseDups_cons]
    have hnone : found.filter (fun f => f.1 == name) = [] := by
      rw [List.filter_eq_nil_iff]
      intro f hf he
      exact hm (beq_iff_eq.mp he ▸ List.mem_map_of_mem hf)
    rw [insert_of_notMem r (by rwa [byLibrary_keys, List.mem_eraseDups]), byLibrary, hkeys,
      byLibrary, List.map_append]
    congr 1
    · apply List.map_congr_left
      intro key hk
      have he : name ≠ key := by
        rintro rfl
        exact hm (List.mem_eraseDups.mp hk)
      simp [he]
    · simp [hnone]

theorem foldl_insert_eq_byLibrary (found : List (String × LinkReference)) :
    found.foldl (fun refs f => ByLibrary.insert refs f.1 f.2) [] = byLibrary found := by
  induction found using List.reverseRecOn with
  | nil => rfl
  | append_singleton found f ih =>
    rw [List.foldl_append, ih, List.foldl_cons, List.foldl_nil, ← byLibrary_append_singleton]

theorem find_eq_byLibrary (code : String) : find code = byLibrary (scan 0 0 code.toList) :=
  foldl_insert_eq_byLibrary _

end SolcDispatch.LinkReference
