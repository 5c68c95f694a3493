import SolcDispatch.Legacy.Output
import SolcDispatch.Proofs.Legacy.Locations

/-! Keys of contracts. A file and a name are told apart by the last colon, and one contract of
the empty file has two keys, with a colon and without. -/

namespace SolcDispatch.Legacy

variable {cs before after : List Char} {key other file name : String}

/-- A key of the contract with a name in a file. After the empty file the colon may be left out. -/
structure IsKey (file name key : String) : Prop where
  ne_empty : name ≠ ""
  colon_notMem : ':' ∉ name.toList
  eq_or : key = file ++ ":" ++ name ∨ file = "" ∧ key = name

/-- A text that is no key: it is empty, or its last colon stands at its end or after a line feed. -/
def Unreadable (key : String) : Prop :=
  key = "" ∨ (∃ file, key = file ++ ":") ∨
    ∃ file name, key = file ++ ":" ++ name ∧ ':' ∉ name.toList ∧ '\n' ∈ file.toList

theorem toList_key (file name : String) :
    (file ++ ":" ++ name).toList = file.toList ++ ':' :: name.toList := by
  simp [String.toList_append]

theorem eq_key_of_toList (h : key.toList = before ++ ':' :: after) :
    key = String.ofList before ++ ":" ++ String.ofList after := by
  rw [← String.toList_inj, toList_key, h, String.toList_ofList, String.toList_ofList]

theorem ne_empty_of_colon_mem (h : ':' ∈ key.toList) : key ≠ "" := by
  rintro rfl
  simp at h

theorem splitLastColon?_of_notMem (h : ':' ∉ cs) : splitLastColon? cs = none := by
  rw [splitLastColon?, beforeLastColon?_of_notMem h, Option.map_none]

theorem splitLastColon?_append (h : ':' ∉ after) :
    splitLastColon? (before ++ ':' :: after) = some (before, after) := by
  rw [splitLastColon?, beforeLastColon?_append h, Option.map_some]
  simp

theorem splitKey?_of_notMem (h : ':' ∉ key.toList) :
    splitKey? key = if key = "" then none else some ("", key) := by
  unfold splitKey?
  rw [splitLastColon?_of_notMem h]

theorem splitKey?_key (h : ':' ∉ name.toList) :
    splitKey? (file ++ ":" ++ name) =
      if name = "" ∨ '\n' ∈ file.toList then none else some (file, name) := by
  unfold splitKey?
  rw [toList_key, splitLastColon?_append h]
  simp

theorem exists_key_of_colon_mem (h : ':' ∈ key.toList) :
    ∃ file name, ':' ∉ name.toList ∧ key = file ++ ":" ++ name := by
  obtain ⟨before, after, hafter, heq⟩ := exists_lastColon h
  exact ⟨.ofList before, .ofList after, by rwa [String.toList_ofList], eq_key_of_toList heq⟩

theorem key_inj {file' name' : String} (h : ':' ∉ name.toList) (h' : ':' ∉ name'.toList)
    (heq : file ++ ":" ++ name = file' ++ ":" ++ name') : file = file' ∧ name = name' := by
  have hsplit : some (file.toList, name.toList) = some (file'.toList, name'.toList) := by
    rw [← splitLastColon?_append h, ← splitLastColon?_append h', ← toList_key, ← toList_key, heq]
  obtain ⟨hfile, hname⟩ := Prod.mk.inj (Option.some.inj hsplit)
  exact ⟨String.toList_inj.mp hfile, String.toList_inj.mp hname⟩

theorem IsKey.splitKey?_eq (h : IsKey file name key) (hfile : '\n' ∉ file.toList) :
    splitKey? key = some (file, name) := by
  rcases h.eq_or with rfl | ⟨rfl, rfl⟩
  · rw [splitKey?_key h.colon_notMem, if_neg (not_or.mpr ⟨h.ne_empty, hfile⟩)]
  · rw [splitKey?_of_notMem h.colon_notMem, if_neg h.ne_empty]

theorem splitKey?_eq_some_iff :
    splitKey? key = some (file, name) ↔ IsKey file name key ∧ '\n' ∉ file.toList := by
  refine ⟨fun h => ?_, fun h => h.1.splitKey?_eq h.2⟩
  by_cases hcolon : ':' ∈ key.toList
  · obtain ⟨first, last, hlast, rfl⟩ := exists_key_of_colon_mem hcolon
    rw [splitKey?_key hlast] at h
    split at h
    · cases h
    · rename_i hreadable
      cases h
      exact ⟨⟨fun heq => hreadable (.inl heq), hlast, .inl rfl⟩,
        fun hfeed => hreadable (.inr hfeed)⟩
  · rw [splitKey?_of_notMem hcolon] at h
    split at h
    · cases h
    · rename_i hne
      cases h
      exact ⟨⟨hne, hcolon, .inr ⟨rfl, rfl⟩⟩, by simp⟩

theorem splitKey?_eq_none_iff : splitKey? key = none ↔ Unreadable key := by
  by_cases hcolon : ':' ∈ key.toList
  · obtain ⟨file, name, hname, rfl⟩ := exists_key_of_colon_mem hcolon
    rw [splitKey?_key hname, ite_eq_left_iff]
    constructor
    · intro h
      by_cases hbad : name = "" ∨ '\n' ∈ file.toList
      · rcases hbad with rfl | hfeed
        · exact .inr (.inl ⟨file, by rw [String.append_empty]⟩)
        · exact .inr (.inr ⟨file, name, rfl, hname, hfeed⟩)
      · cases h hbad
    · rintro (hempty | ⟨front, heq⟩ | ⟨front, last, heq, hlast, hfeed⟩) hgood
      · exact absurd hempty (ne_empty_of_colon_mem hcolon)
      · rw [← String.append_empty (s := front ++ ":")] at heq
        obtain ⟨-, rfl⟩ := key_inj hname (by simp) heq
        exact absurd (.inl rfl) hgood
      · obtain ⟨rfl, -⟩ := key_inj hname hlast heq
        exact absurd (.inr hfeed) hgood
  · rw [splitKey?_of_notMem hcolon, ite_eq_left_iff]
    constructor
    · intro h
      by_cases hempty : key = ""
      · exact .inl hempty
      · cases h hempty
    · rintro (hempty | ⟨front, rfl⟩ | ⟨front, last, rfl, -, -⟩) hne
      · exact absurd hempty hne
      · exact absurd (by simp) hcolon
      · exact absurd (by simp) hcolon

/-- Of a text that can be split, the keys are those that split so. -/
theorem isKey_iff (h : (splitKey? key).isSome) :
    IsKey file name key ↔ splitKey? key = some (file, name) := by
  refine ⟨fun hkey => ?_, fun hsplit => (splitKey?_eq_some_iff.mp hsplit).1⟩
  by_cases hfeed : '\n' ∈ file.toList
  · have hnone : splitKey? key = none := by
      rw [splitKey?_eq_none_iff]
      rcases hkey.eq_or with rfl | ⟨rfl, -⟩
      · exact .inr (.inr ⟨file, name, rfl, hkey.colon_notMem, hfeed⟩)
      · simp at hfeed
    rw [hnone] at h
    cases h
  · exact hkey.splitKey?_eq hfeed

/-- Two keys of one contract are its name with a colon before it and without. -/
theorem IsKey.eq_or_doubled (h : IsKey file name key) (h' : IsKey file name other) :
    key = other ∨
      file = "" ∧ (key = name ∧ other = ":" ++ name ∨ key = ":" ++ name ∧ other = name) := by
  rcases h.eq_or with rfl | ⟨rfl, rfl⟩ <;> rcases h'.eq_or with rfl | ⟨hfile, rfl⟩
  · exact .inl rfl
  · subst hfile
    exact .inr ⟨rfl, .inr ⟨by rw [String.empty_append], rfl⟩⟩
  · exact .inr ⟨rfl, .inl ⟨rfl, by rw [String.empty_append]⟩⟩
  · exact .inl rfl

end SolcDispatch.Legacy
