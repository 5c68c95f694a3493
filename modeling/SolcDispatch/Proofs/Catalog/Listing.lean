import Mathlib.Data.List.Induction
import SolcDispatch.Catalog
import SolcDispatch.Proofs.Version.Canonical

/-! What a list of builds says: which versions its lines name, and which spellings are
kept of it. -/

namespace SolcDispatch.Index

def Names (start finish line : String) (v : CompilerVersion) : Prop :=
  ∃ version : String, CompilerVersion.parse? version = some v ∧
    Text.trim line.toList = start.toList ++ (version.toList ++ finish.toList)

theorem parse?_empty : CompilerVersion.parse? "" = none := by decide

theorem between?_append (start finish : String) (version : List Char) :
    between? start finish (start.toList ++ (version ++ finish.toList)) = some version := by
  have hfront : start.toList.isPrefixOf (start.toList ++ (version ++ finish.toList)) := by simp
  have hback : finish.toList.isSuffixOf (start.toList ++ (version ++ finish.toList)) := by
    rw [List.isSuffixOf_iff_suffix, ← List.append_assoc]
    exact List.suffix_append _ _
  have hlen : (start.toList ++ (version ++ finish.toList)).length - start.length - finish.length =
      version.length := by
    simp only [List.length_append, String.length_toList]
    omega
  have hdrop : (start.toList ++ (version ++ finish.toList)).drop start.length =
      version ++ finish.toList := List.drop_left' String.length_toList
  rw [between?, hfront, hback, hlen, hdrop]
  simp

theorem eq_append_of_between? {start finish : String} {name version : List Char}
    (h : between? start finish name = some version) (hne : version ≠ []) :
    name = start.toList ++ (version ++ finish.toList) := by
  unfold between? at h
  split at h
  · rename_i hends
    obtain ⟨hfront, hback⟩ := (Bool.and_eq_true _ _).mp hends
    obtain ⟨rest, rfl⟩ := List.isPrefixOf_iff_prefix.mp hfront
    have hdrop : (start.toList ++ rest).drop start.length = rest :=
      List.drop_left' String.length_toList
    have hlen : (start.toList ++ rest).length - start.length - finish.length =
        rest.length - finish.length := by
      simp only [List.length_append, String.length_toList]
      omega
    rw [hdrop, hlen, Option.some.injEq] at h
    have hfit : finish.length < rest.length := by
      by_contra hlt
      rw [show rest.length - finish.length = 0 by omega, List.take_zero] at h
      exact hne h.symm
    have hsuffix : finish.toList <:+ rest := by
      refine List.suffix_of_suffix_length_le (List.isSuffixOf_iff_suffix.mp hback)
        (List.suffix_append _ _) ?_
      rw [String.length_toList]
      exact Nat.le_of_lt hfit
    obtain ⟨middle, rfl⟩ := hsuffix
    have htake : (middle ++ finish.toList).length - finish.length = middle.length := by
      simp only [List.length_append, String.length_toList]
      omega
    rw [htake, List.take_left] at h
    rw [h]
  · cases h

theorem bind_between?_eq_some_iff {start finish line : String} {v : CompilerVersion} :
    (between? start finish (Text.trim line.toList)).bind
      (fun version => CompilerVersion.parse? (String.ofList version)) = some v ↔
      Names start finish line v := by
  constructor
  · intro h
    obtain ⟨version, hb, hp⟩ := Option.bind_eq_some_iff.mp h
    have hne : version ≠ [] := by
      rintro rfl
      rw [String.ofList_nil, parse?_empty] at hp
      cases hp
    refine ⟨String.ofList version, hp, ?_⟩
    rw [String.toList_ofList]
    exact eq_append_of_between? hb hne
  · rintro ⟨version, hp, hname⟩
    rw [hname, between?_append, Option.bind_some, String.ofList_toList, hp]

theorem mem_insert {versions : Versions} {canonical other : String} :
    other ∈ insert versions canonical ↔ other ∈ versions ∨ other = canonical := by
  unfold insert
  split
  · rename_i hm
    have hm := List.contains_iff_mem.mp hm
    exact ⟨.inl, fun h => h.elim id fun he => he ▸ hm⟩
  · simp

theorem mem_collect {versions : List CompilerVersion} {canonical : String} :
    canonical ∈ collect versions ↔ ∃ v ∈ versions, v.canonical = canonical := by
  induction versions using List.reverseRecOn with
  | nil => simp [collect]
  | append_singleton versions v ih =>
    rw [collect, List.foldl_append, List.foldl_cons, List.foldl_nil, mem_insert]
    change canonical ∈ collect versions ∨ _ ↔ _
    rw [ih]
    constructor
    · rintro (⟨w, hw, he⟩ | rfl)
      · exact ⟨w, List.mem_append_left _ hw, he⟩
      · exact ⟨v, by simp, rfl⟩
    · rintro ⟨w, hw, rfl⟩
      rcases List.mem_append.mp hw with hw | hw
      · exact .inl ⟨w, hw, rfl⟩
      · exact .inr (by rw [List.mem_singleton.mp hw])

theorem mem_scripted_iff {lines : List String} {canonical : String} :
    canonical ∈ scripted lines ↔ ∃ line ∈ lines, ∃ v,
      Names Artifact.scriptedStart Artifact.scriptedEnd line v ∧ v.canonical = canonical := by
  simp only [scripted, mem_collect, List.mem_filterMap]
  constructor
  · rintro ⟨v, ⟨line, hl, hv⟩, he⟩
    exact ⟨line, hl, v, bind_between?_eq_some_iff.mp hv, he⟩
  · rintro ⟨line, hl, v, hv, he⟩
    exact ⟨v, ⟨line, hl, bind_between?_eq_some_iff.mpr hv⟩, he⟩

theorem mem_native_iff {platform : String} {floor : CompilerVersion} {lines : List String}
    {canonical : String} :
    canonical ∈ native platform floor lines ↔ ∃ line ∈ lines, ∃ v,
      Names (Artifact.nativeStart platform) "" line v ∧ v.isBefore floor = false ∧
        v.canonical = canonical := by
  simp only [native, mem_collect, List.mem_filter, List.mem_filterMap, Bool.not_eq_true']
  constructor
  · rintro ⟨v, ⟨⟨line, hl, hv⟩, hf⟩, he⟩
    exact ⟨line, hl, v, bind_between?_eq_some_iff.mp hv, hf, he⟩
  · rintro ⟨line, hl, v, hv, hf, he⟩
    exact ⟨v, ⟨⟨line, hl, bind_between?_eq_some_iff.mpr hv⟩, hf⟩, he⟩

theorem Names.wellFormed {start finish line : String} {v : CompilerVersion}
    (h : Names start finish line v) : v.WellFormed := by
  obtain ⟨_, hp, _⟩ := h
  exact CompilerVersion.wellFormed_of_parse? hp

end SolcDispatch.Index
