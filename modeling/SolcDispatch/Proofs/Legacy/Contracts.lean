import Mathlib.Data.List.Nodup
import SolcDispatch.Proofs.Assoc
import SolcDispatch.Proofs.Legacy.ContractKeys
import SolcDispatch.Proofs.Legacy.Faults
import SolcDispatch.Proofs.Results

/-! The contracts of a legacy output, by file and name: none is lost but one whose name is listed
with a colon before it and without. -/

namespace SolcDispatch.Legacy

/-- Contracts by their names, for each file. -/
abbrev Files := List (String × List (String × Contract))

variable {files result : Files} {file name other key : String} {contract : Contract}
  {entry first : String × Json} {entries rest : Json.Members}

def contractAt (files : Files) (file name : String) : Option Contract :=
  (Assoc.get? files file).bind fun contracts => Assoc.get? contracts name

theorem contractAt_putContract_self (files : Files) (file name : String) (contract : Contract) :
    contractAt (putContract files file name contract) file name = some contract := by
  rw [contractAt, putContract, Assoc.get?_put_self, Option.bind_some, Assoc.get?_put_self]

theorem contractAt_putContract_ne {file' name' : String} (contract : Contract)
    (hne : ¬ (file' = file ∧ name' = name)) :
    contractAt (putContract files file name contract) file' name' =
      contractAt files file' name' := by
  by_cases hfile : file' = file
  · subst hfile
    have hname : name' ≠ name := fun heq => hne ⟨rfl, heq⟩
    rw [contractAt, putContract, Assoc.get?_put_self, Option.bind_some, Assoc.get?_put_ne hname,
      contractAt]
    cases Assoc.get? files file' with
    | none => rfl
    | some contracts => rfl
  · rw [contractAt, putContract, Assoc.get?_put_ne hfile, contractAt]

theorem contractsFrom_cons_eq_ok (h : contractsFrom files (first :: rest) = .ok result) :
    ∃ file name contract, splitKey? first.1 = some (file, name) ∧
      Contract.ofJson first.2 = .ok contract ∧
      contractsFrom (putContract files file name contract) rest = .ok result := by
  obtain ⟨key, value⟩ := first
  rw [contractsFrom] at h
  split at h
  · cases h
  · rename_i file name hsplit
    obtain ⟨contract, hcontract, hrest⟩ := Results.bind_eq_ok h
    exact ⟨file, name, contract, hsplit, hcontract, hrest⟩

/-- An entry that has a readable key and is read into a contract. -/
def Translates (entry : String × Json) : Prop :=
  (splitKey? entry.1).isSome ∧ ∃ contract, Contract.ofJson entry.2 = .ok contract

theorem translates_of_contractsFrom (h : contractsFrom files entries = .ok result) :
    ∀ entry ∈ entries, Translates entry := by
  induction entries generalizing files with
  | nil => simp
  | cons first rest ih =>
    obtain ⟨file, name, contract, hsplit, hcontract, hrest⟩ := contractsFrom_cons_eq_ok h
    refine List.forall_mem_cons.mpr ⟨⟨?_, contract, hcontract⟩, ih hrest⟩
    rw [hsplit, Option.isSome_some]

/-- The last entry of the contract with a name in a file. -/
def LastAt (file name : String) (entries : Json.Members) (entry : String × Json) : Prop :=
  ∃ before after, entries = before ++ entry :: after ∧ IsKey file name entry.1 ∧
    ∀ later ∈ after, ¬ IsKey file name later.1

theorem not_lastAt_nil : ¬ LastAt file name [] entry := by
  rintro ⟨before, after, h, -⟩
  simp at h

theorem lastAt_cons_iff : LastAt file name (first :: rest) entry ↔ LastAt file name rest entry ∨
    (entry = first ∧ IsKey file name first.1 ∧ ∀ later ∈ rest, ¬ IsKey file name later.1) := by
  constructor
  · rintro ⟨before, after, hsplit, hkey, hafter⟩
    cases before with
    | nil =>
      obtain ⟨rfl, rfl⟩ := List.cons.inj hsplit
      exact .inr ⟨rfl, hkey, hafter⟩
    | cons _ before =>
      obtain ⟨rfl, hrest⟩ := List.cons.inj hsplit
      exact .inl ⟨before, after, hrest, hkey, hafter⟩
  · rintro (⟨before, after, rfl, hkey, hafter⟩ | ⟨rfl, hkey, hrest⟩)
    · exact ⟨first :: before, after, rfl, hkey, hafter⟩
    · exact ⟨[], rest, rfl, hkey, hrest⟩

theorem LastAt.mem (h : LastAt file name entries entry) : entry ∈ entries := by
  obtain ⟨before, after, rfl, -⟩ := h
  simp

theorem LastAt.isKey (h : LastAt file name entries entry) : IsKey file name entry.1 := by
  obtain ⟨before, after, -, hkey, -⟩ := h
  exact hkey

theorem exists_lastAt (h : ∃ entry ∈ entries, IsKey file name entry.1) :
    ∃ last, LastAt file name entries last := by
  induction entries with
  | nil => simp at h
  | cons first rest ih =>
    by_cases hrest : ∃ later ∈ rest, IsKey file name later.1
    · obtain ⟨last, hlast⟩ := ih hrest
      exact ⟨last, lastAt_cons_iff.mpr (.inl hlast)⟩
    · obtain ⟨entry, hentry, hkey⟩ := h
      have hnone : ∀ later ∈ rest, ¬ IsKey file name later.1 :=
        fun later hlater hlaterKey => hrest ⟨later, hlater, hlaterKey⟩
      rcases List.mem_cons.mp hentry with rfl | hentry
      · exact ⟨entry, lastAt_cons_iff.mpr (.inr ⟨rfl, hkey, hnone⟩)⟩
      · exact absurd hkey (hnone entry hentry)

/-- What the last entry of a contract in a list is read into. -/
def LastRead (file name : String) (entries : Json.Members) (contract : Contract) : Prop :=
  ∃ entry, LastAt file name entries entry ∧ Contract.ofJson entry.2 = .ok contract

theorem lastRead_cons_iff {read : Contract} (h : Contract.ofJson first.2 = .ok read) :
    LastRead file name (first :: rest) contract ↔ LastRead file name rest contract ∨
      ((∀ later ∈ rest, ¬ IsKey file name later.1) ∧ IsKey file name first.1 ∧
        read = contract) := by
  simp only [LastRead, lastAt_cons_iff, or_and_right, exists_or]
  refine or_congr_right ⟨?_, ?_⟩
  · rintro ⟨_, ⟨rfl, hkey, hrest⟩, hcontract⟩
    exact ⟨hrest, hkey, Except.ok.inj (h.symm.trans hcontract)⟩
  · rintro ⟨hrest, hkey, rfl⟩
    exact ⟨first, ⟨rfl, hkey, hrest⟩, h⟩

theorem contractAt_contractsFrom (h : contractsFrom files entries = .ok result) :
    contractAt result file name = some contract ↔ LastRead file name entries contract ∨
      ((∀ entry ∈ entries, ¬ IsKey file name entry.1) ∧
        contractAt files file name = some contract) := by
  induction entries generalizing files with
  | nil =>
    cases h
    simp [LastRead, not_lastAt_nil]
  | cons first rest ih =>
    obtain ⟨file', name', read, hsplit, hread, hrest⟩ := contractsFrom_cons_eq_ok h
    have hkey : IsKey file name first.1 ↔ file = file' ∧ name = name' := by
      rw [isKey_iff (by rw [hsplit, Option.isSome_some]), hsplit, Option.some.injEq, Prod.mk.injEq,
        eq_comm (a := file'), eq_comm (a := name')]
    rw [ih hrest, lastRead_cons_iff hread, List.forall_mem_cons]
    by_cases hhere : file = file' ∧ name = name'
    · obtain ⟨rfl, rfl⟩ := hhere
      have hfirst : IsKey file name first.1 := hkey.mpr ⟨rfl, rfl⟩
      simp [hfirst, contractAt_putContract_self]
    · simp [hkey, hhere, contractAt_putContract_ne read hhere]

theorem contractAt_eq_some_iff (h : contractsFrom [] entries = .ok result) :
    contractAt result file name = some contract ↔ LastRead file name entries contract := by
  rw [contractAt_contractsFrom h]
  exact or_iff_left fun hnone => by cases hnone.2

theorem contractAt_isSome_iff (h : contractsFrom [] entries = .ok result) :
    (contractAt result file name).isSome ↔ ∃ entry ∈ entries, IsKey file name entry.1 := by
  rw [Option.isSome_iff_exists]
  simp only [contractAt_eq_some_iff h]
  constructor
  · rintro ⟨contract, entry, hlast, -⟩
    exact ⟨entry, hlast.mem, hlast.isKey⟩
  · intro hentry
    obtain ⟨last, hlast⟩ := exists_lastAt hentry
    obtain ⟨contract, hcontract⟩ := (translates_of_contractsFrom h last hlast.mem).2
    exact ⟨contract, last, hlast, hcontract⟩

/-- Each file once, and each name once in its file. -/
structure NamedOnce (files : Files) : Prop where
  fileNames : (files.map Prod.fst).Nodup
  names : ∀ file ∈ files, (file.2.map Prod.fst).Nodup

theorem namedOnce_nil : NamedOnce [] := ⟨by simp, by simp⟩

theorem NamedOnce.putContract (h : NamedOnce files) (file name : String) (contract : Contract) :
    NamedOnce (putContract files file name contract) where
  fileNames := Assoc.nodup_put h.fileNames
  names := by
    intro entry hentry
    rcases Assoc.mem_put hentry with rfl | hold
    · refine Assoc.nodup_put ?_
      cases hget : Assoc.get? files file with
      | none => exact List.nodup_nil
      | some contracts => exact h.names (file, contracts) (Assoc.mem_of_get? hget)
    · exact h.names entry hold

theorem NamedOnce.contractsFrom (hfiles : NamedOnce files)
    (h : contractsFrom files entries = .ok result) : NamedOnce result := by
  induction entries generalizing files with
  | nil =>
    cases h
    exact hfiles
  | cons first rest ih =>
    obtain ⟨file, name, contract, -, -, hrest⟩ := contractsFrom_cons_eq_ok h
    exact ih (hfiles.putContract file name contract) hrest

def contractNames (files : Files) : List (String × String) :=
  files.flatMap fun file => file.2.map fun c => (file.1, c.1)

theorem mem_contractNames (h : NamedOnce files) :
    (file, name) ∈ contractNames files ↔ (contractAt files file name).isSome := by
  simp only [contractNames, List.mem_flatMap, List.mem_map, Prod.mk.injEq]
  constructor
  · rintro ⟨⟨_, contracts⟩, hfile, ⟨_, contract⟩, hcontract, rfl, rfl⟩
    rw [contractAt, (Assoc.get?_eq_some_iff h.fileNames).mpr hfile, Option.bind_some,
      (Assoc.get?_eq_some_iff (h.names _ hfile)).mpr hcontract, Option.isSome_some]
  · intro hsome
    obtain ⟨contract, hat⟩ := Option.isSome_iff_exists.mp hsome
    obtain ⟨contracts, hfile, hcontract⟩ := Option.bind_eq_some_iff.mp hat
    exact ⟨_, Assoc.mem_of_get? hfile, _, Assoc.mem_of_get? hcontract, rfl, rfl⟩

theorem NamedOnce.nodup_contractNames (h : NamedOnce files) : (contractNames files).Nodup := by
  rw [contractNames, List.nodup_flatMap]
  constructor
  · intro file hfile
    have hinjective : Function.Injective fun name : String => (file.1, name) :=
      fun _ _ heq => (Prod.mk.inj heq).2
    have hpairs := (h.names file hfile).map hinjective
    rwa [List.map_map] at hpairs
  · refine (List.pairwise_map.mp h.fileNames).imp fun {file file'} hne => ?_
    refine List.disjoint_left.mpr fun pair hpair hpair' => ?_
    obtain ⟨_, -, rfl⟩ := List.mem_map.mp hpair
    obtain ⟨_, -, heq⟩ := List.mem_map.mp hpair'
    exact hne (Prod.mk.inj heq).1.symm

/-- A name listed with a colon before it and without. -/
def isDoubled (keys : List String) (key : String) : Bool :=
  !key.toList.contains ':' && keys.contains (":" ++ key)

theorem isDoubled_iff {keys : List String} :
    isDoubled keys key ↔ ':' ∉ key.toList ∧ ":" ++ key ∈ keys := by
  simp [isDoubled]

theorem not_isDoubled_colon (keys : List String) (name : String) :
    ¬ isDoubled keys (":" ++ name) := by
  rw [isDoubled_iff]
  exact fun h => h.1 (by simp)

/-- A contract with two keys has one that is not doubled: the one with a colon. -/
theorem IsKey.exists_not_isDoubled {keys : List String} (hkey : key ∈ keys)
    (h : IsKey file name key) : ∃ other ∈ keys, ¬ isDoubled keys other ∧ IsKey file name other := by
  by_cases hdoubled : isDoubled keys key
  · obtain ⟨hcolon, hother⟩ := isDoubled_iff.mp hdoubled
    obtain ⟨rfl, rfl⟩ : file = "" ∧ key = name := by
      refine h.eq_or.resolve_left fun heq => hcolon ?_
      rw [heq]
      simp
    exact ⟨_, hother, not_isDoubled_colon _ _, h.ne_empty, h.colon_notMem,
      .inl (by rw [String.empty_append])⟩
  · exact ⟨key, hkey, hdoubled, h⟩

theorem IsKey.eq_of_not_isDoubled {keys : List String} (hkey : key ∈ keys) (hother : other ∈ keys)
    (hkeyOnce : ¬ isDoubled keys key) (hotherOnce : ¬ isDoubled keys other)
    (h : IsKey file name key) (h' : IsKey file name other) : key = other := by
  rcases h.eq_or_doubled h' with heq | ⟨-, ⟨rfl, rfl⟩ | ⟨rfl, rfl⟩⟩
  · exact heq
  · exact absurd (isDoubled_iff.mpr ⟨h.colon_notMem, hother⟩) hkeyOnce
  · exact absurd (isDoubled_iff.mpr ⟨h'.colon_notMem, hkey⟩) hotherOnce

/-- Every contract has one key that is not doubled, and every such key has one contract. -/
theorem contractNames_perm (h : contractsFrom [] entries = .ok result)
    (hkeys : (entries.map Prod.fst).Nodup) :
    (contractNames result).Perm
      (((entries.map Prod.fst).filter fun key => !isDoubled (entries.map Prod.fst) key).map
        fun key => (splitKey? key).getD ("", "")) := by
  let keys := entries.map Prod.fst
  have hnamed : NamedOnce result := namedOnce_nil.contractsFrom h
  have hparts {key file name : String} (hkey : key ∈ keys) :
      (splitKey? key).getD ("", "") = (file, name) ↔ IsKey file name key := by
    obtain ⟨entry, hentry, rfl⟩ := List.mem_map.mp hkey
    have hsplit := (translates_of_contractsFrom h entry hentry).1
    obtain ⟨parts, hparts⟩ := Option.isSome_iff_exists.mp hsplit
    rw [isKey_iff hsplit, hparts, Option.getD_some, Option.some.injEq]
  have hkept {key : String} : key ∈ keys.filter (fun key => !isDoubled keys key) ↔
      key ∈ keys ∧ ¬ isDoubled keys key := by
    rw [List.mem_filter, Bool.not_eq_true', Bool.not_eq_true]
  refine (List.perm_ext_iff_of_nodup hnamed.nodup_contractNames ?_).mpr ?_
  · refine List.Nodup.map_on (fun key hkey other hother heq => ?_) (hkeys.filter _)
    obtain ⟨hkey, hkeyOnce⟩ := hkept.mp hkey
    obtain ⟨hother, hotherOnce⟩ := hkept.mp hother
    exact IsKey.eq_of_not_isDoubled hkey hother hkeyOnce hotherOnce ((hparts hkey).mp rfl)
      ((hparts hother).mp heq.symm)
  · rintro ⟨file, name⟩
    rw [mem_contractNames hnamed, contractAt_isSome_iff h, List.mem_map]
    constructor
    · rintro ⟨entry, hentry, hkey⟩
      obtain ⟨key, hmem, honce, hsame⟩ := hkey.exists_not_isDoubled (List.mem_map_of_mem hentry)
      exact ⟨key, hkept.mpr ⟨hmem, honce⟩, (hparts hmem).mpr hsame⟩
    · rintro ⟨key, hkey, hpair⟩
      obtain ⟨hmem, -⟩ := hkept.mp hkey
      obtain ⟨entry, hentry, rfl⟩ := List.mem_map.mp hmem
      exact ⟨entry, hentry, (hparts hmem).mp hpair⟩

theorem length_contractNames_eq_iff (h : contractsFrom [] entries = .ok result)
    (hkeys : (entries.map Prod.fst).Nodup) :
    (contractNames result).length = entries.length ↔
      ∀ name ∈ entries.map Prod.fst, ':' ∉ name.toList → ":" ++ name ∉ entries.map Prod.fst := by
  rw [(contractNames_perm h hkeys).length_eq, List.length_map, ← List.length_map Prod.fst,
    List.length_filter_eq_length_iff]
  simp only [Bool.not_eq_true', ← Bool.not_eq_true, isDoubled_iff, not_and]

end SolcDispatch.Legacy
