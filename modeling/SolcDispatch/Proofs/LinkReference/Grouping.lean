import Mathlib.Data.List.Nodup
import SolcDispatch.LinkReference.Group
import SolcDispatch.LinkReference.Placeholder
import SolcDispatch.Proofs.Assoc

/-! Grouping by source is a projection onto maps in which every library has a source. It keeps
all references but those of a library that is listed both without a source and in the group of
the empty source name: there the list without a source takes the place of the other. -/

namespace SolcDispatch.LinkReference

open scoped List

variable {members libraries : Json.Members} {refs : ByLibrary}

/-- The entries that are sources, or anything else but a library without one. -/
def sourced (members : Json.Members) : Json.Members := members.filter fun m => !m.2.isArray

/-- The libraries listed without a source. -/
def unsourced (members : Json.Members) : Json.Members := members.filter fun m => m.2.isArray

theorem mem_unsourced {m : String × Json} : m ∈ unsourced members ↔ m ∈ members ∧ m.2.isArray :=
  List.mem_filter

theorem sourced_sublist (members : Json.Members) : (sourced members).Sublist members :=
  List.filter_sublist

theorem unsourced_sublist (members : Json.Members) : (unsourced members).Sublist members :=
  List.filter_sublist

theorem sourced_append_unsourced_perm (members : Json.Members) :
    (unsourced members ++ sourced members).Perm members :=
  List.filter_append_perm _ members

theorem nodup_sourced (hkeys : (members.map Prod.fst).Nodup) :
    ((sourced members).map Prod.fst).Nodup :=
  hkeys.sublist ((sourced_sublist members).map Prod.fst)

theorem nodup_unsourced (hkeys : (members.map Prod.fst).Nodup) :
    ((unsourced members).map Prod.fst).Nodup :=
  hkeys.sublist ((unsourced_sublist members).map Prod.fst)

theorem isGrouped_iff : isGrouped members ↔ ∀ m ∈ members, m.2.isArray = false := by
  simp [isGrouped]

theorem isGrouped_iff_unsourced : isGrouped members ↔ unsourced members = [] := by
  rw [isGrouped_iff, unsourced, List.filter_eq_nil_iff]
  simp only [Bool.not_eq_true]

theorem group_of_isGrouped (h : isGrouped members) : group members = members := by
  have hnone : (split members).2 = [] := by
    rw [split, List.partition_eq_filter_filter]
    simpa [unsourced, Function.comp_def] using isGrouped_iff_unsourced.mp h
  simp only [group, hnone, List.isEmpty_nil, if_true]

theorem group_of_not_isGrouped (h : ¬ isGrouped members) :
    group members = Assoc.put (sourced members) ""
      (joinGroup (Assoc.get? (sourced members) "") (unsourced members)) := by
  have hsplit : split members = (sourced members, unsourced members) := by
    simp [split, List.partition_eq_filter_filter, sourced, unsourced, Function.comp_def]
  have hsome : (unsourced members).isEmpty = false := by
    rw [Bool.eq_false_iff, ne_eq, List.isEmpty_iff, ← isGrouped_iff_unsourced]
    exact h
  simp only [group, hsplit, hsome, Bool.false_eq_true, if_false]

theorem isArray_joinGroup (existing : Option Json) (libraries : Json.Members) :
    (joinGroup existing libraries).isArray = false := by
  unfold joinGroup
  split <;> rfl

theorem isGrouped_group (members : Json.Members) : isGrouped (group members) := by
  by_cases h : isGrouped members
  · rwa [group_of_isGrouped h]
  · rw [group_of_not_isGrouped h, isGrouped_iff]
    intro m hm
    rcases Assoc.mem_put hm with rfl | hm
    · exact isArray_joinGroup _ _
    · simpa using (List.mem_filter.mp hm).2

theorem isArray_of_mem_members {m : String × Json} (h : m ∈ refs.members) : m.2.isArray := by
  obtain ⟨entry, -, rfl⟩ := List.mem_map.mp h
  rfl

theorem sourced_members (refs : ByLibrary) : sourced refs.members = [] := by
  rw [sourced, List.filter_eq_nil_iff]
  intro m hm
  simp [isArray_of_mem_members hm]

theorem unsourced_members (refs : ByLibrary) : unsourced refs.members = refs.members :=
  List.filter_eq_self.mpr fun _ => isArray_of_mem_members

/-- Libraries that are found in code have no source, so that all of them are moved. -/
theorem group_members (h : refs ≠ []) : group refs.members = [("", .obj refs.members)] := by
  have hlisted : ¬ isGrouped refs.members := by
    rw [isGrouped_iff_unsourced, unsourced_members, ByLibrary.members, List.map_eq_nil_iff]
    exact h
  rw [group_of_not_isGrouped hlisted, sourced_members, unsourced_members]
  rfl

/-- The joined group holds each further library as it is listed, and of the libraries that were
there those that are not listed anew. -/
theorem joinGroup_eq (existing : Option Json) (h : (libraries.map Prod.fst).Nodup) :
    ∃ joined, joinGroup existing libraries = .obj joined ∧ ∀ name,
      Assoc.get? joined name =
        (Assoc.get? libraries name).or (existing.bind fun group => group.get? name) := by
  rcases existing with _ | group
  · exact ⟨libraries, rfl, fun name => (Option.or_none).symm⟩
  cases group with
  | obj members => exact ⟨_, rfl, fun name => Assoc.get?_putAll h name⟩
  | _ => exact ⟨libraries, rfl, fun name => (Option.or_none).symm⟩

/-- Grouping gives a map without a library that lacks a source, and changes no such map. Where
it has something to move, all other entries keep their place, and the one group of the empty
source name holds every library that was moved. -/
theorem group_projects (members : Json.Members) (hkeys : (members.map Prod.fst).Nodup) :
    isGrouped (group members) ∧ group (group members) = group members ∧
    (isGrouped members → group members = members) ∧
    (¬ isGrouped members →
      Assoc.without (group members) [""] =
        (Assoc.without members [""]).filter (fun m => !m.2.isArray) ∧
      ((group members).map Prod.fst).count "" = 1 ∧
      ∃ libraries, Assoc.get? (group members) "" = some (.obj libraries) ∧
        ∀ m ∈ members, m.2.isArray → Assoc.get? libraries m.1 = some m.2) := by
  refine ⟨isGrouped_group members, group_of_isGrouped (isGrouped_group members),
    group_of_isGrouped, fun h => ?_⟩
  have hsourced := nodup_sourced hkeys
  have hunsourced := nodup_unsourced hkeys
  obtain ⟨joined, hjoined, hget⟩ := joinGroup_eq (Assoc.get? (sourced members) "") hunsourced
  have hgroup : group members = Assoc.put (sourced members) "" (.obj joined) := by
    rw [group_of_not_isGrouped h, hjoined]
  have hempty : Assoc.get? (group members) "" = some (.obj joined) := by
    rw [hgroup, Assoc.get?_put_self]
  have hnodup : ((group members).map Prod.fst).Nodup := hgroup ▸ Assoc.nodup_put hsourced
  refine ⟨?_, ?_, joined, hempty, ?_⟩
  · rw [hgroup, Assoc.without_put, sourced, Assoc.without, Assoc.without, List.filter_filter,
      List.filter_filter]
    exact List.filter_congr fun m _ => Bool.and_comm _ _
  · exact List.count_eq_one_of_mem hnodup (List.mem_map_of_mem (Assoc.mem_of_get? hempty))
  · intro m hm harray
    have hmem : (m.1, m.2) ∈ unsourced members := mem_unsourced.mpr ⟨hm, harray⟩
    rw [hget, (Assoc.get?_eq_some_iff hunsourced).mpr hmem, Option.some_or]

theorem group_projects_null_source :
    let members : Json.Members := [("", .null), ("a.sol", .obj []), ("Lib", .arr [.int 5])]
    (members.map Prod.fst).Nodup ∧ isGrouped (group members) ∧
      group (group members) = group members ∧
      Assoc.without (group members) [""] = [("a.sol", .obj [])] ∧
      ∃ libraries, Assoc.get? (group members) "" = some (.obj libraries) ∧
        Assoc.get? libraries "Lib" = some (.arr [.int 5]) := by
  intro members
  have hkeys : (members.map Prod.fst).Nodup := by decide
  obtain ⟨hgrouped, hagain, -, hmoved⟩ := group_projects members hkeys
  obtain ⟨hothers, -, libraries, hempty, hall⟩ := hmoved (by decide)
  exact ⟨hkeys, hgrouped, hagain, hothers, libraries, hempty,
    hall ("Lib", .arr [.int 5]) (by simp [members]) rfl⟩

/-- A reference in a map: its source, empty where the library has none, its library, and the
place as it is written. -/
structure Listed where
  source : String
  library : String
  place : Json

/-- The references of a library, which is listed under a source. -/
def listedOf (source : String) (library : String × Json) : List Listed :=
  match library.2 with
  | .arr places => places.map fun place => ⟨source, library.1, place⟩
  | _ => []

/-- The references of an entry: a library without a source, or a source with its libraries. -/
def listedIn (member : String × Json) : List Listed :=
  match member.2 with
  | .obj libraries => libraries.flatMap (listedOf member.1)
  | _ => listedOf "" member

def references (members : Json.Members) : List Listed := members.flatMap listedIn

/-- The libraries in the group of the empty source name. -/
def emptyGroup (members : Json.Members) : Json.Members :=
  match Assoc.get? members "" with
  | some (.obj libraries) => libraries
  | _ => []

/-- The references in the group of the empty source name whose libraries are listed without a
source as well. -/
def overwritten (members : Json.Members) : List Listed :=
  ((emptyGroup members).filter fun library =>
    ((unsourced members).map Prod.fst).contains library.1).flatMap (listedOf "")

theorem references_perm {others : Json.Members} (h : members.Perm others) :
    (references members).Perm (references others) := h.flatMap_right _

theorem references_unsourced (members : Json.Members) :
    references (unsourced members) = (unsourced members).flatMap (listedOf "") := by
  refine List.flatMap_congr fun m hm => ?_
  obtain ⟨name, value⟩ := m
  have harray : value.isArray := (mem_unsourced.mp hm).2
  cases value with
  | arr places => rfl
  | _ => cases harray

theorem emptyGroup_sourced (hkeys : (members.map Prod.fst).Nodup) :
    emptyGroup (sourced members) = emptyGroup members := by
  have hiff (libraries : Json.Members) : Assoc.get? (sourced members) "" = some (.obj libraries) ↔
      Assoc.get? members "" = some (.obj libraries) := by
    rw [Assoc.get?_eq_some_iff hkeys, Assoc.get?_eq_some_iff (nodup_sourced hkeys), sourced,
      List.mem_filter]
    exact and_iff_left rfl
  unfold emptyGroup
  split
  · rename_i libraries hget
    rw [(hiff libraries).mp hget]
  · rename_i hother
    split
    · rename_i libraries hget
      exact absurd ((hiff libraries).mpr hget) (hother libraries)
    · rfl

theorem joinGroup_emptyGroup (h : (libraries.map Prod.fst).Nodup) :
    joinGroup (Assoc.get? members "") libraries =
      .obj (Assoc.putAll (emptyGroup members) libraries) := by
  have hnone : Assoc.putAll [] libraries = libraries := Assoc.ofPairs_of_nodup h
  unfold joinGroup emptyGroup
  rcases Assoc.get? members "" with _ | group
  · exact congrArg Json.obj hnone.symm
  cases group with
  | obj members => rfl
  | _ => exact congrArg Json.obj hnone.symm

/-- The references of a map without libraries that lack a source, apart into those of the group
of the empty source name and the others. -/
theorem references_sourced_perm (hkeys : (members.map Prod.fst).Nodup) :
    (references (sourced members)).Perm ((emptyGroup (sourced members)).flatMap (listedOf "") ++
      references (Assoc.without (sourced members) [""])) := by
  cases hget : Assoc.get? (sourced members) "" with
  | none =>
    have hwithout : Assoc.without (sourced members) [""] = sourced members :=
      Assoc.without_of_notMem (by simpa using Assoc.notMem_of_get?_none hget)
    simp only [emptyGroup, hget, hwithout, List.flatMap_nil, List.nil_append]
    exact .refl _
  | some group =>
    have hfirst : listedIn ("", group) = (emptyGroup (sourced members)).flatMap (listedOf "") := by
      have harray := (List.mem_filter.mp (Assoc.mem_of_get? hget)).2
      simp only [emptyGroup, hget]
      cases group with
      | arr places => cases harray
      | _ => rfl
    rw [← hfirst]
    exact references_perm (Assoc.perm_of_get? hget (nodup_sourced hkeys))

/-- The libraries of the empty source name that are not listed anew. -/
def kept (members : Json.Members) : Json.Members :=
  Assoc.without (emptyGroup members) ((unsourced members).map Prod.fst)

theorem overwritten_append_kept_perm (members : Json.Members) :
    (overwritten members ++ (kept members).flatMap (listedOf "")).Perm
      ((emptyGroup members).flatMap (listedOf "")) := by
  rw [overwritten, kept, Assoc.without, ← List.flatMap_append]
  exact (List.filter_append_perm _ _).flatMap_right _

theorem references_group_perm (h : ¬ isGrouped members) (hkeys : (members.map Prod.fst).Nodup)
    (hgroup : ((emptyGroup members).map Prod.fst).Nodup) :
    (references (group members)).Perm
      (((kept members).flatMap (listedOf "") ++ (unsourced members).flatMap (listedOf "")) ++
        references (Assoc.without (sourced members) [""])) := by
  have hunsourced := nodup_unsourced hkeys
  rw [group_of_not_isGrouped h, joinGroup_emptyGroup hunsourced, emptyGroup_sourced hkeys]
  refine (references_perm (Assoc.put_perm (nodup_sourced hkeys))).trans (.append_right _ ?_)
  rw [← List.flatMap_append]
  exact (Assoc.putAll_perm hgroup hunsourced).flatMap_right _

/-- What is overwritten is all that grouping loses, and it adds nothing. -/
theorem references_group_append (hkeys : (members.map Prod.fst).Nodup)
    (hgroup : ((emptyGroup members).map Prod.fst).Nodup) :
    (references (group members) ++ overwritten members).Perm (references members) := by
  by_cases h : isGrouped members
  · rw [overwritten, group_of_isGrouped h, isGrouped_iff_unsourced.mp h]
    simp
  · let rest := references (Assoc.without (sourced members) [""])
    have hsourced : (references (sourced members)).Perm
        ((emptyGroup members).flatMap (listedOf "") ++ rest) := by
      rw [← emptyGroup_sourced hkeys]
      exact references_sourced_perm hkeys
    calc references (group members) ++ overwritten members
      _ ~ overwritten members ++ references (group members) := List.perm_append_comm
      _ ~ overwritten members ++ (((kept members).flatMap (listedOf "") ++
            (unsourced members).flatMap (listedOf "")) ++ rest) :=
        (references_group_perm h hkeys hgroup).append_left _
      _ ~ (unsourced members).flatMap (listedOf "") ++
            ((overwritten members ++ (kept members).flatMap (listedOf "")) ++ rest) := by
        simp only [List.append_assoc]
        exact ((List.perm_append_comm_assoc _ _ _).append_left _).trans
          (List.perm_append_comm_assoc _ _ _)
      _ ~ (unsourced members).flatMap (listedOf "") ++
            ((emptyGroup members).flatMap (listedOf "") ++ rest) :=
        ((overwritten_append_kept_perm members).append_right _).append_left _
      _ ~ references (unsourced members) ++ references (sourced members) := by
        rw [references_unsourced]
        exact hsourced.symm.append_left _
      _ = references (unsourced members ++ sourced members) := List.flatMap_append.symm
      _ ~ references members := references_perm (sourced_append_unsourced_perm members)

theorem overwritten_eq_nil_iff : overwritten members = [] ↔
    ∀ name places others, (name, .arr places) ∈ emptyGroup members →
      (name, .arr others) ∈ members → places = [] := by
  rw [overwritten, List.flatMap_eq_nil_iff]
  constructor
  · intro h name places others hplaces hothers
    have hlisted : name ∈ (unsourced members).map Prod.fst :=
      List.mem_map_of_mem (mem_unsourced.mpr ⟨hothers, rfl⟩)
    have hnone := h (name, .arr places) (List.mem_filter.mpr ⟨hplaces, by simpa using hlisted⟩)
    exact List.map_eq_nil_iff.mp hnone
  · rintro h ⟨name, value⟩ hlibrary
    obtain ⟨hvalue, hlisted⟩ := List.mem_filter.mp hlibrary
    obtain ⟨⟨_, other⟩, hother, rfl⟩ := List.mem_map.mp (List.contains_iff_mem.mp hlisted)
    obtain ⟨hother, harray⟩ := mem_unsourced.mp hother
    cases value with
    | arr places =>
      cases other with
      | arr others =>
        obtain rfl := h _ places others hvalue hother
        rfl
      | _ => cases harray
    | _ => rfl

/-- Grouping keeps all references, each with its source and its library, exactly if no library
that is listed without a source has a reference in the group of the empty source name. What is
lost otherwise are the references there. -/
theorem references_group_perm_iff (hkeys : (members.map Prod.fst).Nodup)
    (hgroup : ((emptyGroup members).map Prod.fst).Nodup) :
    (references (group members) ++ overwritten members).Perm (references members) ∧
    ((references (group members)).Perm (references members) ↔
      ∀ name places others, (name, .arr places) ∈ emptyGroup members →
        (name, .arr others) ∈ members → places = []) := by
  have hall := references_group_append hkeys hgroup
  refine ⟨hall, ?_⟩
  rw [← overwritten_eq_nil_iff]
  constructor
  · intro h
    have hlength := hall.length_eq.trans h.length_eq.symm
    rw [List.length_append] at hlength
    exact List.length_eq_zero_iff.mp (by omega)
  · intro h
    rwa [h, List.append_nil] at hall

theorem references_group_of_new_library :
    let members : Json.Members := [("", .obj [("Known", .arr [toJson ⟨0, 20⟩])]),
      ("Lib", .arr [toJson ⟨5, 20⟩])]
    (members.map Prod.fst).Nodup ∧ ((emptyGroup members).map Prod.fst).Nodup ∧
      (references (group members)).Perm (references members) := by
  intro members
  have hkeys : (members.map Prod.fst).Nodup := by decide
  have hgroup : ((emptyGroup members).map Prod.fst).Nodup := by decide
  refine ⟨hkeys, hgroup, (references_group_perm_iff hkeys hgroup).2.mpr ?_⟩
  intro name places others hplaces hothers
  have hname : (name, Json.arr places) = ("Known", .arr [toJson ⟨0, 20⟩]) :=
    List.mem_singleton.mp hplaces
  obtain ⟨rfl, -⟩ := Prod.mk.inj hname
  simp [members] at hothers

/-- A library with a place in the group of the empty source name and another one without a
source: the first is lost. -/
theorem references_group_of_known_library :
    let members : Json.Members := [("", .obj [("Lib", .arr [toJson ⟨0, 20⟩])]),
      ("Lib", .arr [toJson ⟨5, 20⟩])]
    references members = [⟨"", "Lib", toJson ⟨0, 20⟩⟩, ⟨"", "Lib", toJson ⟨5, 20⟩⟩] ∧
      references (group members) = [⟨"", "Lib", toJson ⟨5, 20⟩⟩] ∧
      ¬ (references (group members)).Perm (references members) := by
  intro members
  have hbefore : references members =
      [⟨"", "Lib", toJson ⟨0, 20⟩⟩, ⟨"", "Lib", toJson ⟨5, 20⟩⟩] := rfl
  have hafter : references (group members) = [⟨"", "Lib", toJson ⟨5, 20⟩⟩] := rfl
  refine ⟨hbefore, hafter, fun h => ?_⟩
  rw [hbefore, hafter] at h
  exact absurd h.length_eq (by decide)

end SolcDispatch.LinkReference
