import SolcDispatch.Proofs.Artifact.Path
import SolcDispatch.Proofs.Version.RoundTrip

/-! Names of builds. Two builds never share a name or a file, and without slashes in the
name of the platform no name leads out of the directory of the cache. -/

namespace SolcDispatch

theorem FilePath.head?_parts {name : String}
    (h : 2 ≤ (name.toList.takeWhile (· != '/')).length) :
    (ofString name).parts.head? = some (String.ofList (name.toList.takeWhile (· != '/'))) := by
  have hhead := head?_pieces [] name.toList
  cases hp : pieces [] name.toList with
  | nil => simp [hp] at hhead
  | cons first rest =>
    rw [hp, List.head?_cons, List.reverse_nil, List.nil_append, Option.some.injEq] at hhead
    subst hhead
    rw [ofString, hp, List.map_cons, List.filter_cons_of_pos (isKept_of_long h), List.head?_cons]

namespace Artifact

variable {platform text other : String} {kind second : BuildKind} {v w : CompilerVersion}

theorem name_of_parse (h : CompilerVersion.parse text = .ok v) :
    name platform kind text = .ok (nameOf platform kind v.canonical) := by
  rw [name, h]
  rfl

theorem nameOf_cancel {a b : String} (h : nameOf platform kind a = nameOf platform kind b) :
    a = b := by
  have hlist := congrArg String.toList h
  cases kind with
  | native =>
    rw [toList_native, toList_native] at hlist
    exact String.toList_injective (List.append_cancel_left (List.append_cancel_left hlist))
  | scripted =>
    rw [toList_scripted, toList_scripted] at hlist
    exact String.toList_injective (List.append_cancel_right (List.append_cancel_left hlist))

/-- What begins with the start of scripted names is no native build, nor the directory of one. -/
theorem not_both_starts {cs : List Char} (h : "solc-".toList <+: cs) :
    ¬ scriptedStart.toList <+: cs := by
  intro ho
  exact absurd (List.prefix_of_prefix_length_le h ho (by decide)) (by decide)

/-- On the way to a native build, its file included, the first name is never that of a
scripted build. -/
theorem head_parts_native (platform canonical : String) :
    ∃ first, (FilePath.ofString (nameOf platform .native canonical)).parts.head? =
        some (String.ofList first) ∧ "solc-".toList <+: first := by
  have hslash : ∀ c ∈ "solc-".toList, (c != '/') = true := List.all_eq_true.mp (by decide)
  have hstart : "solc-".toList <+:
      (nameOf platform .native canonical).toList.takeWhile (· != '/') := by
    rw [toList_native, List.takeWhile_append_of_pos hslash]
    exact List.prefix_append _ _
  exact ⟨_, FilePath.head?_parts (Nat.le_trans (by decide) hstart.length_le), hstart⟩

theorem parts_native_ne_scripted (hw : w.WellFormed) (canonical : String) :
    (FilePath.ofString (nameOf platform .native canonical)).parts ≠
      (FilePath.ofString (nameOf platform .scripted w.canonical)).parts := by
  intro he
  obtain ⟨first, hfirst, hsolc⟩ := head_parts_native platform canonical
  rw [he, parts_scripted hw, List.head?_cons, Option.some.injEq] at hfirst
  refine not_both_starts hsolc ?_
  rw [← String.toList_ofList (l := first), ← hfirst, toList_scripted]
  exact List.prefix_append _ _

/-- The last part of a path tells builds of one kind apart. -/
theorem fileName_cancel (hv : v.WellFormed) (hw : w.WellFormed)
    (h : (FilePath.ofString (nameOf platform kind v.canonical)).fileName =
      (FilePath.ofString (nameOf platform kind w.canonical)).fileName) : v = w := by
  refine CompilerVersion.canonical_injective hv hw ?_
  cases kind with
  | native =>
    obtain ⟨between, last, -, hparts⟩ := parts_native platform
    have hlist := congrArg String.toList h
    simp only [FilePath.fileName, hparts v hv, hparts w hw, List.getLastD_concat,
      String.toList_ofList] at hlist
    exact String.toList_injective (List.append_cancel_left hlist)
  | scripted =>
    rw [FilePath.fileName, FilePath.fileName, parts_scripted hv, parts_scripted hw] at h
    have hname : nameOf platform .scripted v.canonical = nameOf platform .scripted w.canonical := h
    exact nameOf_cancel hname

theorem parts_cancel (hv : v.WellFormed) (hw : w.WellFormed)
    (h : (FilePath.ofString (nameOf platform kind v.canonical)).parts =
      (FilePath.ofString (nameOf platform second w.canonical)).parts) : v = w ∧ kind = second := by
  cases kind <;> cases second
  case native.scripted => exact absurd h (parts_native_ne_scripted hw _)
  case scripted.native => exact absurd h.symm (parts_native_ne_scripted hv _)
  all_goals exact ⟨fileName_cancel hv hw (congrArg (List.getLastD · "") h), rfl⟩

def isNameChar (c : Char) : Bool := CompilerVersion.isSuffixChar c || c == '+'

theorem isNameChar_of_mem_canonical (hv : v.WellFormed) {c : Char}
    (hc : c ∈ v.canonical.toList) : isNameChar c := by
  rcases hv.mem_canonical hc with rfl | hc
  · decide
  · simp [isNameChar, hc]

theorem isNameChar_of_mem_scripted (hv : v.WellFormed) {c : Char}
    (hc : c ∈ (nameOf platform .scripted v.canonical).toList) : isNameChar c := by
  rw [toList_scripted, List.mem_append, List.mem_append] at hc
  rcases hc with hc | hc | hc
  · exact List.all_eq_true.mp (show scriptedStart.toList.all isNameChar by decide) c hc
  · exact isNameChar_of_mem_canonical hv hc
  · exact List.all_eq_true.mp (show scriptedEnd.toList.all isNameChar by decide) c hc

theorem mem_native (hv : v.WellFormed) {c : Char}
    (hc : c ∈ (nameOf platform .native v.canonical).toList) :
    c ∈ platform.toList ∨ isNameChar c := by
  simp only [toList_native, List.mem_append] at hc
  rcases hc with hc | (hc | hc) | hc
  · exact .inr (List.all_eq_true.mp (show "solc-".toList.all isNameChar by decide) c hc)
  · exact .inl hc
  · exact .inr (List.all_eq_true.mp (show "-".toList.all isNameChar by decide) c hc)
  · exact .inr (isNameChar_of_mem_canonical hv hc)

/-- A name that is one component of a path, made of the platform's characters and a few
harmless ones. -/
structure IsComponent (platform name : String) : Prop where
  slash : '/' ∉ name.toList
  chars : ∀ c ∈ name.toList, c ∈ platform.toList ∨ isNameChar c
  dot : name ≠ "."
  dots : name ≠ ".."

theorem nameOf_ne_of_short {canonical found : String} (h : found.toList.length < 4) :
    nameOf platform kind canonical ≠ found := by
  rintro rfl
  exact absurd (four_le_length_nameOf platform kind canonical) (Nat.not_le.mpr h)

theorem isComponent_nameOf (hv : v.WellFormed) (h : kind = .scripted ∨ '/' ∉ platform.toList) :
    IsComponent platform (nameOf platform kind v.canonical) := by
  have hchars (c : Char) (hc : c ∈ (nameOf platform kind v.canonical).toList) :
      c ∈ platform.toList ∧ kind = .native ∨ isNameChar c := by
    cases kind with
    | native => exact (mem_native hv hc).imp (⟨·, rfl⟩) id
    | scripted => exact .inr (isNameChar_of_mem_scripted hv hc)
  refine ⟨fun hslash => ?_, fun c hc => (hchars c hc).imp And.left id,
    nameOf_ne_of_short (by decide), nameOf_ne_of_short (by decide)⟩
  rcases hchars '/' hslash with ⟨hm, rfl⟩ | hname
  · exact h.elim BuildKind.noConfusion (· hm)
  · exact absurd hname (by decide)

theorem child_nameOf (root : FilePath) (platform : String) (kind : BuildKind) (canonical : String) :
    root.child (nameOf platform kind canonical) =
      ⟨root.root, root.parts ++ (FilePath.ofString (nameOf platform kind canonical)).parts⟩ :=
  FilePath.child_of_relative (relative_nameOf platform kind canonical)

theorem IsComponent.parts {canonical : String}
    (h : IsComponent platform (nameOf platform kind canonical)) :
    (FilePath.ofString (nameOf platform kind canonical)).parts =
      [nameOf platform kind canonical] :=
  FilePath.parts_of_noSlash h.slash (Nat.le_trans (by decide) (four_le_length_nameOf ..))

theorem nameOf_eq_iff (hv : v.WellFormed) (hw : w.WellFormed) :
    nameOf platform kind v.canonical = nameOf platform second w.canonical ↔
      v = w ∧ kind = second := by
  constructor
  · exact fun h => parts_cancel hv hw (congrArg (fun found => (FilePath.ofString found).parts) h)
  · rintro ⟨rfl, rfl⟩
    rfl

theorem child_nameOf_eq_iff (root : FilePath) (hv : v.WellFormed) (hw : w.WellFormed) :
    root.child (nameOf platform kind v.canonical) =
      root.child (nameOf platform second w.canonical) ↔ v = w ∧ kind = second := by
  constructor
  · intro h
    rw [child_nameOf, child_nameOf, FilePath.mk.injEq] at h
    exact parts_cancel hv hw (List.append_cancel_left h.2)
  · rintro ⟨rfl, rfl⟩
    rfl

theorem parts_nameOf_ne_nil (hv : v.WellFormed) :
    (FilePath.ofString (nameOf platform kind v.canonical)).parts ≠ [] := by
  cases kind with
  | native =>
    obtain ⟨between, last, -, hparts⟩ := parts_native platform
    simp [hparts v hv]
  | scripted => simp [parts_scripted hv]

theorem fileName_child (root : FilePath) (hv : v.WellFormed) :
    (root.child (nameOf platform kind v.canonical)).fileName =
      (FilePath.ofString (nameOf platform kind v.canonical)).fileName := by
  rw [child_nameOf, FilePath.fileName, FilePath.fileName, List.getLastD_eq_getLast?,
    List.getLastD_eq_getLast?, List.getLast?_append_of_ne_nil _ (parts_nameOf_ne_nil hv)]

/-- Where a path has one part, its last part is the whole name. -/
theorem fileName_nameOf (h : IsComponent platform (nameOf platform kind v.canonical)) :
    (FilePath.ofString (nameOf platform kind v.canonical)).fileName =
      nameOf platform kind v.canonical := by
  rw [FilePath.fileName, h.parts]
  rfl

theorem fileName_child_eq_iff (root : FilePath) (hv : v.WellFormed) (hw : w.WellFormed)
    (h : '/' ∉ platform.toList ∨ kind = second) :
    (root.child (nameOf platform kind v.canonical)).fileName =
      (root.child (nameOf platform second w.canonical)).fileName ↔ v = w ∧ kind = second := by
  rw [fileName_child root hv, fileName_child root hw]
  rcases h with hslash | rfl
  · rw [fileName_nameOf (isComponent_nameOf hv (.inr hslash)),
      fileName_nameOf (isComponent_nameOf hw (.inr hslash)), nameOf_eq_iff hv hw]
  · exact ⟨fun h => ⟨fileName_cancel hv hw h, rfl⟩, by rintro ⟨rfl, -⟩; rfl⟩

/-- Names and files of builds tell versions and kinds apart; a name without a slash of the
platform in it is the one part of its path inside the directory of the cache. -/
theorem names_tell_builds_apart (h : CompilerVersion.parse text = .ok v)
    (ho : CompilerVersion.parse other = .ok w) (cache : Cache) (kind second : BuildKind) :
    let platform := cache.source.platform
    ∃ found path found' path',
      name platform kind text = .ok found ∧ cache.pathOf kind text = .ok path ∧
      name platform second other = .ok found' ∧ cache.pathOf second other = .ok path' ∧
      (found = found' ↔ v = w ∧ kind = second) ∧
      (path = path' ↔ v = w ∧ kind = second) ∧
      (kind = .scripted ∨ '/' ∉ platform.toList →
        IsComponent platform found ∧ path.parent = cache.root ∧ path.fileName = found) ∧
      ('/' ∉ platform.toList ∨ kind = second →
        (path.fileName = path'.fileName ↔ v = w ∧ kind = second)) := by
  have hv := CompilerVersion.wellFormed_of_parse h
  have hw := CompilerVersion.wellFormed_of_parse ho
  have hpath {kind : BuildKind} {text : String} {v : CompilerVersion}
      (h : CompilerVersion.parse text = .ok v) : cache.pathOf kind text =
        .ok (cache.root.child (nameOf cache.source.platform kind v.canonical)) := by
    rw [Cache.pathOf, name_of_parse h]
    rfl
  refine ⟨_, _, _, _, name_of_parse h, hpath h, name_of_parse ho, hpath ho,
    nameOf_eq_iff hv hw, child_nameOf_eq_iff _ hv hw, fun hkind => ?_,
    fileName_child_eq_iff _ hv hw⟩
  have hname := isComponent_nameOf hv hkind
  refine ⟨hname, ?_, by rw [fileName_child _ hv, fileName_nameOf hname]⟩
  rw [child_nameOf, hname.parts, FilePath.parent, List.dropLast_concat]

theorem names_tell_dotted_builds_apart :
    let cache : Cache :=
      { root := ⟨"/", ["cache"]⟩,
        source := ⟨"https://builds", "linux-amd64", ⟨0, 6, 9, none, none⟩⟩ }
    let v : CompilerVersion := ⟨0, 8, 20, some "..", some ".."⟩
    CompilerVersion.parse " v0.08.٢0-..+..\n" = .ok v ∧
    CompilerVersion.parse "0.8.20-..+.." = .ok v ∧
    '/' ∉ cache.source.platform.toList ∧
    ∃ path path', cache.pathOf .native " v0.08.٢0-..+..\n" = .ok path ∧
      cache.pathOf .scripted "0.8.20-..+.." = .ok path' ∧
      path.parent = cache.root ∧ path.fileName = "solc-linux-amd64-v0.8.20-..+.." ∧
      path ≠ path' ∧ path.fileName ≠ path'.fileName := by
  intro cache v
  have hv : CompilerVersion.parse " v0.08.٢0-..+..\n" = .ok v := by decide
  have ho : CompilerVersion.parse "0.8.20-..+.." = .ok v := by decide
  have hslash : '/' ∉ cache.source.platform.toList := by decide
  obtain ⟨found, path, _, path', hname, hpath, _, hpath', _, hpaths, hcomponent, hkeys⟩ :=
    names_tell_builds_apart hv ho cache .native .scripted
  obtain ⟨_, hparent, hfile⟩ := hcomponent (.inr hslash)
  have hfound : found = "solc-linux-amd64-v0.8.20-..+.." :=
    Except.ok.inj (hname.symm.trans (by decide))
  have hkinds : ¬ (v = v ∧ BuildKind.native = .scripted) := by decide
  exact ⟨hv, ho, hslash, path, path', hpath, hpath', hparent, hfile.trans hfound,
    mt hpaths.mp hkinds, mt (hkeys (.inl hslash)).mp hkinds⟩

end Artifact

end SolcDispatch
