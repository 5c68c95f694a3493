import SolcDispatch.Cache.Basic
import SolcDispatch.Proofs.Files
import SolcDispatch.Proofs.Version.Canonical

/-! Where builds are kept. No build stands on the way to another one. -/

namespace SolcDispatch

namespace FilePath

theorem pieces_of_noSlash {cs : List Char} (h : '/' ∉ cs) (part : List Char) :
    pieces part cs = [part.reverse ++ cs] := by
  induction cs generalizing part with
  | nil => simp [pieces]
  | cons c cs ih =>
    rw [List.mem_cons, not_or] at h
    have hc : (c == '/') = false := by simpa using Ne.symm h.1
    simp only [pieces, hc, Bool.false_eq_true, if_false, ih h.2, List.reverse_cons,
      List.append_assoc, List.singleton_append]

theorem pieces_append (part front : List Char) :
    ∃ before last, ∀ cs, '/' ∉ cs → pieces part (front ++ cs) = before ++ [last ++ cs] := by
  induction front generalizing part with
  | nil => exact ⟨[], part.reverse, fun cs h => pieces_of_noSlash h part⟩
  | cons c front ih =>
    by_cases hc : c = '/'
    · obtain ⟨before, last, he⟩ := ih []
      refine ⟨part.reverse :: before, last, fun cs h => ?_⟩
      simp [pieces, hc, he cs h]
    · obtain ⟨before, last, he⟩ := ih (c :: part)
      refine ⟨before, last, fun cs h => ?_⟩
      have hf : (c == '/') = false := by simpa using hc
      simp only [List.cons_append, pieces, hf, Bool.false_eq_true, if_false, he cs h]

theorem head?_pieces (part cs : List Char) :
    (pieces part cs).head? = some (part.reverse ++ cs.takeWhile (· != '/')) := by
  induction cs generalizing part with
  | nil => simp [pieces]
  | cons c cs ih =>
    by_cases hc : c = '/'
    · simp [pieces, hc]
    · have hf : (c == '/') = false := by simpa using hc
      simp [pieces, hc, ih]

theorem child_of_relative {path : FilePath} {name : String} (h : rootOf name.toList = "") :
    path.child name = ⟨path.root, path.parts ++ (ofString name).parts⟩ := by
  simp [child, join, ofString, h]

theorem isKept_of_long {part : List Char} (h : 2 ≤ part.length) : isKept (String.ofList part) := by
  have hne (s : String) (hs : s.length < 2) : String.ofList part ≠ s := by
    rintro rfl
    rw [String.length_ofList] at hs
    omega
  simp [isKept, hne "" (by decide), hne "." (by decide)]

theorem parts_of_noSlash {name : String} (hslash : '/' ∉ name.toList)
    (hlong : 2 ≤ name.toList.length) : (ofString name).parts = [name] := by
  simp only [ofString, pieces_of_noSlash hslash, List.reverse_nil, List.nil_append, List.map_cons,
    List.map_nil]
  rw [List.filter_cons_of_pos (isKept_of_long hlong), List.filter_nil, String.ofList_toList]

end FilePath

namespace Artifact

/-- Where a build of some version is kept. -/
def IsPath (root : FilePath) (platform : String) (path : FilePath) : Prop :=
  ∃ kind version, (name platform kind version).map root.child = .ok path

theorem exists_of_name {platform version found : String} {kind : BuildKind}
    (h : name platform kind version = .ok found) :
    ∃ v : CompilerVersion, v.WellFormed ∧ found = nameOf platform kind v.canonical := by
  unfold name at h
  cases hp : CompilerVersion.parse version with
  | error _ =>
    rw [hp] at h
    cases h
  | ok v =>
    rw [hp] at h
    cases h
    have hp : CompilerVersion.parse? version = some v := by
      rw [CompilerVersion.parse?, hp]
      rfl
    exact ⟨v, CompilerVersion.wellFormed_of_parse? hp, rfl⟩

theorem slash_notMem_canonical {v : CompilerVersion} (h : v.WellFormed) :
    '/' ∉ v.canonical.toList := by
  intro hm
  rcases h.mem_canonical hm with he | he
  · exact absurd he (by decide)
  · exact absurd he (by decide)

theorem toList_nativeStart (platform : String) :
    (nativeStart platform).toList = "solc-".toList ++ (platform.toList ++ "-".toList) := by
  simp [nativeStart, toString]

theorem toList_native (platform canonical : String) :
    (nameOf platform .native canonical).toList =
      "solc-".toList ++ (platform.toList ++ "-".toList ++ canonical.toList) := by
  simp only [nameOf, String.toList_append, toList_nativeStart, List.append_assoc]

theorem toList_scripted (platform canonical : String) :
    (nameOf platform .scripted canonical).toList =
      scriptedStart.toList ++ (canonical.toList ++ scriptedEnd.toList) := by
  simp only [nameOf, String.toList_append, List.append_assoc]

theorem relative_nameOf (platform : String) (kind : BuildKind) (canonical : String) :
    FilePath.rootOf (nameOf platform kind canonical).toList = "" := by
  cases kind with
  | native => simp [toList_native, FilePath.rootOf]
  | scripted => simp [toList_scripted, scriptedStart, FilePath.rootOf]

theorem four_le_length_nameOf (platform : String) (kind : BuildKind) (canonical : String) :
    4 ≤ (nameOf platform kind canonical).toList.length := by
  cases kind with
  | native =>
    rw [toList_native, List.length_append]
    exact Nat.le_add_right_of_le (by decide)
  | scripted =>
    rw [toList_scripted, List.length_append]
    exact Nat.le_add_right_of_le (by decide)

theorem parts_scripted {platform : String} {v : CompilerVersion} (h : v.WellFormed) :
    (FilePath.ofString (nameOf platform .scripted v.canonical)).parts =
      [nameOf platform .scripted v.canonical] := by
  refine FilePath.parts_of_noSlash ?_ (Nat.le_trans (by decide) (four_le_length_nameOf ..))
  simp only [toList_scripted, List.mem_append, not_or]
  exact ⟨by decide, slash_notMem_canonical h, by decide⟩

theorem parts_native_of_noSlash {platform : String} {v : CompilerVersion} (h : v.WellFormed)
    (hslash : '/' ∉ platform.toList) :
    (FilePath.ofString (nameOf platform .native v.canonical)).parts =
      [nameOf platform .native v.canonical] := by
  refine FilePath.parts_of_noSlash ?_ (Nat.le_trans (by decide) (four_le_length_nameOf ..))
  simp only [toList_native, List.mem_append, not_or]
  exact ⟨by decide, ⟨hslash, by decide⟩, slash_notMem_canonical h⟩

/-- The name of a platform may have slashes in it; all native builds are in one directory. -/
theorem parts_native (platform : String) :
    ∃ (between : List String) (last : List Char),
      (∀ part ∈ between.head?, "solc-".toList <+: part.toList) ∧
      ∀ v : CompilerVersion, v.WellFormed →
        (FilePath.ofString (nameOf platform .native v.canonical)).parts =
          between ++ [String.ofList (last ++ v.canonical.toList)] := by
  obtain ⟨before, last, he⟩ := FilePath.pieces_append [] (nativeStart platform).toList
  refine ⟨(before.map String.ofList).filter FilePath.isKept, last, ?_, fun v hv => ?_⟩
  · intro part hp
    have hhead := FilePath.head?_pieces [] (nativeStart platform).toList
    have hnil := he [] (by simp)
    rw [List.append_nil] at hnil
    rw [hnil] at hhead
    cases before with
    | nil => simp at hp
    | cons first before =>
      have hfirst : "solc-".toList <+: first := by
        simp only [List.cons_append, List.head?_cons, Option.some.injEq, List.reverse_nil,
          List.nil_append] at hhead
        rw [hhead, toList_nativeStart]
        exact List.prefix_append _ _
      have hkept : FilePath.isKept (String.ofList first) :=
        FilePath.isKept_of_long (Nat.le_trans (by decide) hfirst.length_le)
      rw [List.map_cons, List.filter_cons_of_pos hkept, List.head?_cons, Option.mem_some_iff] at hp
      have htext : (String.ofList first).toList = first := String.toList_ofList
      rwa [← hp, htext]
  · have hpieces := he v.canonical.toList (slash_notMem_canonical hv)
    have hkept : FilePath.isKept (String.ofList (last ++ v.canonical.toList)) := by
      refine FilePath.isKept_of_long ?_
      rw [List.length_append]
      have hlong := hv.two_le_length_canonical
      omega
    simp only [FilePath.ofString, nameOf, String.toList_append, hpieces, List.map_append,
      List.filter_append, List.map_cons, List.map_nil]
    rw [List.filter_cons_of_pos hkept, List.filter_nil]

variable {root : FilePath} {platform : String} {path other : FilePath}

theorem IsPath.exists_name (h : IsPath root platform path) :
    ∃ (kind : BuildKind) (v : CompilerVersion), v.WellFormed ∧ path = ⟨root.root,
      root.parts ++ (FilePath.ofString (nameOf platform kind v.canonical)).parts⟩ := by
  obtain ⟨kind, version, h⟩ := h
  cases hn : name platform kind version with
  | error _ =>
    rw [hn] at h
    cases h
  | ok found =>
    rw [hn] at h
    cases h
    obtain ⟨v, hv, rfl⟩ := exists_of_name hn
    exact ⟨kind, v, hv, FilePath.child_of_relative (relative_nameOf platform kind v.canonical)⟩

theorem parts_cases (root : FilePath) (platform : String) :
    ∃ between : List String, (∀ part ∈ between.head?, "solc-".toList <+: part.toList) ∧
      ∀ path, IsPath root platform path → ∃ last,
        path.parts = root.parts ++ (between ++ [last]) ∨
        path.parts = root.parts ++ [last] ∧ scriptedStart.toList <+: last.toList := by
  obtain ⟨between, _, hbetween, hparts⟩ := parts_native platform
  refine ⟨between, hbetween, fun path h => ?_⟩
  obtain ⟨kind, v, hv, rfl⟩ := h.exists_name
  cases kind with
  | native => exact ⟨_, .inl (by rw [hparts v hv])⟩
  | scripted =>
    refine ⟨_, .inr ⟨by rw [parts_scripted hv], ?_⟩⟩
    rw [toList_scripted]
    exact List.prefix_append _ _

/-- Without slashes in the name of the platform, a build is known by the name of its file. -/
theorem IsPath.eq_of_fileName (hslash : '/' ∉ platform.toList) (h : IsPath root platform path)
    (ho : IsPath root platform other) (hname : path.fileName = other.fileName) : path = other := by
  have hparts {path : FilePath} (h : IsPath root platform path) :
      path = ⟨root.root, root.parts ++ [path.fileName]⟩ := by
    obtain ⟨kind, v, hv, rfl⟩ := h.exists_name
    cases kind with
    | native => simp [parts_native_of_noSlash hv hslash, FilePath.fileName]
    | scripted => simp [parts_scripted hv, FilePath.fileName]
  rw [hparts h, hparts ho, hname]

theorem IsPath.parts_ne_nil (h : IsPath root platform path) : path.parts ≠ [] := by
  obtain ⟨_, _, hparts⟩ := parts_cases root platform
  obtain ⟨last, hp | ⟨hp, _⟩⟩ := hparts path h <;> simp [hp]

/-- No build stands on the way to another one. -/
theorem IsPath.notMem_ancestry (h : IsPath root platform path) (ho : IsPath root platform other) :
    path ∉ Files.ancestry other.parent := by
  intro hm
  obtain ⟨_, _, hprefix⟩ := Files.mem_ancestry_iff.mp hm
  have hle := hprefix.length_le
  obtain ⟨between, hbetween, hparts⟩ := parts_cases root platform
  obtain ⟨last, hp⟩ := hparts path h
  obtain ⟨last', ho⟩ := hparts other ho
  simp only [FilePath.parent] at hprefix hle
  rcases ho with ho | ⟨ho, _⟩
  · rcases hp with hp | ⟨hp, hstart⟩
    · simp only [hp, ho, ← List.append_assoc, List.dropLast_concat, List.length_append,
        List.length_singleton] at hle
      omega
    · rw [hp, ho, ← List.append_assoc, List.dropLast_concat, List.prefix_append_right_inj]
        at hprefix
      obtain ⟨rest, rfl⟩ := hprefix
      have hsolc := hbetween last rfl
      -- The names of the two kinds differ in their fourth letter.
      exact absurd (List.prefix_of_prefix_length_le hsolc hstart (by decide)) (by decide)
  · simp only [ho, List.dropLast_concat] at hle
    rcases hp with hp | ⟨hp, _⟩ <;>
    · simp only [hp, List.length_append, List.length_singleton] at hle
      omega

end Artifact

end SolcDispatch
