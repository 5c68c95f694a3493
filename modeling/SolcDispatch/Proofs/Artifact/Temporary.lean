import SolcDispatch.Proofs.Artifact.Names
import SolcDispatch.Proofs.Writing

/-! Temporary files of builds. None has the name of a build, or of a directory on the way to one. -/

namespace SolcDispatch

theorem FileRun.parts_temporaryPath (path : FilePath) (attempt : Nat) :
    ∃ mark : List Char, (temporaryPath path attempt).parts =
      path.parts.dropLast ++ [String.ofList ('.' :: (path.fileName.toList ++ mark))] := by
  refine ⟨".".toList ++ (Nat.toDigits 10 (10000000 + attempt) ++ ".tmp".toList), ?_⟩
  rw [temporaryPath]
  refine congrArg (fun name => path.parts.dropLast ++ [name]) (String.toList_injective ?_)
  simp

namespace Artifact

variable {root path other : FilePath} {platform : String}

/-- A point before a text with the letter in it shifts the text. -/
theorem point_append_ne (front rest more : List Char) :
    '.' :: (front ++ 'v' :: rest) ≠ front ++ 'v' :: more := by
  intro h
  induction front with
  | nil => exact absurd (List.cons.inj h).1 (by decide)
  | cons c front ih =>
    obtain ⟨rfl, hrest⟩ := List.cons.inj h
    exact ih hrest

theorem canonical_begins (v : CompilerVersion) : ∃ rest, v.canonical.toList = 'v' :: rest := by
  simp [CompilerVersion.canonical, toString]

/-- What is below the root on the way to a build begins with the letter that both kinds of names
begin with. -/
theorem first_parts_nameOf (platform : String) {v : CompilerVersion} (hv : v.WellFormed)
    (kind : BuildKind) :
    ∃ first rest, (FilePath.ofString (nameOf platform kind v.canonical)).parts =
      String.ofList ('s' :: first) :: rest := by
  cases kind with
  | native =>
    obtain ⟨first, hfirst, more, rfl⟩ := head_parts_native platform v.canonical
    obtain ⟨rest, hrest⟩ := List.head?_eq_some_iff.mp hfirst
    exact ⟨_, rest, hrest⟩
  | scripted =>
    refine ⟨"oljson-".toList ++ (v.canonical.toList ++ scriptedEnd.toList), [], ?_⟩
    rw [parts_scripted hv]
    refine congrArg (fun name => [name]) (String.toList_injective ?_)
    rw [toList_scripted, String.toList_ofList]
    rfl

theorem ofList_point_ne {first second : List Char} :
    String.ofList ('.' :: first) ≠ String.ofList ('s' :: second) := by
  intro h
  exact absurd (List.cons.inj (String.ofList_injective h)).1 (by decide)

/-- No build, and no directory on the way to one, has the path of a temporary file of a build. -/
theorem IsPath.not_temporary_prefix (h : IsPath root platform path)
    (ho : IsPath root platform other) (attempt : Nat) :
    ¬ (FileRun.temporaryPath path attempt).parts <+: other.parts := by
  intro hstarts
  obtain ⟨mark, hmark⟩ := FileRun.parts_temporaryPath path attempt
  obtain ⟨kind, v, hv, hpath⟩ := h.exists_name
  obtain ⟨second, w, hw, hother⟩ := ho.exists_name
  obtain ⟨first, rest, hfirst⟩ := first_parts_nameOf platform hw second
  cases kind with
  | scripted =>
    have hparts : path.parts.dropLast = root.parts := by
      rw [hpath, parts_scripted hv, List.dropLast_concat]
    rw [hmark, hparts, hother, hfirst, List.prefix_append_right_inj] at hstarts
    exact ofList_point_ne (List.cons_prefix_cons.mp hstarts).1
  | native =>
    obtain ⟨between, last, -, hnative⟩ := parts_native platform
    have hparts : path.parts =
        root.parts ++ (between ++ [String.ofList (last ++ v.canonical.toList)]) := by
      rw [hpath, hnative v hv]
    have hname : path.fileName = String.ofList (last ++ v.canonical.toList) := by
      rw [FilePath.fileName, hparts, ← List.append_assoc, List.getLastD_concat]
    have hfront : path.parts.dropLast = root.parts ++ between := by
      rw [hparts, ← List.append_assoc, List.dropLast_concat]
    rw [hmark, hfront, hother, List.append_assoc, List.prefix_append_right_inj] at hstarts
    cases second with
    | native =>
      rw [hnative w hw, List.prefix_append_right_inj] at hstarts
      have hsame := String.ofList_injective (List.cons_prefix_cons.mp hstarts).1
      obtain ⟨front, hfront⟩ := canonical_begins v
      obtain ⟨more, hmore⟩ := canonical_begins w
      rw [hname, String.toList_ofList, hfront, hmore, List.append_assoc, List.cons_append] at hsame
      exact point_append_ne last _ more hsame
    | scripted =>
      cases between with
      | nil =>
        rw [hfirst] at hstarts
        exact ofList_point_ne (List.cons_prefix_cons.mp hstarts).1
      | cons part between =>
        have hle := hstarts.length_le
        rw [parts_scripted hw] at hle
        simp only [List.length_cons, List.length_append, List.length_nil] at hle
        omega

theorem IsPath.temporary_ne (h : IsPath root platform path) (ho : IsPath root platform other)
    (attempt : Nat) : FileRun.temporaryPath path attempt ≠ other := by
  intro he
  exact h.not_temporary_prefix ho attempt (he ▸ List.prefix_rfl)

theorem IsPath.temporary_notMem_ancestry (h : IsPath root platform path)
    (ho : IsPath root platform other) (attempt : Nat) :
    FileRun.temporaryPath path attempt ∉ Files.ancestry other.parent := by
  intro hm
  have hstarts := (Files.mem_ancestry_iff.mp hm).2.2
  exact h.not_temporary_prefix ho attempt
    (List.IsPrefix.trans hstarts (List.dropLast_prefix other.parts))

end Artifact

end SolcDispatch
