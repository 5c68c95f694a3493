import Mathlib.Data.List.Nodup
import SolcDispatch.Proofs.Writing

/-! When a file is written. What stands elsewhere does not matter, but for the directories on the
way, the names of temporary files and what stands under the path itself. -/

namespace SolcDispatch

namespace Files

variable {refuses : FilePath → Bool} {files after : Files} {path other : FilePath}

/-- A directory is there, or it can be made. -/
def Passable (refuses : FilePath → Bool) (files : Files) (directory : FilePath) : Prop :=
  files.entry? directory = some .directory ∨
    files.entry? directory = none ∧ (refuses directory || isTooLong directory.fileName) = false

theorem foldl_makeDirectory_error (directories : List FilePath) (failure : Failure)
    (files : Files) : directories.foldl (makeDirectory refuses) (.error failure, files) =
      (.error failure, files) := by
  induction directories with
  | nil => rfl
  | cons directory directories ih => rw [List.foldl_cons, makeDirectory, ih]

theorem entry?_foldl_makeDirectory (directories : List FilePath)
    (done : Except Failure Unit × Files) (h : entry? done.2 other = some .directory) :
    entry? (directories.foldl (makeDirectory refuses) done).2 other = some .directory := by
  refine List.foldlRecOn directories (makeDirectory refuses)
    (motive := fun done => entry? done.2 other = some .directory) h ?_
  intro done hdone directory _
  rcases makeDirectory_files done directory with he | ⟨hnone, he⟩
  · rwa [he]
  · rw [he]
    by_cases hself : other = directory
    · subst hself
      rw [hnone] at hdone
      cases hdone
    · rwa [entry?_put_ne hself]

theorem foldl_makeDirectory_ok_iff {directories : List FilePath} (hnodup : directories.Nodup)
    (hne : ∀ directory ∈ directories, directory.parts ≠ []) (files : Files) :
    (directories.foldl (makeDirectory refuses) (.ok (), files)).1 = .ok () ↔
      ∀ directory ∈ directories, Passable refuses files directory := by
  induction directories generalizing files with
  | nil => simp
  | cons directory directories ih =>
    obtain ⟨hnew, hnodup⟩ := List.nodup_cons.mp hnodup
    obtain ⟨hroot, hne⟩ := List.forall_mem_cons.mp hne
    rw [List.foldl_cons, List.forall_mem_cons]
    cases hentry : files.entry? directory with
    | some entry =>
      cases entry with
      | directory =>
        have hmade : makeDirectory refuses (.ok (), files) directory = (.ok (), files) := by
          rw [makeDirectory, hentry]
        rw [hmade, ih hnodup hne]
        exact (and_iff_right (.inl hentry)).symm
      | file content mode =>
        have hmade : makeDirectory refuses (.ok (), files) directory =
            (.error .internal, files) := by
          rw [makeDirectory, hentry]
        rw [hmade, foldl_makeDirectory_error]
        refine iff_of_false (by simp) ?_
        rintro ⟨hpass, -⟩
        simp [Passable, hentry] at hpass
    | none =>
      by_cases hstop : (refuses directory || isTooLong directory.fileName) = true
      · have hmade : makeDirectory refuses (.ok (), files) directory =
            (.error .internal, files) := by
          simp only [makeDirectory, hentry, hstop, if_true]
        rw [hmade, foldl_makeDirectory_error]
        refine iff_of_false (by simp) ?_
        rintro ⟨hpass, -⟩
        simp [Passable, hentry, hstop] at hpass
      · have hmade : makeDirectory refuses (.ok (), files) directory =
            (.ok (), files.put directory .directory) := by
          simp only [makeDirectory, hentry, hstop, if_false, Bool.false_eq_true]
        have hsame : ∀ other ∈ directories,
            Passable refuses (files.put directory .directory) other ↔
              Passable refuses files other := by
          intro other hother
          have hother : other ≠ directory := fun he => hnew (he ▸ hother)
          rw [Passable, entry?_put_ne hother, Passable]
        rw [hmade, ih hnodup hne, and_iff_right (.inr ⟨hentry, by simpa using hstop⟩)]
        exact forall₂_congr hsame

theorem nodup_ancestry (path : FilePath) : (ancestry path).Nodup := by
  unfold ancestry
  refine List.Nodup.map_on (fun n hn m hm h => ?_) List.nodup_range
  have hlength := congrArg (fun path : FilePath => path.parts.length) h
  have hn := List.mem_range.mp hn
  have hm := List.mem_range.mp hm
  simp only [List.length_take] at hlength
  omega

theorem makeDirectories_ok_iff : (files.makeDirectories path refuses).1 = .ok () ↔
    ∀ directory ∈ ancestry path, Passable refuses files directory := by
  rw [makeDirectories_eq]
  exact foldl_makeDirectory_ok_iff (nodup_ancestry path)
    (fun directory h => (mem_ancestry_iff.mp h).2.1) files

theorem entry?_of_makeDirectory_ok {directory : FilePath} (hne : directory.parts ≠ [])
    (h : (makeDirectory refuses (.ok (), files) directory).1 = .ok ()) :
    entry? (makeDirectory refuses (.ok (), files) directory).2 directory = some .directory := by
  simp only [makeDirectory] at h ⊢
  cases hentry : files.entry? directory with
  | some entry =>
    cases entry with
    | directory => exact hentry
    | file content mode =>
      rw [hentry] at h
      cases h
  | none =>
    simp only [hentry] at h ⊢
    by_cases hstop : (refuses directory || isTooLong directory.fileName) = true
    · rw [if_pos hstop] at h
      cases h
    · rw [if_neg hstop]
      exact entry?_put_self hne

/-- Once directories are made, all of them are there. -/
theorem entry?_of_makeDirectories_ok (h : (files.makeDirectories path refuses).1 = .ok ())
    (hother : other ∈ ancestry path) :
    entry? (files.makeDirectories path refuses).2 other = some .directory := by
  rw [makeDirectories_eq] at h ⊢
  have hne : ∀ directory ∈ ancestry path, directory.parts ≠ [] :=
    fun directory hd => (mem_ancestry_iff.mp hd).2.1
  generalize ancestry path = directories at h hother hne
  induction directories generalizing files with
  | nil => cases hother
  | cons directory directories ih =>
    obtain ⟨hroot, hne⟩ := List.forall_mem_cons.mp hne
    rw [List.foldl_cons] at h ⊢
    rcases hstep : makeDirectory refuses (.ok (), files) directory with ⟨failure | done, made⟩
    · rw [hstep, foldl_makeDirectory_error] at h
      cases h
    · rcases List.mem_cons.mp hother with rfl | hother
      · have hmade := entry?_of_makeDirectory_ok hroot (congrArg Prod.fst hstep)
        rw [hstep] at hmade
        exact entry?_foldl_makeDirectory directories _ hmade
      · rw [hstep] at h
        exact ih h hother hne

end Files

namespace FileRun

open Files (temporaryMode entry?_put_self entry?_put_ne put_put)

variable {refused : WriteStep → Bool} {files after : Files} {path temporary : FilePath}

/-- Which name a temporary file gets is decided by what stands under such names. -/
theorem createTemporary_congr
    (h : ∀ k, after.entry? (temporaryPath path k) = files.entry? (temporaryPath path k))
    (attempt attempts : Nat) :
    (createTemporary refused path attempt attempts after).1 =
      (createTemporary refused path attempt attempts files).1 := by
  induction attempts generalizing attempt with
  | zero => rfl
  | succ attempts ih =>
    simp only [createTemporary, h attempt]
    by_cases hstop : (refused (.createTemporary attempt) ||
        Files.isTooLong (temporaryPath path attempt).fileName) = true
    · rw [if_pos hstop, if_pos hstop]
    · rw [if_neg hstop, if_neg hstop]
      split
      · exact ih (attempt + 1)
      · rfl

/-- What has to go well for a temporary file to be filled and to take the place of the file. -/
structure Completes (refused : WriteStep → Bool) (files : Files) (path : FilePath)
    (content : Text.Bytes) (mode : Option Nat) : Prop where
  content : breaksOffAt? refused 0 content = none
  mode : mode ≠ none → refused .setMode = false
  rename : refused .rename = false
  free : files.entry? path ≠ some .directory

theorem Completes.of_self {content : Text.Bytes} {mode : Option Nat}
    (h : Completes refused files path content mode)
    (hself : after.entry? path = files.entry? path) : Completes refused after path content mode :=
  ⟨h.content, h.mode, h.rename, hself ▸ h.free⟩

theorem orRemove_fst (temporary : FilePath) (run : FileRun Unit) (files : Files) :
    (orRemove temporary run files).1 = (run files).1 := by
  rw [orRemove]
  rcases run files with ⟨failure | done, after⟩ <;> rfl

theorem rename_put_ok_iff (hne : temporary.parts ≠ []) (hother : path ≠ temporary)
    (entry : FileEntry) :
    (rename refused temporary path (files.put temporary entry)).1 = .ok () ↔
      refused .rename = false ∧ files.entry? path ≠ some .directory := by
  simp only [rename, entry?_put_self hne, entry?_put_ne hother]
  by_cases hstop : (refused .rename || decide (files.entry? path = some .directory)) = true
  · rw [if_pos hstop]
    refine iff_of_false (by simp) ?_
    rintro ⟨hrename, hfree⟩
    simp [hrename, hfree] at hstop
  · rw [if_neg hstop]
    simpa using hstop

theorem orRemove_ok_iff (hne : temporary.parts ≠ []) (hother : path ≠ temporary)
    (content : Text.Bytes) (mode : Option Nat) :
    (orRemove temporary (do
        writeContent refused temporary content
        mode.forM (setMode refused temporary)
        rename refused temporary path) (files.put temporary (.file [] temporaryMode))).1 = .ok () ↔
      Completes refused files path content mode := by
  rw [orRemove_fst, bind_apply]
  cases hcontent : breaksOffAt? refused 0 content with
  | some written =>
    have hwrite : writeContent refused temporary content
        (files.put temporary (.file [] temporaryMode)) =
        (.error .internal, files.put temporary (.file (content.take written) temporaryMode)) := by
      simp only [writeContent, entry?_put_self hne, hcontent, put_put]
    rw [hwrite]
    refine iff_of_false (by simp) fun h => ?_
    have hwhole := h.content
    rw [hcontent] at hwhole
    cases hwhole
  | none =>
    have hwrite : writeContent refused temporary content
        (files.put temporary (.file [] temporaryMode)) =
        (.ok (), files.put temporary (.file content temporaryMode)) := by
      simp only [writeContent, entry?_put_self hne, hcontent, put_put]
    rw [hwrite]
    dsimp only
    rw [bind_apply]
    cases mode with
    | none =>
      have hmode : (none : Option Nat).forM (setMode refused temporary)
          (files.put temporary (.file content temporaryMode)) =
          (.ok (), files.put temporary (.file content temporaryMode)) := rfl
      rw [hmode]
      dsimp only
      rw [rename_put_ok_iff hne hother]
      exact ⟨fun h => ⟨hcontent, fun h => absurd rfl h, h.1, h.2⟩, fun h => ⟨h.rename, h.free⟩⟩
    | some mode =>
      by_cases hstop : refused .setMode = true
      · have hmode : (some mode).forM (setMode refused temporary)
            (files.put temporary (.file content temporaryMode)) =
            (.error .internal, files.put temporary (.file content temporaryMode)) := by
          simp only [Option.forM, setMode, entry?_put_self hne, hstop, if_true]
        rw [hmode]
        refine iff_of_false (by simp) fun h => ?_
        have hset := h.mode (by simp)
        rw [hstop] at hset
        cases hset
      · have hmode : (some mode).forM (setMode refused temporary)
            (files.put temporary (.file content temporaryMode)) =
            (.ok (), files.put temporary (.file content mode)) := by
          simp only [Option.forM, setMode, entry?_put_self hne, hstop, put_put, if_false,
            Bool.false_eq_true]
        rw [hmode]
        dsimp only
        rw [rename_put_ok_iff hne hother]
        exact ⟨fun h => ⟨hcontent, fun _ => by simpa using hstop, h.1, h.2⟩,
          fun h => ⟨h.rename, h.free⟩⟩

end FileRun

namespace Files

variable {refused : WriteStep → Bool} {files after : Files} {path : FilePath}
  {content : Text.Bytes} {mode : Option Nat}

/-- Whether files are the same as before where it matters to the writing of a file; directories
on the way may have been made. -/
structure Agree (path : FilePath) (files after : Files) : Prop where
  way : ∀ directory ∈ ancestry path.parent,
    after.entry? directory = files.entry? directory ∨ after.entry? directory = some .directory
  temporary : ∀ attempt, after.entry? (FileRun.temporaryPath path attempt) =
    files.entry? (FileRun.temporaryPath path attempt)
  self : after.entry? path = files.entry? path

theorem notMem_ancestry_parent_of_length {other : FilePath}
    (h : path.parts.length ≤ other.parts.length) (hne : other.parts ≠ []) :
    other ∉ ancestry path.parent := by
  intro hm
  have hle := (mem_ancestry_iff.mp hm).2.2.length_le
  have hpos : 0 < other.parts.length := List.length_pos_iff.mpr hne
  simp only [FilePath.parent, List.length_dropLast] at hle
  omega

theorem length_temporaryPath (hne : path.parts ≠ []) (attempt : Nat) :
    (FileRun.temporaryPath path attempt).parts.length = path.parts.length := by
  have hpos : 0 < path.parts.length := List.length_pos_iff.mpr hne
  simp only [FileRun.temporaryPath, List.length_append, List.length_dropLast,
    List.length_singleton]
  omega

theorem write_ok_iff (hne : path.parts ≠ []) : (write refused files path content mode).1 = .ok () ↔
    (files.makeDirectories path.parent fun directory => refused (.makeDirectory directory)).1 =
        .ok () ∧
      (∃ temporary, (FileRun.createTemporary refused path 0 FileRun.maxAttempts files).1 =
        .ok temporary) ∧ FileRun.Completes refused files path content mode := by
  have htemporary (attempt : Nat) :
      entry? (files.makeDirectories path.parent fun directory =>
        refused (.makeDirectory directory)).2 (FileRun.temporaryPath path attempt) =
        files.entry? (FileRun.temporaryPath path attempt) :=
    entry?_makeDirectories_of_notMem (notMem_ancestry_parent_of_length
      (Nat.le_of_eq (length_temporaryPath hne attempt).symm)
      (FileRun.temporaryPath_parts_ne_nil path attempt))
  have hself : entry? (files.makeDirectories path.parent fun directory =>
      refused (.makeDirectory directory)).2 path = files.entry? path :=
    entry?_makeDirectories_of_notMem (notMem_ancestry_parent_of_length (Nat.le_refl _) hne)
  rw [write, FileRun.persist, FileRun.bind_apply]
  rcases hmade : files.makeDirectories path.parent fun directory =>
    refused (.makeDirectory directory) with ⟨failure | done, made⟩
  · exact iff_of_false (by simp) (by simp)
  · rw [hmade] at htemporary hself
    have hcreate : (FileRun.createTemporary refused path 0 FileRun.maxAttempts made).1 =
        (FileRun.createTemporary refused path 0 FileRun.maxAttempts files).1 :=
      FileRun.createTemporary_congr htemporary 0 FileRun.maxAttempts
    dsimp only
    rw [FileRun.bind_apply]
    obtain he | ⟨temporary, -, hparts, hother, he⟩ :=
      FileRun.createTemporary_cases refused made path 0 FileRun.maxAttempts
    · rw [he] at hcreate ⊢
      refine iff_of_false (by simp) ?_
      rintro ⟨-, ⟨temporary, hok⟩, -⟩
      rw [← hcreate] at hok
      cases hok
    · rw [he] at hcreate ⊢
      rw [FileRun.orRemove_ok_iff hparts hother.symm]
      constructor
      · exact fun h => ⟨rfl, ⟨temporary, hcreate.symm⟩, h.of_self hself.symm⟩
      · exact fun h => h.2.2.of_self hself

theorem write_ok_of_agree (hne : path.parts ≠ []) (h : Agree path files after)
    (hok : (write refused files path content mode).1 = .ok ()) :
    (write refused after path content mode).1 = .ok () := by
  rw [write_ok_iff hne] at hok ⊢
  obtain ⟨hmade, ⟨temporary, hcreated⟩, hcompletes⟩ := hok
  refine ⟨?_, ⟨temporary, ?_⟩, ?_⟩
  · rw [makeDirectories_ok_iff] at hmade ⊢
    intro directory hdirectory
    rcases h.way directory hdirectory with hsame | hthere
    · rw [Passable, hsame]
      exact hmade directory hdirectory
    · exact .inl hthere
  · rw [FileRun.createTemporary_congr h.temporary, hcreated]
  · exact hcompletes.of_self h.self

/-- What a write adds if it succeeds: the file, and each directory on the way that was missing. -/
theorem entry?_write_ok_iff {place : FilePath} {entry : FileEntry} (hne : path.parts ≠ [])
    (hnone : files.entry? path = none) (h : (write refused files path content mode).1 = .ok ()) :
    entry? (write refused files path content mode).2 place = some entry ↔
      files.entry? place = some entry ∨ files.entry? place = none ∧
        (place = path ∧ entry = .file content (mode.getD temporaryMode) ∨
          place ∈ ancestry path.parent ∧ entry = .directory) := by
  have hself : path ∉ ancestry path.parent := notMem_ancestry_parent_of_length (Nat.le_refl _) hne
  have hmade := ((write_ok_iff hne).mp h).1
  have hafter : (write refused files path content mode).2 =
      (files.withDirectories refused path).put path
        (.file content (mode.getD temporaryMode)) := by
    obtain he | he := write_cases refused files path content mode
    · rw [he] at h
      cases h
    · rw [he]
  rw [hafter]
  by_cases hplace : place = path
  · subst hplace
    rw [entry?_put_self hne, hnone]
    simp [hself, eq_comm]
  · rw [entry?_put_ne hplace]
    by_cases hway : place ∈ ancestry path.parent
    · have hthere := entry?_of_makeDirectories_ok hmade hway
      rw [withDirectories, hthere]
      rcases entry?_withDirectories_cases refused files path place with hsame | ⟨hbefore, -, -⟩
      · rw [← hsame, withDirectories, hthere]
        simp [eq_comm]
      · simp [hbefore, hplace, hway, eq_comm]
    · rw [withDirectories, entry?_makeDirectories_of_notMem hway]
      simp [hplace, hway]

end Files

end SolcDispatch
