import SolcDispatch.Files

/-! What stands where after entries are put and directories are made. Nothing that stands is
ever taken away. -/

namespace SolcDispatch.Files

theorem find?_remove_self (files : Files) (path : FilePath) :
    (files.remove path).find? (fun e => decide (e.1 = path)) = none := by
  simp [remove]

theorem find?_remove_ne {files : Files} {path other : FilePath} (hne : other ≠ path) :
    (files.remove path).find? (fun e => decide (e.1 = other)) =
      files.find? fun e => decide (e.1 = other) := by
  induction files with
  | nil => rfl
  | cons e files ih =>
    unfold remove at ih ⊢
    by_cases hp : e.1 = path
    · have ho : ¬ e.1 = other := fun he => hne (he.symm.trans hp)
      simp only [List.filter_cons, hp, decide_true, Bool.not_true, Bool.false_eq_true, if_false, ih,
        List.find?_cons]
      simp [← hp, ho]
    · simp only [List.filter_cons, hp, decide_false, Bool.not_false, if_true, List.find?_cons, ih]

theorem entry?_put_self {files : Files} {path : FilePath} {entry : FileEntry}
    (hne : path.parts ≠ []) : entry? (files.put path entry) path = some entry := by
  simp [put, entry?, List.find?_append, find?_remove_self, hne]

theorem entry?_put_ne {files : Files} {path other : FilePath} {entry : FileEntry}
    (hne : other ≠ path) : entry? (files.put path entry) other = files.entry? other := by
  have hlast : ([(path, entry)] : Files).find? (fun e => decide (e.1 = other)) = none := by
    simp [Ne.symm hne]
  simp only [put, entry?, List.find?_append, find?_remove_ne hne, hlast, Option.or_none]

theorem put_put (files : Files) (path : FilePath) (first second : FileEntry) :
    put (files.put path first) path second = files.put path second := by
  simp [put, remove, List.filter_append]

theorem remove_put (files : Files) (path : FilePath) (entry : FileEntry) :
    remove (files.put path entry) path = files.remove path := by
  simp [put, remove, List.filter_append]

theorem remove_of_entry?_none {files : Files} {path : FilePath} (hne : path.parts ≠ [])
    (hnone : files.entry? path = none) : files.remove path = files := by
  rw [remove, List.filter_eq_self]
  intro e he
  have hfind : files.find? (fun e => decide (e.1 = path)) = none := by
    simpa [hne, entry?] using hnone
  simpa using List.find?_eq_none.mp hfind e he

theorem mem_ancestry_iff {path other : FilePath} :
    path ∈ ancestry other ↔
      path.root = other.root ∧ path.parts ≠ [] ∧ path.parts <+: other.parts := by
  unfold ancestry
  rw [List.mem_map]
  constructor
  · rintro ⟨n, hn, rfl⟩
    have hlt := List.mem_range.mp hn
    refine ⟨rfl, fun he => ?_, List.take_prefix _ _⟩
    have hlen := congrArg List.length he
    simp only [List.length_take, List.length_nil] at hlen
    omega
  · rintro ⟨hroot, hne, hprefix⟩
    have hpos : 0 < path.parts.length := List.length_pos_iff.mpr hne
    have hle := hprefix.length_le
    refine ⟨path.parts.length - 1, List.mem_range.mpr (by omega), ?_⟩
    rw [Nat.sub_add_cancel hpos, ← List.prefix_iff_eq_take.mp hprefix, ← hroot]

def makeDirectory (refused : FilePath → Bool) (done : Except Failure Unit × Files)
    (directory : FilePath) : Except Failure Unit × Files :=
  match done with
  | (.error failure, files) => (.error failure, files)
  | (.ok _, files) => match entry? files directory with
    | some .directory => (.ok (), files)
    | some (.file ..) => (.error .internal, files)
    | none =>
      if refused directory || isTooLong directory.fileName then (.error .internal, files)
      else (.ok (), put files directory .directory)

variable {refuses : FilePath → Bool}

theorem makeDirectories_eq (files : Files) (path : FilePath) :
    files.makeDirectories path refuses =
      (ancestry path).foldl (makeDirectory refuses) (.ok (), files) := by
  unfold makeDirectories
  congr 1
  funext ⟨done, files⟩ directory
  cases done <;> rfl

theorem makeDirectory_files (done : Except Failure Unit × Files) (directory : FilePath) :
    (makeDirectory refuses done directory).2 = done.2 ∨
      entry? done.2 directory = none ∧
        (makeDirectory refuses done directory).2 = done.2.put directory .directory := by
  obtain ⟨done, files⟩ := done
  cases done with
  | error failure => exact .inl rfl
  | ok _ =>
    simp only [makeDirectory]
    cases he : files.entry? directory with
    | some entry => cases entry <;> exact .inl rfl
    | none =>
      by_cases hstop : (refuses directory || isTooLong directory.fileName) = true
      · simp only [hstop, if_true, true_or]
      · simp only [hstop, and_self, Bool.false_eq_true, if_false, or_true]

/-- What is new after directories are made is a directory. -/
theorem entry?_makeDirectories_cases (files : Files) (path other : FilePath) :
    entry? (files.makeDirectories path refuses).2 other = files.entry? other ∨
      files.entry? other = none ∧
        entry? (files.makeDirectories path refuses).2 other = some .directory := by
  rw [makeDirectories_eq]
  refine List.foldlRecOn (ancestry path) (makeDirectory refuses)
    (motive := fun done => entry? done.2 other = files.entry? other ∨
      files.entry? other = none ∧ entry? done.2 other = some .directory) ?_ ?_
  · exact .inl rfl
  intro done hdone directory _
  rcases makeDirectory_files done directory with he | ⟨hnone, he⟩
  · rwa [he]
  · rw [he]
    by_cases hself : other = directory
    · subst hself
      by_cases hroot : other.parts = []
      · simp [hroot, entry?] at hnone
      · rw [entry?_put_self hroot]
        refine .inr ⟨?_, rfl⟩
        rcases hdone with hsame | ⟨habsent, -⟩
        · rw [← hsame, hnone]
        · exact habsent
    · rwa [entry?_put_ne hself]

theorem entry?_makeDirectories_of_some {files : Files} {path other : FilePath} {found : FileEntry}
    (ho : files.entry? other = some found) :
    entry? (files.makeDirectories path refuses).2 other = some found := by
  rcases files.entry?_makeDirectories_cases path other with he | ⟨hnone, -⟩
  · rw [he, ho]
  · rw [hnone] at ho
    cases ho

theorem entry?_makeDirectories_of_notMem {files : Files} {path other : FilePath}
    (ho : other ∉ ancestry path) :
    entry? (files.makeDirectories path refuses).2 other = files.entry? other := by
  rw [makeDirectories_eq]
  suffices h : ∀ (directories : List FilePath) (done : Except Failure Unit × Files),
      other ∉ directories →
        entry? (directories.foldl (makeDirectory refuses) done).2 other = entry? done.2 other from
    h _ _ ho
  intro directories
  induction directories with
  | nil => exact fun _ _ => rfl
  | cons directory directories ih =>
    intro done hd
    rw [List.mem_cons, not_or] at hd
    obtain ⟨hne, hd⟩ := hd
    rw [List.foldl_cons, ih _ hd]
    rcases makeDirectory_files done directory with he | ⟨_, he⟩
    · rw [he]
    · rw [he, entry?_put_ne hne]

/-- What stands stays, and what is new is the path itself or a directory on the way to it. -/
structure Adds (path : FilePath) (files after : Files) : Prop where
  stays : ∀ {other found}, files.entry? other = some found → after.entry? other = some found
  apart : ∀ {other}, other ≠ path → other ∉ ancestry path.parent →
    after.entry? other = files.entry? other

theorem makeDirectory_error {done : Except Failure Unit × Files} {directory : FilePath}
    (hdone : ∀ failure, done.1 = .error failure → failure = .internal) :
    ∀ failure, (makeDirectory refuses done directory).1 = .error failure →
      failure = .internal := by
  obtain ⟨done, files⟩ := done
  cases done with
  | error failure => exact hdone
  | ok _ =>
    intro failure h
    simp only [makeDirectory] at h
    split at h
    · cases h
    · cases h
      rfl
    · split at h <;> cases h
      rfl

theorem makeDirectories_error {files : Files} {path : FilePath} {failure : Failure}
    (h : (files.makeDirectories path refuses).1 = .error failure) : failure = .internal := by
  rw [makeDirectories_eq] at h
  refine List.foldlRecOn (ancestry path) (makeDirectory refuses)
    (motive := fun done => ∀ failure, done.1 = .error failure → failure = .internal) ?_
    (fun _ hdone _ _ => makeDirectory_error hdone) failure h
  intro failure h
  cases h

theorem present_error {files : Files} {path : FilePath} {failure : Failure} (h : files.present path = .error failure) :
    failure = .internal := by
  unfold present at h
  split at h <;> cases h
  rfl

/-- A text has no fewer bytes than characters. -/
theorem length_le_utf8ByteSize (cs : List Char) : cs.length ≤ (String.ofList cs).utf8ByteSize := by
  induction cs with
  | nil => exact Nat.zero_le _
  | cons c cs ih =>
    have hpos := c.utf8Size_pos
    rw [String.ofList_cons, String.utf8ByteSize_append, String.utf8ByteSize_singleton,
      List.length_cons]
    omega

theorem isTooLong_of_length {name : String} (h : maxName < name.length) : isTooLong name := by
  have hsize := length_le_utf8ByteSize name.toList
  rw [String.ofList_toList, String.length_toList] at hsize
  exact decide_eq_true (Nat.lt_of_lt_of_le h hsize)

theorem present_of_isOverlong {files : Files} {path : FilePath} (h : isOverlong path) :
    files.present path = .error .internal := if_pos h

theorem present_of_not_isOverlong {files : Files} {path : FilePath} (h : ¬ isOverlong path) :
    files.present path = .ok (files.entry? path).isSome := if_neg h

/-- Whether a path is too long does not depend on the files. -/
theorem present_of_ok {files : Files} {path : FilePath} {found : Bool}
    (h : files.present path = .ok found) (after : Files) :
    after.present path = .ok (after.entry? path).isSome := by
  unfold present at h ⊢
  split at h
  · cases h
  · rename_i hshort
    rw [if_neg hshort]

theorem isSome_of_present {files : Files} {path : FilePath} (h : files.present path = .ok true) :
    (files.entry? path).isSome := by
  unfold present at h
  split at h
  · cases h
  · exact Except.ok.inj h

theorem entry?_of_present {files : Files} {path : FilePath}
    (h : files.present path = .ok false) : files.entry? path = none := by
  unfold present at h
  split at h
  · cases h
  · exact Option.isNone_iff_eq_none.mp (Option.isSome_eq_false_iff.mp (Except.ok.inj h))

end SolcDispatch.Files
