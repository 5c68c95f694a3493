import SolcDispatch.Proofs.Files
import SolcDispatch.Proofs.Results

/-! Writing a file by way of a temporary one. Whichever step is refused, what is left besides
the directories made on the way is the whole file or nothing. -/

namespace SolcDispatch

namespace FileRun

open Files (put put_put remove_put remove_of_entry?_none entry?_put_self entry?_put_ne temporaryMode)

variable {refused : WriteStep → Bool} {files : Files} {path temporary : FilePath}
  {content : Text.Bytes} {mode : Option Nat} {entry : FileEntry}

theorem temporaryPath_ne (path : FilePath) (attempt : Nat) : temporaryPath path attempt ≠ path := by
  intro h
  have hname : (temporaryPath path attempt).fileName = "." ++ path.fileName ++ "." ++
      String.ofList (Nat.toDigits 10 (10000000 + attempt)) ++ ".tmp" := by
    simp [temporaryPath, FilePath.fileName]
  rw [h] at hname
  have hlength := congrArg String.length hname
  simp only [String.length_append] at hlength
  have hdot : ".".length = 1 := rfl
  omega

theorem temporaryPath_parts_ne_nil (path : FilePath) (attempt : Nat) :
    (temporaryPath path attempt).parts ≠ [] := by
  simp [temporaryPath]

/-- A name that is free is found, or nothing is done. -/
theorem createTemporary_cases (refused : WriteStep → Bool) (files : Files) (path : FilePath)
    (attempt attempts : Nat) :
    createTemporary refused path attempt attempts files = (.error .internal, files) ∨
    ∃ temporary, files.entry? temporary = none ∧ temporary.parts ≠ [] ∧ temporary ≠ path ∧
      createTemporary refused path attempt attempts files =
        (.ok temporary, files.put temporary (.file [] temporaryMode)) := by
  induction attempts generalizing attempt with
  | zero => exact .inl rfl
  | succ attempts ih =>
    simp only [createTemporary]
    by_cases hstop : (refused (.createTemporary attempt) ||
        Files.isTooLong (temporaryPath path attempt).fileName) = true
    · rw [if_pos hstop]
      exact .inl rfl
    · rw [if_neg hstop]
      cases hentry : files.entry? (temporaryPath path attempt) with
      | some entry => exact ih (attempt + 1)
      | none =>
        exact .inr ⟨_, hentry, temporaryPath_parts_ne_nil path attempt,
          temporaryPath_ne path attempt, rfl⟩

/-- While a temporary file is worked on, nothing else changes; all that it comes to in the
end is an error, or what is expected of it. -/
def Ends (files : Files) (temporary : FilePath) (run : FileRun Unit) (begins ends : FileEntry) : Prop :=
  (∃ entry, run (files.put temporary begins) = (.error .internal, files.put temporary entry)) ∨
    run (files.put temporary begins) = (.ok (), files.put temporary ends)

theorem writeContent_put (hne : temporary.parts ≠ []) (refused : WriteStep → Bool) (files : Files)
    (content old : Text.Bytes) (mode : Nat) :
    Ends files temporary (writeContent refused temporary content) (.file old mode)
      (.file content mode) := by
  simp only [Ends, writeContent, entry?_put_self hne, put_put]
  cases breaksOffAt? refused 0 content with
  | none => exact .inr rfl
  | some written => exact .inl ⟨_, rfl⟩

theorem setMode_put (hne : temporary.parts ≠ []) (refused : WriteStep → Bool) (files : Files)
    (content : Text.Bytes) (old mode : Nat) :
    Ends files temporary (setMode refused temporary mode) (.file content old)
      (.file content mode) := by
  simp only [Ends, setMode, entry?_put_self hne, put_put]
  by_cases hrefused : refused .setMode = true
  · exact .inl ⟨_, by rw [if_pos hrefused]⟩
  · exact .inr (by rw [if_neg hrefused])

theorem rename_put (hne : temporary.parts ≠ []) (refused : WriteStep → Bool) (files : Files)
    (path : FilePath) (entry : FileEntry) :
    rename refused temporary path (files.put temporary entry) =
        (.error .internal, files.put temporary entry) ∨
      rename refused temporary path (files.put temporary entry) =
        (.ok (), (files.remove temporary).put path entry) := by
  simp only [rename, entry?_put_self hne, remove_put]
  split
  · exact .inl rfl
  · exact .inr rfl

theorem bind_apply {α β : Type} (run : FileRun α) (next : α → FileRun β) (files : Files) :
    (run >>= next) files = match run files with
      | (.ok a, after) => next a after
      | (.error failure, after) => (.error failure, after) := by
  change (match run files with
    | (outcome, after) => ExceptT.bindCont next outcome after) = _
  cases run files with
  | mk outcome after => cases outcome <;> rfl

theorem Ends.bind {run next : FileRun Unit} {begins middle ends : FileEntry}
    (h : Ends files temporary run begins middle) (hnext : Ends files temporary next middle ends) :
    Ends files temporary (run >>= fun _ => next) begins ends := by
  obtain ⟨entry, h⟩ | h := h
  · exact .inl ⟨entry, by rw [bind_apply, h]⟩
  · rw [Ends, bind_apply, h]
    exact hnext

/-- The work on a temporary file, up to its being renamed. -/
theorem fill_put (hne : temporary.parts ≠ []) (refused : WriteStep → Bool) (files : Files)
    (content : Text.Bytes) (mode : Option Nat) :
    Ends files temporary
      (writeContent refused temporary content >>= fun _ => mode.forM (setMode refused temporary))
      (.file [] temporaryMode) (.file content (mode.getD temporaryMode)) := by
  refine (writeContent_put hne refused files content [] temporaryMode).bind ?_
  cases mode with
  | none => exact .inr rfl
  | some mode => exact setMode_put hne refused files content temporaryMode mode

/-- Where the work on a fresh temporary file ends: the file in its place, or nothing of it. -/
theorem orRemove_fill (hne : temporary.parts ≠ []) (hnone : files.entry? temporary = none)
    (refused : WriteStep → Bool) (path : FilePath) (content : Text.Bytes) (mode : Option Nat) :
    orRemove temporary (do
        writeContent refused temporary content
        mode.forM (setMode refused temporary)
        rename refused temporary path) (files.put temporary (.file [] temporaryMode)) =
      (.error .internal, files) ∨
    orRemove temporary (do
        writeContent refused temporary content
        mode.forM (setMode refused temporary)
        rename refused temporary path) (files.put temporary (.file [] temporaryMode)) =
      (.ok (), files.put path (.file content (mode.getD temporaryMode))) := by
  have hremove := remove_of_entry?_none hne hnone
  simp only [orRemove]
  rw [← bind_assoc, bind_apply]
  obtain ⟨entry, h⟩ | h := fill_put hne refused files content mode
  · rw [h]
    exact .inl (by dsimp only; rw [remove_put, hremove])
  · rw [h]
    dsimp only
    obtain h | h := rename_put hne refused files path (.file content (mode.getD temporaryMode))
    · rw [h]
      exact .inl (by dsimp only; rw [remove_put, hremove])
    · rw [h]
      exact .inr (by rw [hremove])

end FileRun

namespace Files

/-- The files after directories are made for a path, as far as they are not refused. -/
def withDirectories (refused : WriteStep → Bool) (files : Files) (path : FilePath) : Files :=
  (files.makeDirectories path.parent fun directory => refused (.makeDirectory directory)).2

variable {refused : WriteStep → Bool} {files : Files} {path other : FilePath}
  {content : Text.Bytes} {mode : Option Nat}

theorem entry?_withDirectories_cases (refused : WriteStep → Bool) (files : Files)
    (path other : FilePath) :
    entry? (files.withDirectories refused path) other = files.entry? other ∨
      files.entry? other = none ∧ other ∈ ancestry path.parent ∧
        entry? (files.withDirectories refused path) other = some .directory := by
  unfold withDirectories
  by_cases hway : other ∈ ancestry path.parent
  · rcases files.entry?_makeDirectories_cases path.parent other with he | ⟨hnone, he⟩
    · exact .inl he
    · exact .inr ⟨hnone, hway, he⟩
  · exact .inl (entry?_makeDirectories_of_notMem hway)

/-- A write leaves the files as they are but for the directories on the way, and for the
whole file if it succeeds. All that the file system refuses is told alike. -/
theorem write_cases (refused : WriteStep → Bool) (files : Files) (path : FilePath)
    (content : Text.Bytes) (mode : Option Nat) :
    write refused files path content mode = (.error .internal, files.withDirectories refused path) ∨
    write refused files path content mode =
      (.ok (), (files.withDirectories refused path).put path
        (.file content (mode.getD temporaryMode))) := by
  rw [write, FileRun.persist, FileRun.bind_apply, withDirectories]
  rcases hmade : files.makeDirectories path.parent fun directory =>
    refused (.makeDirectory directory) with ⟨failure | _, made⟩
  · have hfailure := makeDirectories_error (congrArg Prod.fst hmade)
    exact .inl (by rw [hfailure])
  · dsimp only
    rw [FileRun.bind_apply]
    obtain h | ⟨temporary, hnone, hne, -, h⟩ :=
      FileRun.createTemporary_cases refused made path 0 FileRun.maxAttempts
    · rw [h]
      exact .inl rfl
    · rw [h]
      exact FileRun.orRemove_fill hne hnone refused path content mode

theorem write_adds (hnone : files.entry? path = none) :
    Adds path files (write refused files path content mode).2 := by
  obtain he | he := write_cases refused files path content mode
  · rw [he]
    exact ⟨entry?_makeDirectories_of_some, fun _ ho => entry?_makeDirectories_of_notMem ho⟩
  · rw [he]
    refine ⟨fun {other found} ho => ?_, fun {other} hne ho => ?_⟩
    · have hne : other ≠ path := by
        rintro rfl
        rw [hnone] at ho
        cases ho
      dsimp only
      rw [entry?_put_ne hne]
      exact entry?_makeDirectories_of_some ho
    · dsimp only
      rw [entry?_put_ne hne, withDirectories, entry?_makeDirectories_of_notMem ho]

theorem entry?_write_self (hne : path.parts ≠ []) :
    (write refused files path content mode).1 = .ok () ∧
      entry? (write refused files path content mode).2 path =
        some (.file content (mode.getD temporaryMode)) ∨
    (∃ failure, (write refused files path content mode).1 = .error failure) ∧
      entry? (write refused files path content mode).2 path = files.entry? path := by
  have hself : path ∉ ancestry path.parent := by
    intro hm
    have hle := (mem_ancestry_iff.mp hm).2.2.length_le
    have hpos : 0 < path.parts.length := List.length_pos_iff.mpr hne
    simp only [FilePath.parent, List.length_dropLast] at hle
    omega
  obtain he | he := write_cases refused files path content mode
  · rw [he]
    exact .inr ⟨⟨.internal, rfl⟩, entry?_makeDirectories_of_notMem hself⟩
  · rw [he]
    exact .inl ⟨rfl, entry?_put_self hne⟩

theorem write_error {failure : Failure}
    (h : (write refused files path content mode).1 = .error failure) : failure = .internal := by
  obtain he | he := write_cases refused files path content mode
  · rw [he] at h
    exact (Except.error.inj h).symm
  · rw [he] at h
    cases h

end Files

end SolcDispatch
