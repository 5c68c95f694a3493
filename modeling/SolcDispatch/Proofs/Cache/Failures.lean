import SolcDispatch.Proofs.Cache.SingleFlight

/-! What the answer to a request for a build can be, if it is an error: the version is not
known, the depot did not deliver, or the file system refused. -/

namespace SolcDispatch

def Failure.IsOfDownload (failure : Failure) : Prop :=
  failure.failureClass = .acquisition ∨ failure.failureClass = .internal

namespace Cache

def FailsAsDownloads (cache : Cache) : Prop :=
  ∀ d ∈ cache.downloads, ∀ failure, d.outcome = some (.error failure) → failure.IsOfDownload

variable {cache : Cache} {known : Snapshot} {version : String} {failure : Failure}

theorem isOfDownload_of_result {refused : WriteStep → Bool} {files : Files} {d : Download}
    {fetched : Fetched} (h : (result refused files d fetched).1 = some (.error failure)) :
    failure.IsOfDownload := by
  cases fetched with
  | silence => cases h
  | failed reason =>
    cases h
    exact .inl rfl
  | response r =>
    simp only [result] at h
    by_cases hs : r.status = 200
    · rw [if_pos hs] at h
      rcases hw : files.write refused d.path (kept d.kind r).1 (kept d.kind r).2 with ⟨_ | _, after⟩
      · obtain rfl := Files.write_error (congrArg Prod.fst hw)
        rw [hw] at h
        cases h
        exact .inr rfl
      · rw [hw] at h
        cases h
    · rw [if_neg hs] at h
      cases h
      exact .inl rfl

theorem FailsAsDownloads.request (h : cache.FailsAsDownloads) :
    (cache.request known version).2.FailsAsDownloads := by
  rcases cache.request_cases known version with
    ⟨_, hr, -⟩ | ⟨kind, path, -, -, ⟨-, hr⟩ | ⟨-, hr⟩⟩
  · rwa [hr]
  · rwa [hr]
  · rw [hr, join]
    split
    · exact h
    · intro d hd failure ho
      rcases List.mem_append.mp hd with hd | hd
      · exact h d hd failure ho
      · rw [List.mem_singleton.mp hd] at ho
        cases ho

theorem FailsAsDownloads.complete (h : cache.FailsAsDownloads) (refused : WriteStep → Bool)
    (n : Nat) (fetched : Fetched) : (cache.complete refused n fetched).FailsAsDownloads := by
  unfold Cache.complete
  split
  · exact h
  · split
    · intro d hd failure ho
      rcases List.mem_or_eq_of_mem_set hd with hd | rfl
      · exact h d hd failure ho
      · exact isOfDownload_of_result ho
    · exact h

theorem FailsAsDownloads.forget (h : cache.FailsAsDownloads) (name : String) :
    (cache.forget name).FailsAsDownloads := h

/-- A version is never refused here because its text is not one: the catalog sees to it. -/
theorem failureClass_of_request
    (h : (cache.request known version).1 = .ready (.error failure)) :
    failure = .unknownVersion ∨ failure = .internal := by
  rcases cache.request_cases known version with
    ⟨refusal, hr, hrefuses⟩ | ⟨kind, path, -, -, ⟨-, hr⟩ | ⟨-, hr⟩⟩
  · rw [hr] at h
    cases h
    exact hrefuses.imp And.left And.left
  · rw [hr] at h
    cases h
  · rw [hr, join] at h
    split at h <;> cases h

end Cache

namespace Sharing

variable {files : Files} {events : List Event} {s : Sharing}

theorem failsAsDownloads_step (h : s.cache.FailsAsDownloads) (event : Event) :
    (s.step event).cache.FailsAsDownloads := by
  cases event with
  | refresh known => exact h
  | ask version => exact h.request
  | complete n refused fetched => exact h.complete refused n fetched
  | forget n =>
    unfold step
    dsimp only
    split
    · exact h
    · split
      · exact h
      · exact h.forget _
  | cancel n => exact h

theorem failsAsDownloads_run (h : s.cache.FailsAsDownloads) (events : List Event) :
    (s.run events).cache.FailsAsDownloads := by
  induction events generalizing s with
  | nil => exact h
  | cons event events ih => exact ih (failsAsDownloads_step h event)

/-- No caller is ever told that a text is not a version. -/
theorem Ends.failureClass_ne_value {c : Caller} {failure : Failure}
    (h : Ends files events s c (.error failure)) (hs : s.cache.FailsAsDownloads) :
    failure.failureClass ≠ .value := by
  cases h with
  | failed _ _ hd _ hfailed =>
    rcases hs _ (List.mem_of_getElem? hd) failure hfailed with he | he <;> rw [he] <;> decide
  | refused _ hrefused => rcases hrefused with ⟨rfl, -⟩ | ⟨rfl, -⟩ <;> decide

end Sharing

end SolcDispatch
