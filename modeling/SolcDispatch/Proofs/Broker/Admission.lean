import SolcDispatch.Broker.Compile
import SolcDispatch.Proofs.Catalog.Refreshing

/-! Which requests are admitted: those for a version that the catalog knows, with a document
that can be read. The build of an admitted request is run once it is there. -/

namespace SolcDispatch.Broker

variable {b : Broker} {version : String} {input : Json} {document : StandardInput}
  {kind : BuildKind}

theorem classify_of_exists (h : b.known.exists? version) :
    ∃ kind, b.known.classify version = .ok kind := Catalog.exists?_iff_classify.mp h

theorem admission_of_unknown (h : b.known.exists? version = false) (input : Json) :
    b.admission version input = .error .unknownVersion := by
  rw [admission, h, Bool.not_false, if_pos rfl]

theorem admission_of_known (h : b.known.classify version = .ok kind) (input : Json) :
    b.admission version input = match StandardInput.parse input with
      | .error violations => .error (.invalidInput violations)
      | .ok document => .ok ⟨version, kind, document.withoutModelChecker⟩ := by
  rw [admission, Catalog.exists?_iff_classify.mpr ⟨kind, h⟩, Bool.not_true, if_neg (by decide), h]
  cases StandardInput.parse input <;> rfl

theorem admission_eq_ok {a : Admitted} (h : b.admission version input = .ok a) :
    a.version = version ∧ b.known.classify version = .ok a.kind ∧
      ∃ read, StandardInput.parse input = .ok read ∧ a.document = read.withoutModelChecker := by
  by_cases hknown : b.known.exists? version
  · obtain ⟨kind, hkind⟩ := classify_of_exists hknown
    rw [admission_of_known hkind] at h
    cases hread : StandardInput.parse input with
    | error violations =>
      rw [hread] at h
      cases h
    | ok read =>
      rw [hread] at h
      cases h
      exact ⟨rfl, hkind, read, rfl, rfl⟩
  · rw [admission_of_unknown (by simpa using hknown)] at h
    cases h

theorem admission_eq_error {failure : Failure} (h : b.admission version input = .error failure) :
    b.known.exists? version = false ∧ failure = .unknownVersion ∨
      b.known.exists? version ∧ ∃ violations, StandardInput.parse input = .error violations ∧
        failure = .invalidInput violations := by
  by_cases hknown : b.known.exists? version
  · obtain ⟨kind, hkind⟩ := classify_of_exists hknown
    rw [admission_of_known hkind] at h
    cases hread : StandardInput.parse input with
    | error violations =>
      rw [hread] at h
      exact .inr ⟨hknown, violations, rfl, (Except.error.inj h).symm⟩
    | ok read =>
      rw [hread] at h
      cases h
  · have hunknown : b.known.exists? version = false := by simpa using hknown
    rw [admission_of_unknown hunknown] at h
    exact .inl ⟨hunknown, (Except.error.inj h).symm⟩

variable {σ : Type} {around : Surroundings σ} {abandoned : Bool}

theorem compile_of_refused {failure : Failure} (h : b.admission version input = .error failure) :
    b.compile around abandoned version input =
      { ending := .finished (.error failure), broker := b } := by
  unfold compile
  rw [h]

theorem compile_of_admitted {a : Admitted} (h : b.admission version input = .ok a) :
    b.compile around abandoned version input = b.invoke around abandoned a := by
  unfold compile
  rw [h]

theorem compile_of_document (hkind : b.known.classify version = .ok kind)
    (hread : StandardInput.parse input = .ok document) :
    b.compile around abandoned version input =
      b.invoke around abandoned ⟨version, kind, document.withoutModelChecker⟩ := by
  refine compile_of_admitted ?_
  rw [admission_of_known hkind, hread]

/-- What a request comes to whose build has been run. -/
def concluded (b : Broker) (abandoned : Bool) (paths : List String) (run : Invocation) :
    Compilation :=
  let ending := b.endingOf abandoned run.outcome
  ⟨ending, run.calls, paths, (b.keepFiles run.written).recordTrace run.trace ending⟩

section

variable {paths : List String} {after : Broker} (abandoned : Bool) (kind : BuildKind)
  (document : StandardInput)

theorem invoke_of_silent (h : b.acquire around version = (none, paths, after)) :
    b.invoke around abandoned ⟨version, kind, document⟩ = ⟨.cancelled, [], paths,
      after.recordTrace { version, protocol := kind.name } .cancelled⟩ := by
  unfold invoke
  dsimp only
  rw [h]

theorem invoke_of_failed {failure : Failure}
    (h : b.acquire around version = (some (.error failure), paths, after)) :
    b.invoke around abandoned ⟨version, kind, document⟩ = ⟨.finished (.error failure), [], paths,
      after.recordTrace { version, protocol := kind.name } (.finished (.error failure))⟩ := by
  unfold invoke
  dsimp only
  rw [h]

theorem invoke_of_acquired {path : FilePath}
    (h : b.acquire around version = (some (.ok path), paths, after)) :
    b.invoke around abandoned ⟨version, kind, document⟩ = after.concluded abandoned paths
      (Invocation.run around.loader after.cache.files kind path document
        { version, protocol := kind.name }) := by
  unfold invoke concluded
  dsimp only
  rw [h]

end

end SolcDispatch.Broker
