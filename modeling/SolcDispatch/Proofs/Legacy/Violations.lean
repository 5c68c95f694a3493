import SolcDispatch.Proofs.Legacy.Refusal
import SolcDispatch.Proofs.StandardInput.Violations

/-! What is told of a value that is no document, and of a seed that is none. -/

namespace SolcDispatch

open StandardInput (IsInput Lists Violation)

namespace Legacy

variable {document : StandardInput} {capability : Capability}

theorem isDocument_iff_isInput {raw : Json} : IsDocument raw ↔ IsInput raw :=
  StandardInput.exists_ok_iff_isInput

/-- The seeds before the first that is no document, that seed, and all that is wrong with it. -/
structure FirstInvalid (document : StandardInput) (before : List Json) (seed : Json)
    (violations : List Violation) : Prop where
  split : ∃ after, document.seeds = before ++ seed :: after
  isInput_before : ∀ earlier ∈ before, IsInput earlier
  not_isInput : ¬ IsInput seed
  lists : Lists seed violations

theorem refused_of_invalid_seed (hcontents : HasContents document)
    (htakes : Takes capability document.sources.length)
    (h : ∃ seed ∈ document.seeds, ¬ IsInput seed) :
    ∃ before seed violations, FirstInvalid document before seed violations ∧
      Refused capability document
        (.invalidSeed before.length (violations.map Violation.text)) := by
  have hfirst := firstWith_of_exists (fun seed _ => em (IsInput seed)) h
  obtain ⟨before, seed, after, hsplit, hbefore, hseed⟩ := hfirst
  obtain ⟨violations, hlists, hparse⟩ := StandardInput.exists_lists hseed
  refine ⟨before, seed, violations, ⟨⟨after, hsplit⟩, hbefore, hseed, hlists⟩, ?_⟩
  refine .invalidSeed hcontents htakes ⟨before, seed, after, hsplit, ?_, _, hparse, rfl⟩
  exact fun earlier hmem => isDocument_iff_isInput.mpr (hbefore earlier hmem)

theorem prepare_of_valid_seeds (hcontents : HasContents document)
    (htakes : Takes capability document.sources.length)
    (hseeds : ∀ seed ∈ document.seeds, IsInput seed) :
    ∃ prepared, prepare capability document = .ok prepared := by
  cases hprepare : prepare capability document with
  | ok prepared => exact ⟨prepared, rfl⟩
  | error failure =>
    cases prepare_eq_error_iff.mp hprepare with
    | missingContent h =>
      obtain ⟨before, source, after, hsources, -, hnone, -⟩ := h
      exact absurd hnone (hcontents source (by simp [hsources]))
    | untaken _ h =>
      obtain ⟨texts, htexts⟩ := hcontents.exists_contents
      rw [(hasContents_of_contents htexts).2] at htakes h
      have hok := checkSources_eq_ok_iff.mpr htakes
      rw [checkSources_eq_error_iff.mpr h] at hok
      cases hok
    | invalidSeed _ _ h =>
      obtain ⟨before, seed, after, hsplit, -, violations, hparse, -⟩ := h
      have hmem : seed ∈ document.seeds := by simp [hsplit]
      obtain ⟨read, hread⟩ := isDocument_iff_isInput.mpr (hseeds seed hmem)
      rw [hread] at hparse
      cases hparse

/-- A value is read as a document exactly if it is one. Of any other value all that is wrong
is told, once for each place at fault and in the order of the places; and so it is for the
first seed of a legacy compilation that is no document. In a value that is read from a text no
path stands twice. -/
theorem violations_complete {τ : Type} [TextLike τ] [DecidableEq τ] [Json.LawfulTextLike τ]
    [Concatenates τ] (raw : Json τ) :
    ((∃ read, StandardInput.parse raw = .ok read) ↔ IsInput raw) ∧
    (¬ IsInput raw → ∃ violations, Lists raw violations ∧
      StandardInput.parse raw = .error (violations.map Violation.text) ∧
      ∀ v ∈ violations, TextLike.codes v.text =
        [0x2E].intercalate (v.place.map TextLike.codes) ++
          (": " ++ v.message).toList.map Char.toNat) ∧
    (raw.WellFormed → StandardInput.PathsOnce raw) ∧
    ∀ {σ : Type} (interpreter : Interpreter σ) (compileSeed : StandardInput → Run σ Unit)
      (document : StandardInput), HasContents document →
      Takes interpreter.capability document.sources.length →
      ((∀ seed ∈ document.seeds, IsInput seed) ∧
        ∃ prepared, prepare interpreter.capability document = .ok prepared) ∨
      ∃ before seed violations, FirstInvalid document before seed violations ∧
        compile interpreter compileSeed document =
          Run.fail (.invalidSeed before.length (violations.map Violation.text)) ∧
        (Failure.invalidSeed before.length (violations.map Violation.text)).violations =
          violations.map fun v => "settings.nonDeterministicSeeds." ++ toString before.length ++
            "." ++ (".".intercalate v.place ++ ": " ++ v.message) := by
  refine ⟨StandardInput.exists_ok_iff_isInput, fun hraw => ?_,
    StandardInput.pathsOnce_of_wellFormed, ?_⟩
  · obtain ⟨violations, hlists, hparse⟩ := StandardInput.exists_lists hraw
    exact ⟨violations, hlists, hparse, fun v _ => StandardInput.codes_text v⟩
  · intro σ interpreter compileSeed document hcontents htakes
    by_cases hseeds : ∀ seed ∈ document.seeds, IsInput seed
    · exact .inl ⟨hseeds, prepare_of_valid_seeds hcontents htakes hseeds⟩
    · push Not at hseeds
      obtain ⟨before, seed, violations, hfirst, hrefused⟩ :=
        refused_of_invalid_seed hcontents htakes hseeds
      refine .inr ⟨before, seed, violations, hfirst,
        compile_of_refusal interpreter compileSeed hrefused, ?_⟩
      rw [(hrefused.reports).2, List.map_map]
      exact List.map_congr_left fun v _ => by rw [Function.comp_apply, StandardInput.text_eq]

/-- Of this value the language and both sources are at fault; the name of one source holds
half a surrogate pair. -/
theorem violations_complete_three_places :
    let raw : Json Wide := .obj [(TextLike.ofString "language", .null),
      (TextLike.ofString "sources", .obj [(TextLike.ofString "a.sol", .arr []),
        (TextLike.ofCodes [0xD800], .obj [(TextLike.ofString "content", .bool true)])])]
    let document : StandardInput := ⟨"Solidity", [("a.sol", ⟨some "A", []⟩)],
      [("nonDeterministicSeeds", .arr [.obj [("sources", .obj [])], .null])], []⟩
    (¬ IsInput raw ∧ ∃ violations, Lists raw violations ∧
      StandardInput.parse raw = .error (violations.map Violation.text)) ∧
    HasContents document ∧ ∃ before seed violations,
      FirstInvalid document before seed violations ∧
      compile (rehearsed .multiSource []) (fun _ => pure ()) document =
        Run.fail (.invalidSeed before.length (violations.map Violation.text)) := by
  intro raw document
  obtain ⟨-, hlists, -, hseeds⟩ := violations_complete raw
  have hraw : ¬ IsInput raw := by
    rintro ⟨members, hmembers, hlanguage, -⟩
    rw [← Json.obj.inj hmembers] at hlanguage
    obtain ⟨t, ht⟩ := hlanguage .null rfl
    cases ht
  have hcontents : HasContents document := by simp [HasContents, document]
  obtain ⟨violations, hviolations, hparse, -⟩ := hlists hraw
  refine ⟨⟨hraw, violations, hviolations, hparse⟩, hcontents, ?_⟩
  obtain ⟨hinputs, -⟩ | ⟨before, seed, found, hfirst, hcompile, -⟩ :=
    hseeds (rehearsed .multiSource []) (fun _ => pure ()) document hcontents (.inr (.inl rfl))
  · have hnull : Json.null ∈ document.seeds := .tail _ (.head _)
    obtain ⟨members, hmembers, -⟩ := hinputs .null hnull
    cases hmembers
  · exact ⟨before, seed, found, hfirst, hcompile⟩

end Legacy

end SolcDispatch
