import SolcDispatch.Broker.Compile
import SolcDispatch.Proofs.Legacy.Seeds

/-! A compilation that has a result has an object for it, whatever build it ran. -/

namespace SolcDispatch

theorem isObject_of_readOutput {stdout stderr : String} {result : Json}
    (h : readOutput stdout stderr = .ok result) : result.isObject := by
  rw [readOutput] at h
  split at h
  · split at h <;> cases h
  · obtain ⟨read, -, h⟩ := Results.bind_eq_ok h
    by_cases hread : read.isObject
    · rw [if_pos hread] at h
      cases h
      exact hread
    · rw [if_neg hread] at h
      cases h

theorem isObject_of_readResult {optimize : Bool} {records : List Json} {printed : String}
    {result : Json} (h : Legacy.readResult optimize records printed = .ok result) :
    result.isObject := by
  obtain ⟨output, rfl⟩ := Legacy.readResult_eq_ok h
  rfl

variable {σ : Type}

theorem Run.lift_eq_ok {α : Type} {x : Except Failure α} {a : α} {start after : Progress σ}
    (h : Run.lift x start = (.ok a, after)) : x = .ok a := by
  cases x with
  | error failure => cases h
  | ok b =>
    cases h
    rfl

namespace Scripted

section Modern

variable {τ : Type} [TextLike τ] {interpreter : Interpreter σ} {document : StandardInput τ}
  {start after : Progress σ} {result : Json}

/-- The one call of a build that takes standard documents. -/
theorem compileModern_apply {text : String} (h : document.payloadText = .ok text) :
    compileModern interpreter document start =
      match interpreter.answer ⟨"standard", text, false⟩ start.state with
      | (.ok printed, state) => Run.lift (readOutput printed "")
          ⟨state, start.calls ++ [⟨"standard", text, false⟩]⟩
      | (.error stop, state) =>
        (.error stop, ⟨state, start.calls ++ [⟨"standard", text, false⟩]⟩) := by
  rw [compileModern, h, Run.bind_apply]
  change (Run.call interpreter ⟨"standard", text, false⟩ >>= fun printed =>
    Run.lift (readOutput printed "")) start = _
  rw [Run.bind_apply, Run.call]
  rcases interpreter.answer ⟨"standard", text, false⟩ start.state with ⟨answer, state⟩
  cases answer <;> rfl

theorem isObject_of_compileModern
    (h : compileModern interpreter document start = (.ok result, after)) : result.isObject := by
  rw [compileModern, Run.bind_apply] at h
  split at h
  · rw [Run.bind_apply] at h
    split at h
    · exact isObject_of_readOutput (Run.lift_eq_ok h)
    · cases h
  · cases h

end Modern

variable {interpreter : Interpreter σ} {document : StandardInput} {start after : Progress σ}
  {result : Json}

theorem compile_of_modern (h : interpreter.capability = .modern) (document : StandardInput) :
    compile interpreter document = compileModern interpreter document := by
  rw [compile, if_pos h]

theorem isObject_of_compile (h : compile interpreter document start = (.ok result, after)) :
    result.isObject := by
  by_cases hmodern : interpreter.capability = .modern
  · rw [compile_of_modern hmodern] at h
    exact isObject_of_compileModern h
  · have hlegacy := Legacy.outcome_compile hmodern document start
    rw [h] at hlegacy
    obtain ⟨before, -, prepared, records, -, -, hfinish⟩ := hlegacy
    obtain ⟨printed, hread⟩ := (Legacy.finish_cases hfinish).2 result rfl
    exact isObject_of_readResult hread

end Scripted

theorem Invocation.isObject_of_run {loader : Loader σ} {files : Files} {kind : BuildKind}
    {path : FilePath} {document : StandardInput} {trace : Trace} {result : Json}
    (h : (run loader files kind path document trace).outcome = .ok result) : result.isObject := by
  cases kind with
  | native =>
    rw [run, ofNative] at h
    split at h
    · cases h
    · dsimp only at h
      split at h
      · cases h
      · rename_i done _
        cases hread : done.output with
        | error failure =>
          rw [hread] at h
          cases h
        | ok read =>
          rw [hread] at h
          cases h
          exact isObject_of_readOutput hread
  | scripted =>
    rw [run, ofScripted] at h
    split at h
    · cases h
    · exact Scripted.isObject_of_compile (Prod.ext h rfl)

namespace Broker

variable {around : Surroundings σ} {b : Broker} {abandoned : Bool}

theorem endingOf_eq_ok {outcome : Except Stop Json} {result : Json}
    (h : b.endingOf abandoned outcome = .finished (.ok result)) : outcome = .ok result := by
  cases outcome with
  | ok read =>
    cases h
    rfl
  | error stop =>
    cases stop with
    | failed failure => cases h
    | hung => cases abandoned <;> cases h

theorem isObject_of_compile {version : String} {input result : Json}
    (h : (b.compile around abandoned version input).ending = .finished (.ok result)) :
    result.isObject := by
  unfold compile at h
  split at h
  · cases h
  · unfold invoke at h
    dsimp only at h
    split at h
    · cases h
    · cases h
    · exact Invocation.isObject_of_run (endingOf_eq_ok h)

end Broker

end SolcDispatch
