import SolcDispatch.Interpreter.Rehearsed
import SolcDispatch.Proofs.Broker.Result
import SolcDispatch.Proofs.Legacy.Faults

/-! What comes of the outputs of compilers: an object, a crash that is told in the compiler's
own words, or an error of parsing. Only numbers of too many digits and, in legacy outputs,
members of the wrong shape come to something else. -/

namespace SolcDispatch

/-- The foreseen ends of reading an output. -/
def InChannel : Except Failure Json → Prop
  | .ok result => result.isObject
  | .error failure => failure.failureClass = .compilerCrash ∨ failure.failureClass = .outputParse

section Streams

variable {stdout stderr : String} {failure : Failure}

theorem readOutput_of_blank (hout : Text.isAllBlank stdout) : readOutput stdout stderr =
    if Text.isAllBlank stderr then .error .noOutput else .error (.crashed stderr) := by
  rw [readOutput, if_pos hout]

theorem readOutput_of_printed (hout : ¬ Text.isAllBlank stdout) : readOutput stdout stderr =
    match Json.parse stdout with
    | .ok result => if result.isObject then .ok result else .error .outputNotObject
    | .error (.longInteger digits) => .error (.longInteger digits)
    | .error error => .error (.outputNotJson error) := by
  rw [readOutput, if_neg hout]
  rcases Json.parse stdout with (_ | _) | json <;> rfl

theorem readOutput_of_longInteger {digits : Nat} (hout : ¬ Text.isAllBlank stdout)
    (h : Json.parse stdout = .error (.longInteger digits)) :
    readOutput stdout stderr = .error (.longInteger digits) := by
  rw [readOutput_of_printed hout, h]

/-- The errors of reading an output: a crash, an error of parsing, or a number of too many
digits on standard output. -/
theorem readOutput_eq_error (h : readOutput stdout stderr = .error failure) :
    failure = .crashed stderr ∧ Text.isAllBlank stdout ∧ ¬ Text.isAllBlank stderr ∨
    failure.failureClass = .outputParse ∨
    ¬ Text.isAllBlank stdout ∧ ∃ digits, failure = .longInteger digits ∧
      Json.parse stdout = .error (.longInteger digits) := by
  by_cases hout : Text.isAllBlank stdout
  · rw [readOutput_of_blank hout] at h
    split at h <;> cases h
    · exact .inr (.inl rfl)
    · rename_i herr
      exact .inl ⟨rfl, hout, herr⟩
  · rw [readOutput_of_printed hout] at h
    split at h
    · split at h <;> cases h
      exact .inr (.inl rfl)
    · rename_i digits hparse
      cases h
      exact .inr (.inr ⟨hout, digits, rfl, hparse⟩)
    · cases h
      exact .inr (.inl rfl)

theorem readOutput_eq_crashed_iff : readOutput stdout stderr = .error (.crashed stderr) ↔
    Text.isAllBlank stdout ∧ ¬ Text.isAllBlank stderr := by
  constructor
  · intro h
    rcases readOutput_eq_error h with ⟨-, hblank⟩ | hclass | ⟨-, _, hdigits, -⟩
    · exact hblank
    · cases hclass
    · cases hdigits
  · rintro ⟨hout, herr⟩
    rw [readOutput_of_blank hout, if_neg herr]

theorem eq_crashed_of_readOutput (h : readOutput stdout stderr = .error failure)
    (hclass : failure.failureClass = .compilerCrash) : failure = .crashed stderr := by
  rcases readOutput_eq_error h with ⟨hcrashed, -⟩ | hparse | ⟨-, _, rfl, -⟩
  · exact hcrashed
  · rw [hparse] at hclass
    cases hclass
  · cases hclass

theorem inChannel_readOutput_iff : InChannel (readOutput stdout stderr) ↔
    Text.isAllBlank stdout ∨ ∀ digits, Json.parse stdout ≠ .error (.longInteger digits) := by
  constructor
  · intro h
    by_contra hnot
    rw [not_or, not_forall] at hnot
    obtain ⟨hout, digits, hparse⟩ := hnot
    rw [readOutput_of_longInteger hout (not_not.mp hparse)] at h
    rcases h with h | h <;> cases h
  · intro h
    cases hread : readOutput stdout stderr with
    | ok result => exact isObject_of_readOutput hread
    | error failure =>
      rcases readOutput_eq_error hread with ⟨rfl, -⟩ | hclass | ⟨hout, digits, -, hparse⟩
      · exact .inl rfl
      · exact .inr hclass
      · exact absurd hparse (h.resolve_left hout digits)

end Streams

namespace Legacy

variable {failure : Failure} {printed : String}

/-- A fault is told as an error of parsing, or it is a number of too many digits or a member of
the wrong shape. -/
def IsTold (failure : Failure) : Prop :=
  failure.failureClass = .outputParse ∨ (∃ digits, failure = .longInteger digits) ∨
    failure = .internal

theorem isTold_of_shapeFault {passes : Bool} (h : failure ∈ shapeFault passes) :
    IsTold failure := by
  cases passes with
  | false => exact .inr (.inr (List.mem_singleton.mp h))
  | true => cases h

theorem isTold_of_textFaults {wrap : Json.ParseError → Failure} {text : String}
    (hwrap : ∀ error, (wrap error).failureClass = .outputParse)
    (h : failure ∈ textFaults wrap text) : IsTold failure := by
  unfold textFaults at h
  split at h
  · cases h
  · exact .inr (.inl ⟨_, List.mem_singleton.mp h⟩)
  · rw [List.mem_singleton.mp h]
    exact .inl (hwrap _)

theorem isTold_of_contractFaults {contract : Json} (h : failure ∈ contractFaults contract) :
    IsTold failure := by
  unfold contractFaults interfaceFaults at h
  split at h
  · exact .inr (.inr (List.mem_singleton.mp h))
  · simp only [List.mem_append] at h
    rcases h with ((h | h) | h) | h
    · exact isTold_of_shapeFault h
    · split at h
      · cases h
      · split at h
        · exact isTold_of_textFaults (fun _ => rfl) h
        · exact .inr (.inr (List.mem_singleton.mp h))
    · exact isTold_of_shapeFault h
    · exact isTold_of_shapeFault h

theorem isTold_of_outputFaults {output : Json} (h : failure ∈ outputFaults output) :
    IsTold failure := by
  simp only [outputFaults, contractsFaults, sourcesFaults, List.mem_append, List.mem_flatMap] at h
  rcases h with (((h | h | ⟨entry, -, h⟩) | h) | h | h) | h
  case inl.inl.inl.inr.inr =>
    rcases List.mem_append.mp h with h | h
    · unfold faultUnless at h
      split at h
      · cases h
      · rw [List.mem_singleton.mp h]
        exact .inl rfl
    · exact isTold_of_contractFaults h
  all_goals exact isTold_of_shapeFault h

theorem isTold_of_printedFaults (h : failure ∈ printedFaults printed) : IsTold failure := by
  unfold printedFaults at h
  split at h
  · split at h
    · exact isTold_of_outputFaults h
    · rw [List.mem_singleton.mp h]
      exact .inl rfl
  · exact isTold_of_textFaults (fun _ => rfl) h

theorem inChannel_readResult_iff (optimize : Bool) (seeds : List Json) (printed : String) :
    InChannel (readResult optimize seeds printed) ↔
      (printedFaults printed).head? ≠ some .internal ∧
        ∀ digits, (printedFaults printed).head? ≠ some (.longInteger digits) := by
  have hmeets := meets_readResult optimize seeds printed
  cases hfaults : printedFaults printed with
  | nil =>
    obtain ⟨result, hresult⟩ := hmeets.exists_ok_iff.mpr hfaults
    rw [hresult]
    exact iff_of_true (isObject_of_readResult hresult) ⟨nofun, nofun⟩
  | cons failure rest =>
    have htold : IsTold failure := isTold_of_printedFaults (hfaults ▸ List.mem_cons_self)
    rw [hmeets.eq_error_iff.mpr (congrArg List.head? hfaults), List.head?_cons]
    rcases htold with hclass | ⟨digits, rfl⟩ | rfl
    · refine iff_of_true (.inr hclass) ⟨?_, fun digits => ?_⟩ <;> rintro ⟨⟩ <;> cases hclass
    · refine iff_of_false (fun h => ?_) fun h => h.2 digits rfl
      rcases h with h | h <;> cases h
    · refine iff_of_false (fun h => ?_) fun h => h.1 rfl
      rcases h with h | h <;> cases h

end Legacy

/-- A call whose answer is read stops without an answer, or where reading the answer fails. -/
theorem Run.stop_of_call {σ α : Type} {interpreter : Interpreter σ} {call : Call}
    {read : String → Except Failure α} {start after : Progress σ} {stop : Stop}
    (h : (Run.call interpreter call >>= fun printed => Run.lift (read printed)) start =
      (.error stop, after)) :
    (interpreter.answer call start.state).1 = .error stop ∨
      ∃ printed failure, (interpreter.answer call start.state).1 = .ok printed ∧
        read printed = .error failure ∧ stop = .failed failure := by
  rw [Run.bind_apply, Run.call] at h
  dsimp only at h
  cases hanswer : (interpreter.answer call start.state).1 with
  | error other =>
    rw [hanswer] at h
    cases h
    exact .inl rfl
  | ok printed =>
    rw [hanswer] at h
    dsimp only at h
    cases hread : read printed with
    | ok result =>
      rw [hread] at h
      cases h
    | error failure =>
      rw [hread] at h
      cases h
      exact .inr ⟨printed, failure, rfl, hread, rfl⟩

namespace Scripted

open Legacy

variable {σ : Type} {interpreter : Interpreter σ} {document : StandardInput}
  {start after : Progress σ} {stop : Stop} {printed : String} {failure : Failure}

/-- The fault for which a text that a scripted build returned is refused. -/
def faultOf? (capability : Capability) (printed : String) : Option Failure :=
  if capability = .modern then
    match readOutput printed "" with
    | .ok _ => none
    | .error failure => some failure
  else (printedFaults printed).head?

/-- Why the compilation of a document stops: before a build is called, because it does not
answer, or for what it returned. -/
inductive Cause (interpreter : Interpreter σ) (document : StandardInput) : Stop → Prop
  | unsent {failure : Failure} (h : document.payloadText = .error failure) :
      Cause interpreter document (.failed failure)
  | refused {d : StandardInput} {failure : Failure} (hd : d ∈ postOrder document)
      (h : prepare interpreter.capability d = .error failure) :
      Cause interpreter document (.failed failure)
  | unrecorded {d : StandardInput} {failure : Failure} (hd : d ∈ postOrder document)
      (h : d.provenance = .error failure) : Cause interpreter document (.failed failure)
  | unanswered {call : Call} {state : σ} {stop : Stop}
      (h : (interpreter.answer call state).1 = .error stop) : Cause interpreter document stop
  | printed {call : Call} {state : σ} {text : String} {failure : Failure}
      (h : (interpreter.answer call state).1 = .ok text)
      (hfault : faultOf? interpreter.capability text = some failure) :
      Cause interpreter document (.failed failure)

theorem cause_of_finish {call : Call} {records : List Json}
    (hlegacy : interpreter.capability ≠ .modern)
    (h : finish interpreter call records start = (.error stop, after)) :
    Cause interpreter document stop := by
  rcases Run.stop_of_call h with hanswer | ⟨printed, failure, hanswer, hread, rfl⟩
  · exact .unanswered hanswer
  · refine .printed hanswer ?_
    rw [faultOf?, if_neg hlegacy]
    exact (meets_readResult _ _ _).eq_error_iff.mp hread

theorem cause_of_compileModern (hmodern : interpreter.capability = .modern)
    (h : compileModern interpreter document start = (.error stop, after)) :
    Cause interpreter document stop := by
  cases htext : document.payloadText with
  | error failure =>
    rw [compileModern, htext, Run.bind_apply] at h
    cases h
    exact .unsent htext
  | ok text =>
    rw [compileModern, htext, Run.bind_apply] at h
    rcases Run.stop_of_call h with hanswer | ⟨printed, failure, hanswer, hread, rfl⟩
    · exact .unanswered hanswer
    · refine .printed hanswer ?_
      rw [faultOf?, if_pos hmodern, hread]

theorem self_mem_postOrder (document : StandardInput) : document ∈ postOrder document := by
  rw [postOrder_eq]
  exact List.mem_append_right _ (List.mem_singleton_self _)

theorem cause_of_compile (h : compile interpreter document start = (.error stop, after)) :
    Cause interpreter document stop := by
  by_cases hmodern : interpreter.capability = .modern
  · rw [compile_of_modern hmodern] at h
    exact cause_of_compileModern hmodern h
  · have hlegacy := outcome_compile hmodern document start
    rw [h] at hlegacy
    obtain ⟨called, rest, hsplit, hstopped⟩ := hlegacy
    cases hstopped with
    | refused _ hprepare =>
      refine .refused ?_ hprepare
      rw [hsplit]
      exact List.mem_append_right _ (List.mem_append_left _ (self_mem_postOrder _))
    | failed _ hturn =>
      obtain ⟨prepared, records, -, -, hfinish⟩ := hturn
      exact cause_of_finish hmodern hfinish
    | unrecorded _ hprovenance =>
      refine .unrecorded ?_ hprovenance
      rw [hsplit]
      simp

theorem isTold_of_faultOf? {capability : Capability}
    (h : faultOf? capability printed = some failure) :
    failure.failureClass = .outputParse ∨ (∃ digits, failure = .longInteger digits) ∨
      capability ≠ .modern ∧ failure = .internal := by
  unfold faultOf? at h
  split at h
  · cases hread : readOutput printed "" with
    | ok result => simp [hread] at h
    | error other =>
      rw [hread] at h
      obtain rfl := Option.some.inj h
      rcases readOutput_eq_error hread with ⟨-, -, hstderr⟩ | hclass | ⟨-, digits, hdigits, -⟩
      · exact absurd rfl hstderr
      · exact .inl hclass
      · exact .inr (.inl ⟨digits, hdigits⟩)
  · rename_i hlegacy
    rcases isTold_of_printedFaults (List.mem_of_mem_head? h) with h | h | h
    · exact .inl h
    · exact .inr (.inl h)
    · exact .inr (.inr ⟨hlegacy, h⟩)

end Scripted

/-- An output stays in the channel exactly if no number of too many digits is read in it and, for
a legacy build, the first of its faults is no member of the wrong shape. A compilation stops for
such an output, or without one. -/
theorem inChannel_iff_readable {σ : Type} (interpreter : Interpreter σ) (document : StandardInput)
    (start : Progress σ) (optimize : Bool) (seeds : List Json) (stdout stderr printed : String) :
    ((readOutput stdout stderr = .error (.crashed stderr) ↔
        Text.isAllBlank stdout ∧ ¬ Text.isAllBlank stderr) ∧
      (∀ failure, readOutput stdout stderr = .error failure →
        failure.failureClass = .compilerCrash → failure = .crashed stderr) ∧
      (InChannel (readOutput stdout stderr) ↔
        Text.isAllBlank stdout ∨ ∀ digits, Json.parse stdout ≠ .error (.longInteger digits))) ∧
    (((∃ result, Legacy.readResult optimize seeds printed = .ok result) ↔
        Legacy.printedFaults printed = []) ∧
      (∀ failure, Legacy.readResult optimize seeds printed = .error failure ↔
        (Legacy.printedFaults printed).head? = some failure) ∧
      (InChannel (Legacy.readResult optimize seeds printed) ↔
        (Legacy.printedFaults printed).head? ≠ some .internal ∧
          ∀ digits, (Legacy.printedFaults printed).head? ≠ some (.longInteger digits))) ∧
    (∀ failure, Scripted.faultOf? interpreter.capability printed = some failure →
      failure.failureClass = .outputParse ∨ (∃ digits, failure = .longInteger digits) ∨
        interpreter.capability ≠ .modern ∧ failure = .internal) ∧
    match (Scripted.compile interpreter document start).1 with
    | .ok result => result.isObject
    | .error stop => Scripted.Cause interpreter document stop := by
  have hmeets := Legacy.meets_readResult optimize seeds printed
  refine ⟨⟨readOutput_eq_crashed_iff, fun _ h hclass => eq_crashed_of_readOutput h hclass,
      inChannel_readOutput_iff⟩,
    ⟨hmeets.exists_ok_iff, fun _ => hmeets.eq_error_iff,
      Legacy.inChannel_readResult_iff optimize seeds printed⟩,
    fun _ h => Scripted.isTold_of_faultOf? h, ?_⟩
  rcases hrun : Scripted.compile interpreter document start with ⟨stop | result, after⟩
  · exact Scripted.cause_of_compile hrun
  · exact Scripted.isObject_of_compile hrun

/-- There is no contract under its name. -/
theorem not_inChannel_of_null_contract :
    let printed := "\x7b\"contracts\":\x7b\"A\":null\x7d\x7d"
    Legacy.printedFaults printed = [.internal] ∧
      Legacy.readResult false [] printed = .error .internal ∧
      ¬ InChannel (Legacy.readResult false [] printed) := by
  intro printed
  let output : Json := .obj [("contracts", .obj [("A", .null)])]
  have hwhole : output.WellFormed := by
    simp [output, Json.WellFormed, Json.WellFormedMembers]
  have hparse : Json.parse printed = .ok output := by
    rw [show printed = Json.print Json.compact output by decide]
    exact Json.parse_print Json.isPlain_compact hwhole
  have hfaults : Legacy.printedFaults printed = [.internal] := by
    rw [Legacy.printedFaults, hparse]
    decide
  have hread : Legacy.readResult false [] printed = .error .internal :=
    (Legacy.meets_readResult false [] printed).eq_error_iff.mpr (congrArg List.head? hfaults)
  refine ⟨hfaults, hread, ?_⟩
  rw [hread]
  rintro (h | h) <;> cases h

end SolcDispatch
