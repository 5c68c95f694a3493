import SolcDispatch.Proofs.Legacy.Seeds

/-! What a legacy build refuses, and that it does so before anything happens. -/

namespace SolcDispatch.Legacy

section First

variable {α : Type} {passes : α → Prop} {found : Nat → α → Prop} {x : α} {xs : List α}

/-- Something is found at an index of a list, and all before it passes. -/
def FirstWith (passes : α → Prop) (found : Nat → α → Prop) (xs : List α) : Prop :=
  ∃ before x after, xs = before ++ x :: after ∧ (∀ y ∈ before, passes y) ∧ found before.length x

theorem not_firstWith_nil : ¬ FirstWith passes found [] := by
  rintro ⟨before, x, after, h, -⟩
  simp at h

theorem firstWith_cons_iff :
    FirstWith passes found (x :: xs) ↔
      found 0 x ∨ (passes x ∧ FirstWith passes (fun index => found (index + 1)) xs) := by
  constructor
  · rintro ⟨before, y, after, hsplit, hbefore, hfound⟩
    cases before with
    | nil =>
      obtain ⟨rfl, -⟩ := List.cons.inj hsplit
      exact .inl hfound
    | cons z before =>
      obtain ⟨rfl, htail⟩ := List.cons.inj hsplit
      refine .inr ⟨hbefore _ List.mem_cons_self, before, y, after, htail, ?_, hfound⟩
      exact fun y hy => hbefore y (List.mem_cons_of_mem _ hy)
  · rintro (hfound | ⟨hx, before, y, after, rfl, hbefore, hfound⟩)
    · exact ⟨[], x, xs, rfl, by simp, hfound⟩
    · refine ⟨x :: before, y, after, rfl, ?_, hfound⟩
      exact List.forall_mem_cons.mpr ⟨hx, hbefore⟩

theorem firstWith_of_exists {bad : α → Prop} (hcases : ∀ y ∈ xs, passes y ∨ bad y)
    (h : ∃ y ∈ xs, bad y) : FirstWith passes (fun _ => bad) xs := by
  induction xs with
  | nil => simp at h
  | cons y ys ih =>
    rw [firstWith_cons_iff]
    rcases hcases y List.mem_cons_self with hpasses | hbad
    · obtain ⟨z, hz, hbad⟩ := h
      rcases List.mem_cons.mp hz with rfl | hz
      · exact .inl hbad
      · exact .inr ⟨hpasses, ih (fun w hw => hcases w (List.mem_cons_of_mem _ hw)) ⟨z, hz, hbad⟩⟩
    · exact .inl hbad

end First

variable {σ : Type} {document : StandardInput} {capability : Capability} {failure : Failure}

def HasContents (document : StandardInput) : Prop :=
  ∀ source ∈ document.sources, source.2.content ≠ none

/-- Whether the convention has an entrypoint that takes so many sources. -/
def Takes (capability : Capability) (sources : Nat) : Prop :=
  capability = .callback ∨ capability = .multiSource ∨ (capability = .singleSource ∧ sources = 1)

def IsDocument (raw : Json) : Prop := ∃ read, StandardInput.parse raw = .ok read

/-- Why a convention cannot take so many sources. -/
inductive Untaken (capability : Capability) (sources : Nat) : Failure → Prop
  | noInterface : capability = .unsupported → Untaken capability sources .noInterface
  | severalSources :
      capability = .singleSource → 1 < sources → Untaken capability sources .severalSources
  | noSources : capability = .singleSource → sources = 0 → Untaken capability sources .noSources
  | modernBuild : capability = .modern → Untaken capability sources .modernBuild

/-- Why a document is refused: each reason counts only where none before it holds. -/
inductive Refused (capability : Capability) (document : StandardInput) (failure : Failure) : Prop
  | missingContent :
      FirstWith (fun source => source.2.content ≠ none)
        (fun _ source => source.2.content = none ∧ failure = .missingContent source.1)
        document.sources → Refused capability document failure
  | untaken :
      HasContents document → Untaken capability document.sources.length failure →
      Refused capability document failure
  | invalidSeed :
      HasContents document → Takes capability document.sources.length →
      FirstWith IsDocument
        (fun index raw => ∃ violations, StandardInput.parse raw = .error violations ∧
          failure = .invalidSeed index violations)
        document.seeds → Refused capability document failure

/-- How a refusal is reported: its class, and the places at fault. -/
def Reports : Failure → Prop
  | .missingContent path =>
    (Failure.missingContent path).failureClass = .inputValidation ∧
      (Failure.missingContent path).violations = ["sources." ++ path ++ ".content: missing"]
  | .noInterface => Failure.noInterface.failureClass = .unsupportedLegacyConfig
  | .severalSources => Failure.severalSources.failureClass = .unsupportedLegacyConfig
  | .noSources => Failure.noSources.failureClass = .inputValidation
  | .modernBuild => Failure.modernBuild.failureClass = .invocation
  | .invalidSeed index violations =>
    (Failure.invalidSeed index violations).failureClass = .inputValidation ∧
      (Failure.invalidSeed index violations).violations =
        violations.map fun v => "settings.nonDeterministicSeeds." ++ toString index ++ "." ++ v
  | _ => False

theorem Refused.reports (h : Refused capability document failure) : Reports failure := by
  obtain ⟨_, _, _, -, -, -, rfl⟩ | ⟨-, huntaken⟩ | ⟨-, -, _, _, _, -, -, _, -, rfl⟩ := h
  · exact ⟨rfl, rfl⟩
  · cases huntaken <;> rfl
  · exact ⟨rfl, rfl⟩

theorem contents_eq_error_iff {sources : List (String × SourceEntry)} :
    contents sources = .error failure ↔
      FirstWith (fun source => source.2.content ≠ none)
        (fun _ source => source.2.content = none ∧ failure = .missingContent source.1)
        sources := by
  induction sources with
  | nil => simp [contents, not_firstWith_nil]
  | cons first rest ih =>
    obtain ⟨path, entry⟩ := first
    rw [firstWith_cons_iff, ← ih]
    cases hcontent : entry.content with
    | none => simp [contents, hcontent, eq_comm]
    | some text => cases hrest : contents rest <;> simp [contents, hcontent, hrest, Except.map]

theorem readSeeds_eq_error_iff {index : Nat} {raws : List Json} :
    readSeeds index raws = .error failure ↔
      FirstWith IsDocument (fun i raw => ∃ violations, StandardInput.parse raw = .error violations ∧
        failure = .invalidSeed (i + index) violations) raws := by
  induction raws generalizing index with
  | nil => simp [readSeeds, not_firstWith_nil]
  | cons raw rest ih =>
    have hshift (i : Nat) : i + 1 + index = i + (index + 1) := by omega
    rw [firstWith_cons_iff]
    simp only [hshift]
    rw [← ih]
    cases hparse : StandardInput.parse raw with
    | error violations => simp [readSeeds, hparse, IsDocument, eq_comm]
    | ok seed =>
      cases hrest : readSeeds (index + 1) rest <;>
        simp [readSeeds, hparse, hrest, IsDocument, Except.map]

theorem checkSources_eq_error_iff {texts : List (String × String)} :
    checkSources capability texts = .error failure ↔ Untaken capability texts.length failure := by
  constructor
  · intro h
    cases capability with
    | modern =>
      cases h
      exact .modernBuild rfl
    | callback => cases h
    | multiSource => cases h
    | singleSource =>
      by_cases hseveral : 1 < texts.length
      · simp only [checkSources, if_pos hseveral] at h
        cases h
        exact .severalSources rfl hseveral
      · rw [checkSources, if_neg hseveral] at h
        cases texts with
        | nil =>
          cases h
          exact .noSources rfl rfl
        | cons first rest => cases h
    | unsupported =>
      cases h
      exact .noInterface rfl
  · rintro (rfl | ⟨rfl, hseveral⟩ | ⟨rfl, hnone⟩ | rfl)
    · rfl
    · simp only [checkSources, if_pos hseveral]
    · rw [List.length_eq_zero_iff] at hnone
      rw [hnone]
      rfl
    · rfl

theorem checkSources_eq_ok_iff {texts : List (String × String)} :
    checkSources capability texts = .ok () ↔ Takes capability texts.length := by
  cases capability with
  | singleSource =>
    by_cases hone : texts.length = 1
    · have hne : texts ≠ [] := by
        rintro rfl
        cases hone
      simp [checkSources, Takes, hone, hne]
    · by_cases hseveral : 1 < texts.length
      · simp [checkSources, Takes, hone, hseveral]
      · have hnil : texts = [] := List.length_eq_zero_iff.mp (by omega)
        simp [checkSources, Takes, hnil]
  | _ => simp [checkSources, Takes]

theorem HasContents.exists_contents (h : HasContents document) :
    ∃ texts, contents document.sources = .ok texts := by
  cases hcontents : contents document.sources with
  | ok texts => exact ⟨texts, rfl⟩
  | error failure =>
    obtain ⟨before, source, after, hsources, -, hnone, -⟩ := contents_eq_error_iff.mp hcontents
    exact absurd hnone (h source (by simp [hsources]))

theorem hasContents_of_contents {texts : List (String × String)}
    (h : contents document.sources = .ok texts) :
    HasContents document ∧ document.sources.length = texts.length := by
  have hmap := (contents_eq_ok h).2
  refine ⟨fun source hsource hnone => ?_, by simpa using congrArg List.length hmap⟩
  have hmem : (source.1, source.2.content) ∈ texts.map fun t => (t.1, some t.2) := by
    rw [← hmap]
    exact List.mem_map.mpr ⟨source, hsource, rfl⟩
  obtain ⟨text, -, htext⟩ := List.mem_map.mp hmem
  have hcontent := congrArg Prod.snd htext
  rw [hnone] at hcontent
  cases hcontent

theorem prepare_eq_error_iff :
    prepare capability document = .error failure ↔ Refused capability document failure := by
  simp only [prepare, Results.bind_eq_error_iff]
  constructor
  · rintro (hmissing | ⟨texts, htexts, huntaken | ⟨⟨⟩, htakes, hseed | ⟨seeds, -, hmade⟩⟩⟩)
    · exact .missingContent (contents_eq_error_iff.mp hmissing)
    · obtain ⟨hall, hlength⟩ := hasContents_of_contents htexts
      exact .untaken hall (hlength ▸ checkSources_eq_error_iff.mp huntaken)
    · obtain ⟨hall, hlength⟩ := hasContents_of_contents htexts
      exact .invalidSeed hall (hlength ▸ checkSources_eq_ok_iff.mp htakes)
        (readSeeds_eq_error_iff.mp hseed)
    · cases hmade
  · rintro (hmissing | ⟨hall, huntaken⟩ | ⟨hall, htakes, hseed⟩)
    · exact .inl (contents_eq_error_iff.mpr hmissing)
    · obtain ⟨texts, htexts⟩ := hall.exists_contents
      rw [(hasContents_of_contents htexts).2] at huntaken
      exact .inr ⟨texts, htexts, .inl (checkSources_eq_error_iff.mpr huntaken)⟩
    · obtain ⟨texts, htexts⟩ := hall.exists_contents
      rw [(hasContents_of_contents htexts).2] at htakes
      exact .inr ⟨texts, htexts, .inr ⟨(), checkSources_eq_ok_iff.mpr htakes,
        .inl (readSeeds_eq_error_iff.mpr hseed)⟩⟩

theorem compile_of_refusal (interpreter : Interpreter σ) (compileSeed : StandardInput → Run σ Unit)
    (h : Refused interpreter.capability document failure) :
    compile interpreter compileSeed document = Run.fail failure :=
  compile_of_unprepared (prepare_eq_error_iff.mpr h)

/-- The first effect of a run: compiling the first seed, or the document's own call. -/
def Begins (interpreter : Interpreter σ) (compileSeed : StandardInput → Run σ Unit)
    (document : StandardInput) (run : Run σ Json) : Prop :=
  match seedsOf document with
  | [] => ∃ more : String → Run σ Json,
      run = Run.call interpreter (callOf interpreter.capability document) >>= more
  | first :: _ => ∃ more : Unit → Run σ Json, run = compileSeed first >>= more

section Begins

variable {interpreter : Interpreter σ} {compileSeed : StandardInput → Run σ Unit}
  {prepared : Prepared}

theorem compile_begins (h : prepare interpreter.capability document = .ok prepared) :
    Begins interpreter compileSeed document (compile interpreter compileSeed document) := by
  rw [compile_of_prepare h, Begins, ← prepare_seeds h, ← prepare_call h]
  cases prepared.seeds with
  | nil =>
    rw [List.mapM_nil, pure_bind]
    exact ⟨_, rfl⟩
  | cons first rest =>
    rw [List.mapM_cons, bind_assoc, compileRecord, bind_assoc]
    exact ⟨_, rfl⟩

end Begins

/-- Compiling a seed, with a record kept of it. -/
def watched (compileSeed : StandardInput → Run σ Unit) (seed : StandardInput) :
    Run (σ × List StandardInput) Unit := fun progress =>
  let (outcome, after) := compileSeed seed ⟨progress.state.1, progress.calls⟩
  (outcome, ⟨(after.state, progress.state.2 ++ [seed]), after.calls⟩)

/-- Nothing was called, and no seed was compiled. -/
structure Quiet (start after : Progress (σ × List StandardInput)) : Prop where
  calls : after.calls = start.calls
  seeds : after.state.2 = start.state.2

/-- A run that strikes nothing off the record of seeds. -/
def Keeps {α : Type} (run : Run (σ × List StandardInput) α) : Prop :=
  ∀ start, start.state.2 <+: (run start).2.state.2

section Keeps

variable {α β : Type} {run : Run (σ × List StandardInput) α}

theorem Keeps.bind {next : α → Run (σ × List StandardInput) β} (h : Keeps run)
    (hnext : ∀ a, Keeps (next a)) : Keeps (run >>= next) := by
  intro start
  have hfirst := h start
  rw [Run.bind_apply]
  rcases hrun : run start with ⟨outcome, middle⟩
  rw [hrun] at hfirst
  cases outcome with
  | error stop => exact hfirst
  | ok a => exact hfirst.trans (hnext a middle)

theorem keeps_pure (a : α) : Keeps (pure a : Run (σ × List StandardInput) α) :=
  fun _ => List.prefix_rfl

theorem keeps_lift (x : Except Failure α) :
    Keeps (Run.lift x : Run (σ × List StandardInput) α) := by
  cases x <;> exact fun _ => List.prefix_rfl

theorem keeps_call (interpreter : Interpreter σ) (call : Call) :
    Keeps (Run.call (recordSeeds interpreter) call) :=
  fun _ => List.prefix_rfl

theorem keeps_watched (compileSeed : StandardInput → Run σ Unit) (seed : StandardInput) :
    Keeps (watched compileSeed seed) :=
  fun start => List.prefix_append start.state.2 [seed]

theorem keeps_mapM {f : StandardInput → Run (σ × List StandardInput) β} (h : ∀ seed, Keeps (f seed))
    (seeds : List StandardInput) : Keeps (seeds.mapM f) := by
  induction seeds with
  | nil => exact keeps_pure []
  | cons seed seeds ih =>
    rw [List.mapM_cons]
    exact (h seed).bind fun _ => ih.bind fun _ => keeps_pure _

end Keeps

section Watched

variable {interpreter : Interpreter σ} {compileSeed : StandardInput → Run σ Unit}
  {prepared : Prepared} {start : Progress (σ × List StandardInput)}

theorem keeps_compileRecord (seed : StandardInput) :
    Keeps (compileRecord (watched compileSeed) seed) :=
  (keeps_watched compileSeed seed).bind fun _ => keeps_lift _

theorem keeps_finish (call : Call) (records : List Json) :
    Keeps (finish (recordSeeds interpreter) call records) :=
  (keeps_call interpreter call).bind fun _ => keeps_lift _

/-- After a first seed the record has an entry more, whatever the rest of the run does. -/
theorem seeds_ne_of_watched {seed : StandardInput}
    {more : Unit → Run (σ × List StandardInput) Json} (h : ∀ u, Keeps (more u)) :
    ((watched compileSeed seed >>= more) start).2.state.2 ≠ start.state.2 := by
  have hlonger : start.state.2 ++ [seed] <+:
      ((watched compileSeed seed >>= more) start).2.state.2 := by
    rw [Run.bind_apply]
    rcases hrun : watched compileSeed seed start with ⟨outcome, middle⟩
    have hmiddle : middle.state.2 = start.state.2 ++ [seed] := by
      rw [← congrArg (fun result => result.2.state.2) hrun]
      rfl
    cases outcome with
    | error stop => exact hmiddle ▸ List.prefix_rfl
    | ok u => exact hmiddle ▸ h u middle
  intro heq
  have hlength := hlonger.length_le
  rw [heq, List.length_append, List.length_singleton] at hlength
  omega

theorem not_quiet_of_prepare (compileSeed : StandardInput → Run σ Unit)
    (start : Progress (σ × List StandardInput))
    (h : prepare interpreter.capability document = .ok prepared) :
    ¬ Quiet start (compile (recordSeeds interpreter) (watched compileSeed) document start).2 := by
  have hprepare : prepare (recordSeeds interpreter : Interpreter (σ × List StandardInput)).capability
      document = .ok prepared := h
  intro hquiet
  rw [compile_of_prepare hprepare] at hquiet
  cases hseeds : prepared.seeds with
  | nil =>
    have hcalls := hquiet.calls
    rw [hseeds, List.mapM_nil, pure_bind] at hcalls
    rcases hfinish : finish (recordSeeds interpreter) prepared.call [] start with ⟨outcome, after⟩
    rw [hfinish, (finish_cases hfinish).1] at hcalls
    simp at hcalls
  | cons first rest =>
    have hrecord := hquiet.seeds
    rw [hseeds, List.mapM_cons, bind_assoc, compileRecord, bind_assoc] at hrecord
    refine absurd hrecord (seeds_ne_of_watched fun _ => ?_)
    refine (keeps_lift _).bind fun _ => ?_
    rw [bind_assoc]
    refine (keeps_mapM keeps_compileRecord rest).bind fun _ => ?_
    rw [pure_bind]
    exact keeps_finish _ _

end Watched

/-- Where no reason to refuse holds, there is an entrypoint, and a convention that takes one
source has just one. -/
theorem takes_of_prepare {prepared : Prepared}
    (h : prepare capability document = .ok prepared) :
    capability.entrypoint? = some (callOf capability document).entrypoint ∧
      (capability = .singleSource →
        ∃ path, contentsOf document = [(path, (callOf capability document).input)]) := by
  obtain ⟨texts, htexts, hcheck, -, -⟩ := prepare_eq_ok h
  have hcontents : contentsOf document = texts := (contents_eq_ok htexts).1.symm
  obtain rfl | rfl | ⟨rfl, hone⟩ := checkSources_eq_ok_iff.mp hcheck
  · exact ⟨rfl, by simp⟩
  · exact ⟨rfl, by simp⟩
  · obtain ⟨⟨path, text⟩, rfl⟩ := List.length_eq_one_iff.mp hone
    refine ⟨rfl, fun _ => ⟨path, ?_⟩⟩
    rw [callOf, hcontents]
    rfl

/-- A run fails with nothing called and no seed compiled exactly where the document is
refused, and for the first reason that holds; where none holds, nothing can fail before the
first effect. -/
theorem refusal_precedes_effects (document : StandardInput) :
    (∀ {σ : Type} (interpreter : Interpreter σ) (compileSeed : StandardInput → Run σ Unit)
        (start : Progress (σ × List StandardInput)) (failure : Failure),
      (∃ after, compile (recordSeeds interpreter) (watched compileSeed) document start =
        (.error (.failed failure), after) ∧ Quiet start after) ↔
        Refused interpreter.capability document failure) ∧
    (∀ {σ : Type} (interpreter : Interpreter σ) (compileSeed : StandardInput → Run σ Unit)
        (failure : Failure), Refused interpreter.capability document failure →
      compile interpreter compileSeed document = Run.fail failure ∧ Reports failure) ∧
    ∀ capability : Capability, (∃ failure, Refused capability document failure) ∨
      (capability.entrypoint? = some (callOf capability document).entrypoint ∧
        (capability = .singleSource →
          ∃ path, contentsOf document = [(path, (callOf capability document).input)]) ∧
        ∀ {σ : Type} (interpreter : Interpreter σ) (compileSeed : StandardInput → Run σ Unit),
          interpreter.capability = capability →
          Begins interpreter compileSeed document (compile interpreter compileSeed document)) := by
  refine ⟨fun interpreter compileSeed start failure => ⟨?_, ?_⟩, ?_, fun capability => ?_⟩
  · rintro ⟨after, hrun, hquiet⟩
    cases hprepare : prepare interpreter.capability document with
    | error first =>
      have hrefused := prepare_eq_error_iff.mp hprepare
      rw [compile_of_refusal (recordSeeds interpreter) (watched compileSeed) hrefused] at hrun
      cases hrun
      exact hrefused
    | ok prepared =>
      refine absurd ?_ (not_quiet_of_prepare compileSeed start hprepare)
      rw [hrun]
      exact hquiet
  · intro hrefused
    refine ⟨start, ?_, rfl, rfl⟩
    rw [compile_of_refusal (recordSeeds interpreter) (watched compileSeed) hrefused]
    rfl
  · exact fun interpreter compileSeed failure hrefused =>
      ⟨compile_of_refusal interpreter compileSeed hrefused, hrefused.reports⟩
  · cases hprepare : prepare capability document with
    | error failure => exact .inl ⟨failure, prepare_eq_error_iff.mp hprepare⟩
    | ok prepared =>
      obtain ⟨hentrypoint, hsource⟩ := takes_of_prepare hprepare
      refine .inr ⟨hentrypoint, hsource, fun interpreter compileSeed hcapability => ?_⟩
      rw [← hcapability] at hprepare
      exact compile_begins hprepare

end SolcDispatch.Legacy
