import SolcDispatch.Proofs.Legacy.PostOrder
import SolcDispatch.Scripted

/-! The course of a compilation with a legacy build: documents are called in post-order, up to
the first that fails. -/

namespace SolcDispatch

theorem Run.bind_apply {σ α β : Type} (run : Run σ α) (next : α → Run σ β) (start : Progress σ) :
    (run >>= next) start = match run start with
      | (.ok a, after) => next a after
      | (.error stop, after) => (.error stop, after) := by
  change (match run start with
    | (outcome, after) => ExceptT.bindCont next outcome after) = _
  cases run start with
  | mk outcome after => cases outcome <;> rfl

namespace Legacy

variable {σ : Type} {interpreter : Interpreter σ}

/-- A document's own call, with what is recorded of its seeds, and what comes of it. -/
def Turn (interpreter : Interpreter σ) (document : StandardInput) (start : Progress σ)
    (outcome : Except Stop Json) (after : Progress σ) : Prop :=
  ∃ prepared records, prepare interpreter.capability document = .ok prepared ∧
    prepared.seeds.mapM StandardInput.provenance = .ok records ∧
    finish interpreter prepared.call records start = (outcome, after)

/-- Documents took their turns one after another, and every one has a result. -/
inductive Compiled (interpreter : Interpreter σ) (start : Progress σ) :
    List StandardInput → Progress σ → Prop
  | nil : Compiled interpreter start [] start
  | snoc {documents document result before after} :
      Compiled interpreter start documents before →
      Turn interpreter document before (.ok result) after →
      Compiled interpreter start (documents ++ [document]) after

/-- The run stopped: documents that were called, and documents that were not. -/
inductive Stopped (interpreter : Interpreter σ) (start : Progress σ) :
    List StandardInput → List StandardInput → Stop → Progress σ → Prop
  | refused {called document rest failure after} :
      Compiled interpreter start called after →
      prepare interpreter.capability document = .error failure →
      Stopped interpreter start called (postOrder document ++ rest) (.failed failure) after
  | failed {called document rest stop before after} :
      Compiled interpreter start called before →
      Turn interpreter document before (.error stop) after →
      Stopped interpreter start (called ++ [document]) rest stop after
  | unrecorded {called document rest failure after} :
      Compiled interpreter start (called ++ [document]) after →
      document.provenance = .error failure →
      Stopped interpreter start (called ++ [document]) rest (.failed failure) after

variable {start before after : Progress σ} {documents more called rest : List StandardInput}
  {document : StandardInput} {stop : Stop}

theorem Compiled.append (h : Compiled interpreter start documents before)
    (hmore : Compiled interpreter before more after) :
    Compiled interpreter start (documents ++ more) after := by
  induction hmore with
  | nil => rwa [List.append_nil]
  | snoc _ hturn ih =>
    rw [← List.append_assoc]
    exact .snoc ih hturn

theorem Stopped.after_compiled (h : Compiled interpreter start documents before)
    (hstop : Stopped interpreter before called rest stop after) :
    Stopped interpreter start (documents ++ called) rest stop after := by
  cases hstop with
  | refused hcalled hdocument => exact .refused (h.append hcalled) hdocument
  | failed hcalled hturn =>
    rw [← List.append_assoc]
    exact .failed (h.append hcalled) hturn
  | unrecorded hcalled hdocument =>
    have hall := h.append hcalled
    rw [← List.append_assoc] at hall ⊢
    exact .unrecorded hall hdocument

theorem Stopped.append (h : Stopped interpreter start called rest stop after)
    (more : List StandardInput) : Stopped interpreter start called (rest ++ more) stop after := by
  cases h with
  | refused hcalled hdocument =>
    rw [List.append_assoc]
    exact .refused hcalled hdocument
  | failed hcalled hturn => exact .failed hcalled hturn
  | unrecorded hcalled hdocument => exact .unrecorded hcalled hdocument

/-- What a run over documents comes to, given what it means to end with a value. -/
def Ends {α : Type} (interpreter : Interpreter σ) (start : Progress σ)
    (documents : List StandardInput) (whole : α → Progress σ → Prop) :
    Except Stop α × Progress σ → Prop
  | (.ok a, after) => whole a after
  | (.error stop, after) => ∃ called rest, documents = called ++ rest ∧
      Stopped interpreter start called rest stop after

def Outcome (interpreter : Interpreter σ) (document : StandardInput) (start : Progress σ) :
    Except Stop Json × Progress σ → Prop :=
  Ends interpreter start (postOrder document) fun result after => ∃ before,
    Compiled interpreter start ((seedsOf document).flatMap postOrder) before ∧
      Turn interpreter document before (.ok result) after

theorem Outcome.compiled {result : Json}
    (h : Outcome interpreter document start (.ok result, after)) :
    Compiled interpreter start (postOrder document) after := by
  obtain ⟨before, hseeds, hturn⟩ := h
  rw [postOrder_eq]
  exact .snoc hseeds hturn

section Each

variable {each : StandardInput → Run σ Unit} {failure : Failure} {prepared : Prepared}

/-- Compiling a seed, and what is kept of it. -/
def compileRecord (each : StandardInput → Run σ Unit) (seed : StandardInput) : Run σ Json := do
  each seed
  Run.lift seed.provenance

theorem compile_of_unprepared (h : prepare interpreter.capability document = .error failure) :
    compile interpreter each document = Run.fail failure := by
  unfold compile compileAfter
  split
  · rename_i other hother
    rw [h] at hother
    cases hother
    rfl
  · rename_i other hother
    rw [h] at hother
    cases hother

theorem compile_of_prepare (h : prepare interpreter.capability document = .ok prepared) :
    compile interpreter each document =
      prepared.seeds.mapM (compileRecord each) >>= finish interpreter prepared.call := by
  unfold compile compileAfter
  split
  · rename_i other hother
    rw [h] at hother
    cases hother
  · rename_i other hother
    rw [h] at hother
    cases hother
    rw [List.mapM_subtype (g := compileRecord each) (fun _ _ => rfl), List.unattach_attach]

end Each

/-- With a legacy build, a document is compiled with itself as the way to compile its seeds. -/
theorem scripted_compile_eq (hlegacy : interpreter.capability ≠ .modern) :
    Scripted.compile interpreter document =
      compile interpreter (fun seed => discard (Scripted.compile interpreter seed)) document := by
  rw [Scripted.compile, if_neg hlegacy]
  rfl

def compileSeed (interpreter : Interpreter σ) (seed : StandardInput) : Run σ Json := do
  let _ ← Scripted.compile interpreter seed
  Run.lift seed.provenance

theorem compileRecord_scripted : compileRecord
    (fun seed => discard (Scripted.compile interpreter seed)) = compileSeed interpreter := by
  funext seed
  rw [compileRecord, compileSeed, Functor.discard, map_const, Function.comp_apply, bind_map_left]

theorem compile_of_refused (hlegacy : interpreter.capability ≠ .modern) {failure : Failure}
    (h : prepare interpreter.capability document = .error failure) :
    Scripted.compile interpreter document = Run.fail failure := by
  rw [scripted_compile_eq hlegacy, compile_of_unprepared h]

theorem compile_of_prepared (hlegacy : interpreter.capability ≠ .modern) {prepared : Prepared}
    (h : prepare interpreter.capability document = .ok prepared) :
    Scripted.compile interpreter document =
      prepared.seeds.mapM (compileSeed interpreter) >>= finish interpreter prepared.call := by
  rw [scripted_compile_eq hlegacy, compile_of_prepare h, compileRecord_scripted]

theorem ends_compileSeed {seed : StandardInput}
    (h : Outcome interpreter seed start (Scripted.compile interpreter seed start)) :
    Ends interpreter start (postOrder seed)
      (fun record after => seed.provenance = .ok record ∧
        Compiled interpreter start (postOrder seed) after)
      (compileSeed interpreter seed start) := by
  rw [compileSeed, Run.bind_apply]
  rcases hrun : Scripted.compile interpreter seed start with ⟨outcome, after⟩
  rw [hrun] at h
  cases outcome with
  | error stop => exact h
  | ok result =>
    have hcompiled := h.compiled
    cases hrecord : seed.provenance with
    | ok record => exact ⟨rfl, hcompiled⟩
    | error failure =>
      refine ⟨postOrder seed, [], (List.append_nil _).symm, ?_⟩
      rw [postOrder_eq] at hcompiled ⊢
      exact .unrecorded hcompiled hrecord

theorem ends_seeds {seeds : List StandardInput}
    (h : ∀ seed ∈ seeds, ∀ start,
      Outcome interpreter seed start (Scripted.compile interpreter seed start))
    (start : Progress σ) :
    Ends interpreter start (seeds.flatMap postOrder)
      (fun records after => seeds.mapM StandardInput.provenance = .ok records ∧
        Compiled interpreter start (seeds.flatMap postOrder) after)
      (seeds.mapM (compileSeed interpreter) start) := by
  induction seeds generalizing start with
  | nil => exact ⟨rfl, .nil⟩
  | cons seed seeds ih =>
    have hseed := ends_compileSeed (h seed List.mem_cons_self start)
    have hseeds := ih fun other hother => h other (List.mem_cons_of_mem _ hother)
    rw [List.mapM_cons (f := compileSeed interpreter), Run.bind_apply, List.flatMap_cons]
    rcases hrun : compileSeed interpreter seed start with ⟨outcome, middle⟩
    rw [hrun] at hseed
    cases outcome with
    | error stop =>
      obtain ⟨called, rest, hsplit, hstopped⟩ := hseed
      refine ⟨called, rest ++ seeds.flatMap postOrder, ?_, hstopped.append _⟩
      rw [hsplit, List.append_assoc]
    | ok record =>
      obtain ⟨hrecord, hcompiled⟩ := hseed
      have hrest := hseeds middle
      dsimp only
      rw [Run.bind_apply]
      rcases hrun : seeds.mapM (compileSeed interpreter) middle with ⟨outcome, after⟩
      rw [hrun] at hrest
      cases outcome with
      | error stop =>
        obtain ⟨called, rest, hsplit, hstopped⟩ := hrest
        refine ⟨postOrder seed ++ called, rest, ?_, hstopped.after_compiled hcompiled⟩
        rw [hsplit, List.append_assoc]
      | ok records =>
        obtain ⟨hrecords, hmore⟩ := hrest
        refine ⟨?_, hcompiled.append hmore⟩
        rw [List.mapM_cons, hrecord, hrecords]
        rfl

theorem outcome_compile (hlegacy : interpreter.capability ≠ .modern) (document : StandardInput)
    (start : Progress σ) :
    Outcome interpreter document start (Scripted.compile interpreter document start) := by
  -- The induction is on the settings, which shrink from a document to its seeds.
  cases hprepare : prepare interpreter.capability document with
  | error failure =>
    rw [compile_of_refused hlegacy hprepare]
    refine ⟨[], postOrder document, rfl, ?_⟩
    rw [← List.append_nil (postOrder document)]
    exact .refused .nil hprepare
  | ok prepared =>
    have hseeds := ends_seeds (fun seed (hseed : seed ∈ prepared.seeds) start =>
      outcome_compile hlegacy seed start) start
    rw [compile_of_prepared hlegacy hprepare, Run.bind_apply]
    rcases hrun : prepared.seeds.mapM (compileSeed interpreter) start with ⟨outcome, before⟩
    rw [hrun, prepare_seeds hprepare] at hseeds
    cases outcome with
    | error stop =>
      obtain ⟨called, rest, hsplit, hstopped⟩ := hseeds
      refine ⟨called, rest ++ [document], ?_, hstopped.append _⟩
      rw [postOrder_eq, hsplit, List.append_assoc]
    | ok records =>
      obtain ⟨hrecords, hcompiled⟩ := hseeds
      rw [← prepare_seeds hprepare] at hrecords
      dsimp only
      rcases hfinish : finish interpreter prepared.call records before with ⟨outcome, after⟩
      cases outcome with
      | ok result => exact ⟨before, hcompiled, prepared, records, hprepare, hrecords, hfinish⟩
      | error stop =>
        refine ⟨(seedsOf document).flatMap postOrder ++ [document], [], ?_, ?_⟩
        · rw [List.append_nil, postOrder_eq]
        · exact .failed hcompiled ⟨prepared, records, hprepare, hrecords, hfinish⟩
termination_by sizeOf document.settings
decreasing_by exact sizeOf_seed_lt hprepare hseed

end Legacy

end SolcDispatch
