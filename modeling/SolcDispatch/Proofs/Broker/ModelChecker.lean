import SolcDispatch.Proofs.Broker.Admission
import SolcDispatch.Proofs.Cache.Sharing
import SolcDispatch.Proofs.Legacy.ModelChecker

/-! How far settings of the model checker reach. A build that takes standard documents gets
those of the seeds of a document, for only the document's own are left out; a legacy build gets
none, but the metadata of a result tell those of seeds of seeds. -/

namespace SolcDispatch

open Run (AgreeOn)

namespace StandardInput

variable {d e : StandardInput}

theorem payloadText_agree (h : d.bare = e.bare) :
    AgreeOn (fun _ _ => True) d.payloadText e.payloadText := by
  unfold payloadText
  rcases payload_agree h with ⟨failure, hd, he⟩ | ⟨v, w, hd, he, -⟩
  · rw [hd, he]
    exact .inl ⟨failure, rfl, rfl⟩
  · rw [hd, he]
    exact .inr ⟨_, _, rfl, rfl, trivial⟩

theorem payloadText_eq_iff (h : d.bare = e.bare) (hd : d.WellFormed) (he : e.WellFormed) :
    d.payloadText = e.payloadText ↔
      d = e ∨ ∃ failure, d.payloadText = .error failure := by
  constructor
  · intro htext
    unfold payloadText at htext ⊢
    rcases payload_agree h with ⟨failure, hfail, -⟩ | ⟨v, w, hv, hw, extras, sources, hdv, hew⟩
    · exact .inr ⟨failure, by rw [hfail]; rfl⟩
    · rw [hv, hw] at htext
      have hread := Json.parse_print Json.isPlain_spaced (wellFormed_of_payload hv hd)
      have hother := Json.parse_print Json.isPlain_spaced (wellFormed_of_payload hw he)
      have hsame : v = w := by
        rw [show Json.print Json.spaced v = Json.print Json.spaced w from
          Except.ok.inj htext, hother] at hread
        exact (Except.ok.inj hread).symm
      subst hdv hew
      simp only [assemble, Json.obj.injEq, List.cons_append, List.cons.injEq,
        List.append_cancel_left_eq, Prod.mk.injEq, true_and, and_true] at hsame
      exact .inl (eq_of_bare h hsame)
  · rintro (rfl | ⟨failure, hfail⟩)
    · rfl
    · rcases payloadText_agree h with ⟨_, hdf, hef⟩ | ⟨v, w, hv, hw, -⟩
      · rw [hdf, hef]
      · rw [hfail] at hv
        cases hv

end StandardInput

namespace Legacy

variable {d e : StandardInput}

theorem seedsOf_bare (d : StandardInput) :
    seedsOf d.bare = (seedsOf d).map StandardInput.bare := by
  have hread (raw : Json) : (StandardInput.parse (StandardInput.bareSeed raw)).toOption =
      (StandardInput.parse raw).toOption.map StandardInput.bare := by
    rw [StandardInput.parse_bareSeed]
    cases StandardInput.parse raw <;> rfl
  simp only [seedsOf, StandardInput.seeds_bare, List.filterMap_map, List.map_map,
    Function.comp_def, hread, StandardInput.bare_withoutModelChecker]
  rw [← List.map_filterMap, List.map_map]
  simp only [Function.comp_def, StandardInput.withoutModelChecker_bare]

theorem eq_of_records {seeds others : List StandardInput} {records : List Json}
    (h : seeds.map StandardInput.bare = others.map StandardInput.bare)
    (hseeds : ∀ seed ∈ seeds, seed.WellFormed) (hothers : ∀ seed ∈ others, seed.WellFormed)
    (hrecords : seeds.mapM StandardInput.provenance = .ok records)
    (hmore : others.mapM StandardInput.provenance = .ok records) : seeds = others := by
  have hfirst := Results.mapM_eq_ok hrecords
  have hsecond := Results.mapM_eq_ok hmore
  clear hrecords hmore
  induction hfirst generalizing others with
  | nil => exact (List.map_eq_nil_iff.mp h.symm).symm
  | cons hrecord _ ih =>
    cases hsecond with
    | cons hother hsecond =>
      obtain ⟨hhead, htail⟩ := List.cons.inj h
      obtain ⟨hseed, hseeds⟩ := List.forall_mem_cons.mp hseeds
      obtain ⟨hsecondSeed, hothers⟩ := List.forall_mem_cons.mp hothers
      rw [StandardInput.eq_of_provenance hhead hseed hsecondSeed hrecord hother,
        ih htail hseeds hothers hsecond]

theorem metadataText_injOn {records more : List Json} {optimize : Bool}
    (hrecords : ∀ record ∈ records, record.WellFormed)
    (hmore : ∀ record ∈ more, record.WellFormed)
    (h : metadataText optimize records = metadataText optimize more) : records = more := by
  have hread := parse_metadataText optimize hrecords
  rw [h, parse_metadataText optimize hmore] at hread
  simp only [Except.ok.injEq, Json.obj.injEq, List.cons.injEq, Prod.mk.injEq, Json.arr.injEq,
    true_and, and_true] at hread
  exact hread.symm

theorem wellFormed_of_records {seeds : List StandardInput} {records : List Json}
    (hseeds : ∀ seed ∈ seeds, seed.WellFormed)
    (h : seeds.mapM StandardInput.provenance = .ok records) :
    ∀ record ∈ records, record.WellFormed := by
  have hall := Results.mapM_eq_ok h
  clear h
  induction hall with
  | nil => simp
  | cons hrecord _ ih =>
    obtain ⟨hseed, hseeds⟩ := List.forall_mem_cons.mp hseeds
    exact List.forall_mem_cons.mpr
      ⟨StandardInput.wellFormed_of_provenance hrecord hseed, ih hseeds⟩

/-- Whether a result has a contract, and so says something of the seeds. -/
def HasContract (result : Json) : Prop :=
  ∃ files, result.get? "contracts" = some (.obj files) ∧ ∃ file ∈ files, file.2 ≠ .obj []

theorem hasContract_iff {output : Output} {metadata : String} :
    HasContract (output.complete metadata).toJson ↔ ∃ file ∈ output.contracts, file.2 ≠ [] := by
  constructor
  · rintro ⟨files, hfiles, file, hfile, hne⟩
    obtain rfl := Json.obj.inj (Option.some.inj hfiles)
    simp only [Output.complete, List.map_map, List.mem_map] at hfile
    obtain ⟨contents, hcontents, rfl⟩ := hfile
    exact ⟨contents, hcontents, fun hnil => hne (by simp [hnil])⟩
  · rintro ⟨file, hfile, hne⟩
    refine ⟨_, rfl, _, List.mem_map_of_mem (List.mem_map_of_mem hfile), ?_⟩
    simpa using hne

theorem complete_toJson_eq_iff {output : Output} {metadata other : String} :
    (output.complete metadata).toJson = (output.complete other).toJson ↔
      metadata = other ∨ ¬ HasContract (output.complete metadata).toJson := by
  rw [hasContract_iff]
  constructor
  · intro h
    by_contra hnot
    obtain ⟨hne, hcontract⟩ := not_or.mp hnot
    obtain ⟨file, hfile, hnonempty⟩ := not_not.mp hcontract
    obtain ⟨c, rest, hcontracts⟩ := List.exists_cons_of_ne_nil hnonempty
    have hfiles := congrArg (·.get? "contracts") h
    simp only [Output.toJson, Output.complete, Json.get?, Assoc.get?, String.reduceEq, if_false,
      if_true, List.map_map, Option.some.injEq, Json.obj.injEq] at hfiles
    have hsame := (Prod.mk.inj (List.map_inj_left.mp hfiles file hfile)).2
    rw [Json.obj.injEq, List.map_map, List.map_map] at hsame
    have hfirst := (Prod.mk.inj (List.map_inj_left.mp hsame c (by simp [hcontracts]))).2
    simp only [Contract.toJson, Contract.complete, Json.obj.injEq, List.cons.injEq,
      Prod.mk.injEq, Json.str.injEq, true_and] at hfirst
    exact hne hfirst.1
  · rintro (rfl | hnone)
    · rfl
    · have hcontracts : (output.complete metadata).contracts =
          (output.complete other).contracts := by
        refine List.map_inj_left.mpr fun file hfile => ?_
        have hnil : file.2 = [] := by
          by_contra hne
          exact hnone ⟨file, hfile, hne⟩
        rw [hnil, List.map_nil, List.map_nil]
      rw [Output.toJson, Output.toJson, hcontracts]
      rfl

/-- Of two well-formed documents with a result, both results are the same exactly if the seeds
are, unless there is no contract to tell. -/
theorem SameOutput.eq_iff {result other : Json} (h : SameOutput d e result other)
    (hbare : d.bare = e.bare) (hd : d.WellFormed) (he : e.WellFormed) :
    result = other ↔ seedsOf d = seedsOf e ∨ ¬ HasContract result := by
  obtain ⟨output, records, more, hrecords, hmore, rfl, rfl⟩ := h
  have hseeds : (seedsOf d).map StandardInput.bare = (seedsOf e).map StandardInput.bare := by
    rw [← seedsOf_bare, ← seedsOf_bare, hbare]
  have hwd (seed : StandardInput) (hseed : seed ∈ seedsOf d) : seed.WellFormed :=
    wellFormed_of_mem_seedsOf hseed hd
  have hwe (seed : StandardInput) (hseed : seed ∈ seedsOf e) : seed.WellFormed :=
    wellFormed_of_mem_seedsOf hseed he
  rw [complete_toJson_eq_iff]
  refine or_congr ⟨fun htext => ?_, fun hsame => ?_⟩ Iff.rfl
  · have hsame := metadataText_injOn (wellFormed_of_records hwd hrecords)
      (wellFormed_of_records hwe hmore) htext
    exact eq_of_records hseeds hwd hwe hrecords (hsame ▸ hmore)
  · rw [hsame, hmore] at hrecords
    rw [Except.ok.inj hrecords]

end Legacy

variable {σ : Type} {d e : StandardInput} {interpreter : Interpreter σ}

theorem Scripted.calls_of_modern (h : interpreter.capability = .modern) (d : StandardInput)
    (start : Progress σ) : (compile interpreter d start).2.calls = start.calls ++
      (d.payloadText.toOption.map fun text => ⟨"standard", text, false⟩).toList := by
  cases htext : d.payloadText with
  | ok text => exact (StandardInput.receives_payloadText htext).compile h start
  | error failure =>
    rw [compile_of_modern h, compileModern, htext, Run.bind_apply]
    exact (List.append_nil _).symm

theorem Scripted.compile_of_sameText (h : interpreter.capability = .modern)
    (htext : d.payloadText = e.payloadText) : compile interpreter d = compile interpreter e := by
  rw [compile_of_modern h, compile_of_modern h, compileModern, compileModern, htext]

namespace Invocation

variable {loader : Loader σ} {files : Files} {path : FilePath} {capability : Capability} {s : σ}
  {kind : BuildKind}

theorem ofScripted_of_loaded (h : loader.load files path = .ok (capability, s)) (d : StandardInput)
    (trace : Trace) {outcome : Except Stop Json} {progress : Progress σ}
    (hrun : Scripted.compile (loader.interpreter capability) d ⟨s, []⟩ = (outcome, progress)) :
    run loader files .scripted path d trace = ⟨outcome, { trace with
      protocol := protocolOf capability, stderr := loader.diagnostics progress.state },
      progress.calls, []⟩ := by
  have hdone : (Scripted.compile (loader.interpreter capability) d).run ⟨s, []⟩ =
      (outcome, progress) := hrun
  rw [run, ofScripted, h]
  dsimp only
  rw [hdone]

/-- A legacy build makes the same of both documents, but for the metadata of a result. -/
theorem run_legacy (h : loader.load files path = .ok (capability, s)) (hlegacy : capability.isLegacy)
    (hbare : d.bare = e.bare) (trace : Trace) : ∃ traced calls,
      (∃ stop, run loader files .scripted path d trace = ⟨.error stop, traced, calls, []⟩ ∧
        run loader files .scripted path e trace = ⟨.error stop, traced, calls, []⟩) ∨
      ∃ result other, Legacy.SameOutput d e result other ∧
        run loader files .scripted path d trace = ⟨.ok result, traced, calls, []⟩ ∧
        run loader files .scripted path e trace = ⟨.ok other, traced, calls, []⟩ := by
  have hne : (loader.interpreter capability).capability ≠ .modern := by
    rintro heq
    rw [show capability = .modern from heq] at hlegacy
    cases hlegacy
  have hagree := Legacy.compile_agree hne hbare ⟨s, []⟩
  rcases hd : Scripted.compile (loader.interpreter capability) d ⟨s, []⟩ with
    ⟨stop | result, progress⟩ <;>
    rcases he : Scripted.compile (loader.interpreter capability) e ⟨s, []⟩ with
    ⟨stopped | other, later⟩ <;> rw [hd, he] at hagree <;>
    rw [ofScripted_of_loaded h d trace hd, ofScripted_of_loaded h e trace he]
  · obtain ⟨rfl, rfl⟩ := hagree
    exact ⟨_, _, .inl ⟨stop, rfl, rfl⟩⟩
  · exact hagree.elim
  · exact hagree.elim
  · obtain ⟨rfl, hsame⟩ := hagree
    exact ⟨_, _, .inr ⟨result, other, hsame, rfl, rfl⟩⟩

/-- All other builds are given the text of the document and nothing else. -/
theorem run_of_sameText (htext : d.payloadText = e.payloadText)
    (h : kind = .scripted → ∀ capability s, loader.load files path = .ok (capability, s) →
      capability = .modern) (trace : Trace) :
    run loader files kind path d trace = run loader files kind path e trace := by
  cases kind with
  | native => rw [run, run, ofNative, ofNative, htext]
  | scripted =>
    rw [run, run, ofScripted, ofScripted]
    cases hload : loader.load files path with
    | error stop => rfl
    | ok loaded =>
      obtain ⟨capability, s⟩ := loaded
      obtain rfl := h rfl capability s hload
      have hcompile : Scripted.compile (loader.interpreter .modern) d =
          Scripted.compile (loader.interpreter .modern) e :=
        Scripted.compile_of_sameText rfl htext
      dsimp only
      rw [hcompile]

end Invocation

namespace Broker

variable {around : Surroundings σ} {b : Broker} {version : String}

/-- The convention of the scripted build that a request for a version loads, if it loads one. -/
def loads (around : Surroundings σ) (b : Broker) (version : String) : Option Capability :=
  match b.known.classify version, b.acquire around version with
  | .ok .scripted, (some (.ok path), _, after) =>
    ((around.loader.load after.cache.files path).toOption).map Prod.fst
  | _, _ => none

theorem loads_eq_some {capability : Capability} (h : b.loads around version = some capability) :
    b.known.classify version = .ok .scripted ∧ ∃ path paths after s,
      b.acquire around version = (some (.ok path), paths, after) ∧
        around.loader.load after.cache.files path = .ok (capability, s) := by
  unfold loads at h
  split at h
  · rename_i path paths after hkind hacquire
    obtain ⟨loaded, hloaded, rfl⟩ := Option.map_eq_some_iff.mp h
    exact ⟨hkind, path, paths, after, loaded.2, hacquire, Results.eq_ok_of_toOption hloaded⟩
  · cases h

theorem loads_of_loaded {capability : Capability} {path : FilePath} {paths : List String}
    {after : Broker} {s : σ} (hkind : b.known.classify version = .ok .scripted)
    (hacquire : b.acquire around version = (some (.ok path), paths, after))
    (hload : around.loader.load after.cache.files path = .ok (capability, s)) :
    b.loads around version = some capability := by
  unfold loads
  rw [hkind, hacquire]
  dsimp only
  rw [hload]
  rfl

theorem concluded_ok (b : Broker) (abandoned : Bool) (paths : List String) (result : Json)
    (traced : Trace) (calls : List Call) (written : List (String × Text.Bytes)) :
    b.concluded abandoned paths ⟨.ok result, traced, calls, written⟩ =
      ⟨.finished (.ok result), calls, paths, { b.keepFiles written with
        traces := (b.keepFiles written).traces.record (traced.finish none) }⟩ := rfl

/-- One course of a request: the same but for the metadata of the result. -/
structure SameCourse (first second : Compilation) : Prop where
  calls : first.calls = second.calls
  paths : first.paths = second.paths
  broker : first.broker = second.broker
  ending : first.ending = second.ending ∨ ∃ (output : Legacy.Output) (metadata other : String),
    first.ending = .finished (.ok (output.complete metadata).toJson) ∧
    second.ending = .finished (.ok (output.complete other).toJson)

def HasContract (c : Compilation) : Prop :=
  ∃ result, c.ending = .finished (.ok result) ∧ Legacy.HasContract result

theorem invoke_legacy {capability : Capability} (hloads : b.loads around version = some capability)
    (hlegacy : capability.isLegacy) (hbare : d.bare = e.bare) (hd : d.WellFormed)
    (he : e.WellFormed) (abandoned : Bool) :
    let c := b.invoke around abandoned ⟨version, .scripted, d⟩
    let other := b.invoke around abandoned ⟨version, .scripted, e⟩
    SameCourse c other ∧
      (c = other ↔ Legacy.seedsOf d = Legacy.seedsOf e ∨ ¬ HasContract c) := by
  obtain ⟨-, path, paths, after, s, hacquire, hload⟩ := loads_eq_some hloads
  intro c other
  have hc : c = _ := invoke_of_acquired abandoned .scripted d hacquire
  have hother : other = _ := invoke_of_acquired abandoned .scripted e hacquire
  obtain ⟨traced, calls, hruns⟩ := Invocation.run_legacy hload hlegacy hbare
    { version, protocol := BuildKind.scripted.name }
  rcases hruns with ⟨stop, hrun, hsecond⟩ | ⟨result, second, hsame, hrun, hsecond⟩
  · have heq : c = other := by rw [hc, hother, hrun, hsecond]
    refine ⟨heq ▸ ⟨rfl, rfl, rfl, .inl rfl⟩, fun _ => .inr ?_, fun _ => heq⟩
    rintro ⟨result, hresult, -⟩
    rw [hc, hrun] at hresult
    rcases stop with _ | _
    · cases hresult
    · cases abandoned <;> cases hresult
  · rw [hrun, concluded_ok] at hc
    rw [hsecond, concluded_ok] at hother
    have hiff := hsame.eq_iff hbare hd he
    have hcontract : HasContract c ↔ Legacy.HasContract result := by
      rw [hc]
      constructor
      · rintro ⟨found, hfound, hhas⟩
        cases hfound
        exact hhas
      · exact fun hhas => ⟨result, rfl, hhas⟩
    rw [hcontract, ← hiff, hc, hother]
    obtain ⟨output, records, more, -, -, rfl, rfl⟩ := hsame
    refine ⟨⟨rfl, rfl, rfl, .inr ⟨output, _, _, rfl, rfl⟩⟩, fun heq => ?_, fun heq => by rw [heq]⟩
    exact Except.ok.inj (Ending.finished.inj (congrArg Compilation.ending heq))

theorem paths_invoke (abandoned : Bool) (kind : BuildKind) (d : StandardInput) :
    (b.invoke around abandoned ⟨version, kind, d⟩).paths = (b.acquire around version).2.1 := by
  rcases hacquire : b.acquire around version with ⟨_ | (failure | path), paths, after⟩
  · rw [invoke_of_silent _ _ _ hacquire]
  · rw [invoke_of_failed _ _ _ hacquire]
  · rw [invoke_of_acquired _ _ _ hacquire]
    rfl

theorem calls_invoke_of_modern (h : b.loads around version = some .modern) (d : StandardInput)
    (abandoned : Bool) : (b.invoke around abandoned ⟨version, .scripted, d⟩).calls =
      (d.payloadText.toOption.map fun text => ⟨"standard", text, false⟩).toList := by
  obtain ⟨-, path, paths, after, s, hacquire, hload⟩ := loads_eq_some h
  have hmodern : (around.loader.interpreter .modern).capability = .modern := rfl
  have hcalls := Scripted.calls_of_modern hmodern d ⟨s, []⟩
  rcases hrun : Scripted.compile (around.loader.interpreter .modern) d ⟨s, []⟩ with
    ⟨outcome, progress⟩
  rw [hrun, List.nil_append] at hcalls
  rw [invoke_of_acquired _ _ _ hacquire, Invocation.ofScripted_of_loaded hload d _ hrun, ← hcalls]
  rfl

theorem calls_invoke_eq_iff (h : b.loads around version = some .modern) (hbare : d.bare = e.bare)
    (abandoned : Bool) : (b.invoke around abandoned ⟨version, .scripted, d⟩).calls =
      (b.invoke around abandoned ⟨version, .scripted, e⟩).calls ↔ d.payloadText = e.payloadText := by
  rw [calls_invoke_of_modern h, calls_invoke_of_modern h]
  rcases StandardInput.payloadText_agree hbare with
    ⟨failure, hd, he⟩ | ⟨text, other, hd, he, -⟩
  · simp [hd, he]
  · simp [hd, he, Except.toOption]

theorem invoke_of_sameText {kind : BuildKind} (hkind : b.known.classify version = .ok kind)
    (hmodern : ∀ capability ∈ b.loads around version, capability = .modern)
    (htext : d.payloadText = e.payloadText) (abandoned : Bool) :
    b.invoke around abandoned ⟨version, kind, d⟩ = b.invoke around abandoned ⟨version, kind, e⟩ := by
  rcases hacquire : b.acquire around version with ⟨_ | (failure | path), paths, after⟩
  · rw [invoke_of_silent _ _ _ hacquire, invoke_of_silent _ _ _ hacquire]
  · rw [invoke_of_failed _ _ _ hacquire, invoke_of_failed _ _ _ hacquire]
  · rw [invoke_of_acquired _ _ _ hacquire, invoke_of_acquired _ _ _ hacquire]
    refine congrArg (after.concluded abandoned paths) (Invocation.run_of_sameText htext ?_ _)
    rintro rfl capability s hload
    exact hmodern capability (loads_of_loaded hkind hacquire hload)

/-- An input whose only seed has the given settings. -/
def seededInput (settings : Json.Members) : Json :=
  .obj [("sources", .obj []), ("settings", .obj [("nonDeterministicSeeds",
    .arr [.obj [("sources", .obj []), ("settings", .obj settings)]])])]

def seededDocument (settings : Json.Members) : StandardInput :=
  ⟨"Solidity", [], [("nonDeterministicSeeds",
    .arr [.obj [("sources", .obj []), ("settings", .obj settings)]])], []⟩

theorem parse_seededInput (settings : Json.Members) :
    StandardInput.parse (seededInput settings) = .ok (seededDocument settings) := rfl

set_option maxRecDepth 2000 in
theorem payloadText_seededDocument_ne :
    (seededDocument [("modelChecker", .null)]).payloadText ≠ (seededDocument []).payloadText := by
  decide

/-- How much of two documents that differ in settings of the model checker a compilation can
tell: with a legacy build only what the metadata record of seeds of seeds; with any other one
all but the document's own. -/
theorem modelChecker_reaches {raw other : Json} (hraw : raw.WellFormed) (hother : other.WellFormed)
    (hd : StandardInput.parse raw = .ok d) (he : StandardInput.parse other = .ok e)
    (hbare : d.bare = e.bare) (around : Surroundings σ) (b : Broker) (abandoned : Bool)
    (version : String) :
    let given := d.withoutModelChecker
    let second := e.withoutModelChecker
    let c := b.compile around abandoned version raw
    let c' := b.compile around abandoned version other
    c.paths = c'.paths ∧
    (given.payloadText = second.payloadText ↔
      given = second ∨ ∃ failure, given.payloadText = .error failure) ∧
    (b.loads around version = some .modern →
      (c.calls = c'.calls ↔ given.payloadText = second.payloadText)) ∧
    ((∀ capability ∈ b.loads around version, capability = .modern) →
      given.payloadText = second.payloadText → c = c') ∧
    ∀ capability ∈ b.loads around version, capability.isLegacy →
      SameCourse c c' ∧
        (c = c' ↔ Legacy.seedsOf given = Legacy.seedsOf second ∨ ¬ HasContract c) := by
  intro given second c c'
  have hgiven : given.WellFormed := (StandardInput.wellFormed_of_parse hd hraw).withoutModelChecker
  have hsecond : second.WellFormed :=
    (StandardInput.wellFormed_of_parse he hother).withoutModelChecker
  have hsame : given.bare = second.bare := by
    rw [StandardInput.bare_withoutModelChecker, StandardInput.bare_withoutModelChecker, hbare]
  have htexts := StandardInput.payloadText_eq_iff hsame hgiven hsecond
  by_cases hknown : b.known.exists? version
  · obtain ⟨kind, hkind⟩ := classify_of_exists hknown
    have hc : c = b.invoke around abandoned ⟨version, kind, given⟩ := compile_of_document hkind hd
    have hc' : c' = b.invoke around abandoned ⟨version, kind, second⟩ :=
      compile_of_document hkind he
    refine ⟨by rw [hc, hc', paths_invoke, paths_invoke], htexts, fun hloads => ?_,
      fun hmodern htext => ?_, fun capability hloads hlegacy => ?_⟩
    · obtain rfl := Except.ok.inj (hkind.symm.trans (loads_eq_some hloads).1)
      rw [hc, hc']
      exact calls_invoke_eq_iff hloads hsame abandoned
    · rw [hc, hc', invoke_of_sameText hkind hmodern htext]
    · obtain rfl := Except.ok.inj (hkind.symm.trans (loads_eq_some hloads).1)
      rw [hc, hc']
      exact invoke_legacy hloads hlegacy hsame hgiven hsecond abandoned
  · have hrefused (input : Json) : b.compile around abandoned version input = _ :=
      compile_of_refused (admission_of_unknown (by simpa using hknown) input)
    have hnone (capability : Capability) : b.loads around version ≠ some capability := by
      intro hloads
      exact hknown (Catalog.exists?_iff_classify.mpr ⟨_, (loads_eq_some hloads).1⟩)
    have hcc : c = c' := (hrefused raw).trans (hrefused other).symm
    exact ⟨by rw [hcc], htexts, fun hloads => absurd hloads (hnone _), fun _ _ => hcc,
      fun capability hloads => absurd hloads (hnone capability)⟩

theorem modelChecker_reaches_seed :
    let checked := seededInput [("modelChecker", .null)]
    let plain := seededInput []
    checked.WellFormed ∧ plain.WellFormed ∧ ∃ d e, StandardInput.parse checked = .ok d ∧
      StandardInput.parse plain = .ok e ∧ d.bare = e.bare ∧
      ∀ (around : Surroundings Loader.Rehearsal) (b : Broker) (version : String),
        let c := b.compile around false version checked
        let c' := b.compile around false version plain
        (b.loads around version = some .modern → c.calls ≠ c'.calls) ∧
        (b.loads around version = some .multiSource → c = c') := by
  intro checked plain
  have hwhole (settings : Json.Members) (h : (Json.obj settings).WellFormed) :
      (seededInput settings).WellFormed := by
    simpa [seededInput, Json.WellFormed, Json.WellFormedMembers, Json.WellFormedItems] using h
  have hchecked : checked.WellFormed :=
    hwhole _ (by simp [Json.WellFormed, Json.WellFormedMembers])
  have hplain : plain.WellFormed := hwhole _ (by simp [Json.WellFormed, Json.WellFormedMembers])
  have hbare : (seededDocument [("modelChecker", .null)]).bare = (seededDocument []).bare := rfl
  refine ⟨hchecked, hplain, _, _, parse_seededInput _, parse_seededInput _, hbare, ?_⟩
  intro around b version
  obtain ⟨-, -, hmodern, -, hlegacy⟩ := modelChecker_reaches hchecked hplain
    (parse_seededInput _) (parse_seededInput _) hbare around b false version
  refine ⟨fun hloads => ?_, fun hloads => ?_⟩
  · rw [ne_eq, hmodern hloads]
    exact payloadText_seededDocument_ne
  · exact (hlegacy .multiSource hloads rfl).2.mpr (.inl rfl)

theorem loadRehearsed_print {files : Files} {path : FilePath} {members : Json.Members} {mode : Nat}
    (h : (Json.obj members).WellFormed) (hentry : files.entry? path =
      some (.file (Text.utf8 (Json.print Json.compact (.obj members))) mode)) :
    Loader.loadRehearsed files path = match (Json.obj members).get? "load_error" with
      | some (.str text) => .error (.callFailed text)
      | _ => (Capability.ofJson (((Json.obj members).get? "entrypoints").getD (.arr []))).map
          fun capability => (capability,
            { replies := Loader.repliesOf (.obj members),
              diagnostics := Loader.textMember (.obj members) "stderr" }) := by
  unfold Loader.loadRehearsed
  rw [hentry]
  dsimp only
  rw [Json.parseBytes?_print Json.isPlain_compact h]
  rfl

/-- The two inputs are the same but for the settings of a seed, and a build that takes standard
documents gets two different texts. -/
theorem modelChecker_reaches_modern_build :
    let build : Json := .obj [("entrypoints", .arr [.str "standard"])]
    let b : Broker := {
      known := { scripted := ["v0.8.20"], loaded := true }
      cache := {
        root := ⟨"/", ["cache"]⟩
        source := ⟨"https://depot", "linux-amd64", ⟨0, 6, 0, none, none⟩⟩
        files := [(⟨"/", ["cache", "soljson-v0.8.20.js"]⟩,
          .file (Text.utf8 (Json.print Json.compact build)) 0o644)] }
      traces := { capacity := 1 }
      timeout := .ofInt 1 }
    let around : Surroundings Loader.Rehearsal :=
      { depot := [], followsRedirections := true, loader := .rehearsals }
    ∃ d e, StandardInput.parse (seededInput [("modelChecker", .null)]) = .ok d ∧
      StandardInput.parse (seededInput []) = .ok e ∧ d.bare = e.bare ∧
      (b.compile around false "0.8.20" (seededInput [("modelChecker", .null)])).calls ≠
        (b.compile around false "0.8.20" (seededInput [])).calls := by
  intro build b around
  have hwhole : build.WellFormed := by
    simp [build, Json.WellFormed, Json.WellFormedMembers, Json.WellFormedItems]
  have hload : Loader.loadRehearsed b.cache.files ⟨"/", ["cache", "soljson-v0.8.20.js"]⟩ =
      .ok (.modern, {}) := by
    rw [loadRehearsed_print hwhole rfl]
    rfl
  have hloaded : around.loader.load b.cache.files ⟨"/", ["cache", "soljson-v0.8.20.js"]⟩ =
      .ok (.modern, {}) := congrArg (Except.mapError Stop.failed) hload
  have hkind : b.known.classify "0.8.20" = .ok .scripted := by decide
  have hpath : b.cache.pathOf .scripted "0.8.20" =
      .ok ⟨"/", ["cache", "soljson-v0.8.20.js"]⟩ := by decide
  have hpresent : b.cache.files.present ⟨"/", ["cache", "soljson-v0.8.20.js"]⟩ = .ok true := rfl
  have hrequest : b.cache.request b.known "0.8.20" =
      (.ready (.ok ⟨"/", ["cache", "soljson-v0.8.20.js"]⟩), b.cache) := by
    rw [Cache.request_eq hkind hpath, hpresent]
  have hacquire : b.acquire around "0.8.20" =
      (some (.ok ⟨"/", ["cache", "soljson-v0.8.20.js"]⟩), [], b) := by
    unfold acquire
    rw [hrequest]
    rfl
  have hloads := loads_of_loaded hkind hacquire hloaded
  have hbare : (seededDocument [("modelChecker", .null)]).bare = (seededDocument []).bare := rfl
  refine ⟨_, _, parse_seededInput _, parse_seededInput _, hbare, ?_⟩
  have hown (settings : Json.Members) :
      (seededDocument settings).withoutModelChecker = seededDocument settings := rfl
  rw [compile_of_document hkind (parse_seededInput _),
    compile_of_document hkind (parse_seededInput _), hown, hown, ne_eq,
    calls_invoke_eq_iff hloads hbare]
  exact payloadText_seededDocument_ne

end Broker

end SolcDispatch
