import SolcDispatch.Interpreter.Rehearsed
import SolcDispatch.Proofs.Json.RoundTrip
import SolcDispatch.Proofs.Legacy.Course
import SolcDispatch.Proofs.StandardInput

/-! What the calls of a compilation carry, and what the contracts of its result say of them. -/

namespace SolcDispatch

theorem Capability.entrypoint_mem {names : List String} {name : String}
    (h : (Capability.ofEntrypoints names).entrypoint? = some name) : name ∈ names := by
  unfold ofEntrypoints at h
  cases hfind : preference.find? fun c => c.entrypoint?.any names.contains with
  | none =>
    rw [hfind] at h
    cases h
  | some c =>
    have hc := List.find?_some hfind
    rw [hfind, Option.getD_some] at h
    rw [h, Option.any_some] at hc
    exact List.contains_iff_mem.mp hc

namespace Legacy

open Json (wellFormedItems_iff wellFormedMembers_iff)

variable {σ : Type} {interpreter : Interpreter σ} {capability : Capability}
  {document : StandardInput} {prepared : Prepared} {start after : Progress σ}
  {documents called rest : List StandardInput} {stop : Stop} {outcome : Except Stop Json}

/-- The call of a document names the entrypoint of the convention and has the document's own
flag, and its input holds the contents of all sources: the one content as it is, or a map from
paths to contents. -/
def Carries (capability : Capability) (document : StandardInput) : Prop :=
  capability.entrypoint? = some (callOf capability document).entrypoint ∧
    (callOf capability document).optimize = document.optimizerEnabled ∧
    ∃ texts : List (String × String),
      document.sources.map (fun s => (s.1, s.2.content)) = texts.map (fun t => (t.1, some t.2)) ∧
      if capability = .singleSource then
        ∃ path, texts = [(path, (callOf capability document).input)]
      else Json.parse (callOf capability document).input =
        .ok (.obj [("sources", .obj (texts.map fun t => (t.1, .str t.2)))])

theorem parse_sourcesText {texts : List (String × String)} (h : (texts.map Prod.fst).Nodup) :
    Json.parse (Json.text (.obj [("sources", .obj (texts.map fun t => (t.1, .str t.2)))])) =
      .ok (.obj [("sources", .obj (texts.map fun t => (t.1, .str t.2)))]) := by
  apply Json.parse_print Json.isPlain_spaced
  have htexts : (Json.obj (texts.map fun t => (t.1, .str t.2))).WellFormed := by
    rw [Json.WellFormed, wellFormedMembers_iff, List.map_map, List.forall_mem_map]
    exact ⟨h, fun t _ => trivial⟩
  rw [Json.WellFormed, wellFormedMembers_iff]
  exact ⟨List.nodup_singleton _, List.forall_mem_singleton.mpr htexts⟩

theorem carries_of_prepared (h : prepare capability document = .ok prepared)
    (hpaths : (document.sources.map Prod.fst).Nodup) : Carries capability document := by
  obtain ⟨texts, htexts, hcheck, -, hcall⟩ := prepare_eq_ok h
  rw [prepare_call h] at hcall
  obtain ⟨-, hsources⟩ := contents_eq_ok htexts
  have hnodup : (texts.map Prod.fst).Nodup := by
    have hfst := congrArg (List.map Prod.fst) hsources
    simp only [List.map_map, Function.comp_def] at hfst
    rwa [← hfst]
  rw [Carries, hcall]
  cases capability with
  | modern => cases hcheck
  | unsupported => cases hcheck
  | callback => exact ⟨rfl, rfl, texts, hsources, parse_sourcesText hnodup⟩
  | multiSource => exact ⟨rfl, rfl, texts, hsources, parse_sourcesText hnodup⟩
  | singleSource =>
    refine ⟨rfl, rfl, texts, hsources, ?_⟩
    match texts, hcheck with
    | [(path, text)], _ => exact ⟨path, rfl⟩

theorem finish_cases {call : Call} {records : List Json}
    (h : finish interpreter call records start = (outcome, after)) :
    after.calls = start.calls ++ [call] ∧ ∀ result, outcome = .ok result →
      ∃ printed, readResult call.optimize records printed = .ok result := by
  rw [finish, Run.bind_apply, Run.call] at h
  dsimp only at h
  cases hanswer : (interpreter.answer call start.state).1 with
  | error stop =>
    rw [hanswer] at h
    cases h
    exact ⟨rfl, fun result hresult => by cases hresult⟩
  | ok printed =>
    rw [hanswer] at h
    dsimp only at h
    cases hread : readResult call.optimize records printed with
    | error failure =>
      rw [hread] at h
      cases h
      exact ⟨rfl, fun result hresult => by cases hresult⟩
    | ok read =>
      rw [hread] at h
      cases h
      refine ⟨rfl, fun result hresult => ⟨printed, ?_⟩⟩
      cases hresult
      exact hread

theorem readResult_eq_ok {optimize : Bool} {records : List Json} {printed : String} {result : Json}
    (h : readResult optimize records printed = .ok result) :
    ∃ output, result = (Output.complete (metadataText optimize records) output).toJson := by
  obtain ⟨json, -, h⟩ := Results.bind_eq_ok h
  split at h
  · cases h
  · obtain ⟨output, houtput, rfl⟩ := Results.map_eq_ok h
    obtain ⟨legacy, -, rfl⟩ := Results.map_eq_ok houtput
    exact ⟨legacy, rfl⟩

theorem Turn.calls (h : Turn interpreter document start outcome after) :
    after.calls = start.calls ++ [callOf interpreter.capability document] := by
  obtain ⟨prepared, records, hprepare, -, hfinish⟩ := h
  rw [(finish_cases hfinish).1, prepare_call hprepare]

theorem Compiled.calls (h : Compiled interpreter start documents after) :
    after.calls = start.calls ++ documents.map (callOf interpreter.capability) := by
  induction h with
  | nil => rw [List.map_nil, List.append_nil]
  | snoc _ hturn ih => rw [hturn.calls, ih, List.map_append, List.append_assoc, List.map_singleton]

theorem Stopped.calls (h : Stopped interpreter start called rest stop after) :
    after.calls = start.calls ++ called.map (callOf interpreter.capability) := by
  cases h with
  | refused hcalled _ => exact hcalled.calls
  | failed hcalled hturn =>
    rw [hturn.calls, hcalled.calls, List.map_append, List.append_assoc, List.map_singleton]
  | unrecorded hcalled _ => exact hcalled.calls

theorem Compiled.exists_prepared (h : Compiled interpreter start documents after) :
    ∀ d ∈ documents, ∃ prepared, prepare interpreter.capability d = .ok prepared := by
  induction h with
  | nil => simp
  | snoc _ hturn ih =>
    obtain ⟨prepared, _, hprepare, -⟩ := hturn
    rw [List.forall_mem_append, List.forall_mem_singleton]
    exact ⟨ih, prepared, hprepare⟩

theorem Stopped.exists_prepared (h : Stopped interpreter start called rest stop after) :
    ∀ d ∈ called, ∃ prepared, prepare interpreter.capability d = .ok prepared := by
  cases h with
  | refused hcalled _ => exact hcalled.exists_prepared
  | failed hcalled hturn =>
    obtain ⟨prepared, _, hprepare, -⟩ := hturn
    rw [List.forall_mem_append, List.forall_mem_singleton]
    exact ⟨hcalled.exists_prepared, prepared, hprepare⟩
  | unrecorded hcalled _ => exact hcalled.exists_prepared

theorem wellFormed_of_mem_seedsOf {seed : StandardInput} (h : seed ∈ seedsOf document)
    (hd : document.WellFormed) : seed.WellFormed := by
  obtain ⟨raw, hraw, read, hread, rfl⟩ := mem_seedsOf h
  exact (StandardInput.wellFormed_of_parse hread (hd.seeds raw hraw)).withoutModelChecker

theorem wellFormed_of_mem_postOrder {document d : StandardInput} (h : d ∈ postOrder document)
    (hd : document.WellFormed) : d.WellFormed := by
  rw [postOrder_eq, List.mem_append, List.mem_singleton] at h
  rcases h with h | rfl
  · obtain ⟨seed, hseed, hmem⟩ := List.mem_flatMap.mp h
    exact wellFormed_of_mem_postOrder hmem (wellFormed_of_mem_seedsOf hseed hd)
  · exact hd
termination_by sizeOf document.settings
decreasing_by exact sizeOf_lt_of_mem_seedsOf hseed

/-- What is recorded of a seed: its sources as they are sent on, and its settings but those of
the model checker. -/
def IsRecord (raw record : Json) : Prop :=
  ∃ seed sources, StandardInput.parse raw = .ok seed ∧
    StandardInput.sentSources seed.sources = .ok sources ∧
    record = .obj [("sources", .obj sources),
      ("settings", .obj (Assoc.without seed.settings ["modelChecker"]))]

/-- The metadata of every contract give the flag that the document was called with, and one
record for each of its seeds. -/
def Describes (capability : Capability) (document : StandardInput) (result : Json) : Prop :=
  ∃ files, result.get? "contracts" = some (.obj files) ∧ ∀ file ∈ files,
    ∃ contracts, file.2 = .obj contracts ∧ ∀ contract ∈ contracts,
      ∃ text records, contract.2.get? "metadata" = some (.str text) ∧
        Json.parse text = .ok (.obj [("settings", .obj [
          ("optimizer", .obj [("enabled", .bool (callOf capability document).optimize)]),
          ("nonDeterministicSeeds", .arr records)])]) ∧
        List.Forall₂ IsRecord document.seeds records

theorem parse_metadataText {records : List Json} (optimize : Bool)
    (h : ∀ record ∈ records, record.WellFormed) :
    Json.parse (metadataText optimize records) = .ok (.obj [("settings", .obj [
      ("optimizer", .obj [("enabled", .bool optimize)]),
      ("nonDeterministicSeeds", .arr records)])]) := by
  apply Json.parse_print Json.isPlain_compact
  simp only [Json.WellFormed, Json.WellFormedMembers, wellFormedItems_iff]
  exact ⟨by simp, ⟨by simp, ⟨by simp, trivial, trivial⟩, h, trivial⟩, trivial⟩

theorem isRecord_of_seeds {raws records : List Json} {seeds : List StandardInput}
    (hraws : ∀ raw ∈ raws, raw.WellFormed)
    (hseeds : List.Forall₂ (fun raw seed => ∃ read, StandardInput.parse raw = .ok read ∧
      seed = read.withoutModelChecker) raws seeds)
    (hrecords : List.Forall₂ (fun seed record => seed.provenance = .ok record) seeds records) :
    List.Forall₂ IsRecord raws records ∧ ∀ record ∈ records, record.WellFormed := by
  induction hseeds generalizing records with
  | nil =>
    cases hrecords
    exact ⟨.nil, by simp⟩
  | cons hseed _ ih =>
    obtain ⟨read, hread, rfl⟩ := hseed
    cases hrecords with
    | cons hrecord hrecords =>
      have hwhole := StandardInput.wellFormed_of_parse hread (hraws _ List.mem_cons_self)
      have hpart := hwhole.withoutModelChecker
      obtain ⟨hall, hwellFormed⟩ := ih (fun raw hraw => hraws raw (List.mem_cons_of_mem _ hraw))
        hrecords
      obtain ⟨sources, hsources, heq⟩ := StandardInput.provenance_eq_ok hrecord hpart
      refine ⟨.cons ⟨read, sources, hread, hsources, heq⟩ hall, ?_⟩
      exact List.forall_mem_cons.mpr
        ⟨StandardInput.wellFormed_of_provenance hrecord hpart, hwellFormed⟩

theorem Turn.describes {result : Json}
    (h : Turn interpreter document start (.ok result) after) (hd : document.WellFormed) :
    Describes interpreter.capability document result := by
  obtain ⟨prepared, records, hprepare, hrecords, hfinish⟩ := h
  obtain ⟨printed, hread⟩ := (finish_cases hfinish).2 result rfl
  obtain ⟨output, rfl⟩ := readResult_eq_ok hread
  obtain ⟨_, -, -, hseeds, -⟩ := prepare_eq_ok hprepare
  obtain ⟨hall, hwellFormed⟩ := isRecord_of_seeds hd.seeds (readSeeds_eq_ok hseeds).2
    (Results.mapM_eq_ok hrecords)
  refine ⟨_, rfl, ?_⟩
  intro file hfile
  simp only [Output.complete, List.map_map, List.mem_map] at hfile
  obtain ⟨contents, -, rfl⟩ := hfile
  refine ⟨_, rfl, ?_⟩
  intro contract hcontract
  simp only [List.map_map, List.mem_map] at hcontract
  obtain ⟨c, -, rfl⟩ := hcontract
  refine ⟨metadataText prepared.call.optimize records, records, rfl, ?_, hall⟩
  rw [← prepare_call hprepare]
  exact parse_metadataText _ hwellFormed

/-- With a legacy build, the seeds of a document are called before it, each after its own seeds
and all in order, up to the first document that fails. Every value that is read from a text is
well-formed (`Json.wellFormed_of_parse`). -/
theorem compile_calls_postOrder (interpreter : Interpreter σ)
    (hlegacy : interpreter.capability.isLegacy) {raw : Json} (hraw : raw.WellFormed)
    (hdocument : StandardInput.parse raw = .ok document) (start : Progress σ) :
    ∃ outcome after called rest,
      Scripted.compile interpreter document start = (outcome, after) ∧
      postOrder document = called ++ rest ∧
      after.calls = start.calls ++ called.map (callOf interpreter.capability) ∧
      (∀ d ∈ called, Carries interpreter.capability d) ∧
      (∀ names, interpreter.capability = .ofEntrypoints names →
        ∀ d ∈ called, (callOf interpreter.capability d).entrypoint ∈ names) ∧
      match outcome with
      | .ok result => rest = [] ∧ Compiled interpreter start called after ∧
          Describes interpreter.capability document result
      | .error stop => Stopped interpreter start called rest stop after := by
  have hd := StandardInput.wellFormed_of_parse hdocument hraw
  have hall : ∀ d ∈ postOrder document, d.WellFormed :=
    fun d hmem => wellFormed_of_mem_postOrder hmem hd
  have hcarries {called rest : List StandardInput} (hsplit : postOrder document = called ++ rest)
      (hprepared : ∀ d ∈ called, ∃ prepared, prepare interpreter.capability d = .ok prepared) :
      ∀ d ∈ called, Carries interpreter.capability d := by
    intro d hmem
    obtain ⟨prepared, hprepare⟩ := hprepared d hmem
    exact carries_of_prepared hprepare (hall d (hsplit ▸ List.mem_append_left _ hmem)).paths
  have hnames {called : List StandardInput}
      (hcalled : ∀ d ∈ called, Carries interpreter.capability d) :
      ∀ names, interpreter.capability = .ofEntrypoints names →
        ∀ d ∈ called, (callOf interpreter.capability d).entrypoint ∈ names :=
    fun names heq d hmem => Capability.entrypoint_mem (heq ▸ (hcalled d hmem).1)
  have hne : interpreter.capability ≠ .modern := by
    rintro heq
    rw [heq] at hlegacy
    cases hlegacy
  have houtcome := outcome_compile hne document start
  rcases hrun : Scripted.compile interpreter document start with ⟨outcome, after⟩
  rw [hrun] at houtcome
  cases outcome with
  | ok result =>
    have hcompiled := houtcome.compiled
    obtain ⟨before, -, hturn⟩ := houtcome
    have hcalled := hcarries (List.append_nil _).symm hcompiled.exists_prepared
    exact ⟨_, _, postOrder document, [], rfl, (List.append_nil _).symm, hcompiled.calls, hcalled,
      hnames hcalled, rfl, hcompiled, hturn.describes hd⟩
  | error stop =>
    obtain ⟨called, rest, hsplit, hstopped⟩ := houtcome
    have hcalled := hcarries hsplit hstopped.exists_prepared
    exact ⟨_, _, called, rest, rfl, hsplit, hstopped.calls, hcalled, hnames hcalled, hstopped⟩

/-- A build that prints an empty object has a result for every document. -/
theorem finish_of_empty_output (call : Call) (records : List Json) (answered : Nat)
    (calls : List Call) : ∃ result,
    finish (rehearsed .multiSource []) call records ⟨answered, calls⟩ =
      (.ok result, ⟨answered + 1, calls ++ [call]⟩) :=
  ⟨(Output.complete (metadataText call.optimize records) ⟨[], [], []⟩).toJson, rfl⟩

theorem compile_calls_seed_first :
    let seed : Json := .obj [("sources", .obj [("s.sol", .obj [("content", .str "S")])])]
    let raw : Json := .obj [("sources", .obj [("a.sol", .obj [("content", .str "A")])]),
      ("settings", .obj [("nonDeterministicSeeds", .arr [seed])])]
    ∃ document result after, StandardInput.parse raw = .ok document ∧
      Scripted.compile (rehearsed .multiSource []) document ⟨0, []⟩ = (.ok result, after) ∧
      after.calls = [⟨"multi", "\x7b\"sources\": \x7b\"s.sol\": \"S\"\x7d\x7d", false⟩,
        ⟨"multi", "\x7b\"sources\": \x7b\"a.sol\": \"A\"\x7d\x7d", false⟩] := by
  intro seed raw
  have hraw : raw.WellFormed := by
    simp [raw, seed, Json.WellFormed, Json.WellFormedMembers, Json.WellFormedItems]
  let first : StandardInput := ⟨"Solidity", [("s.sol", ⟨some "S", []⟩)], [], []⟩
  let document : StandardInput := ⟨"Solidity", [("a.sol", ⟨some "A", []⟩)],
    [("nonDeterministicSeeds", .arr [seed])], []⟩
  have hdocument : StandardInput.parse raw = .ok document := rfl
  have hlegacy : (rehearsed .multiSource []).capability ≠ .modern := by decide
  have hfirst : prepare .multiSource first = .ok ⟨callOf .multiSource first, []⟩ := rfl
  have hwhole : prepare .multiSource document = .ok ⟨callOf .multiSource document, [first]⟩ := rfl
  have hrecorded : ∃ record, compileSeed (rehearsed .multiSource []) first ⟨0, []⟩ =
      (.ok record, ⟨1, [callOf .multiSource first]⟩) := by
    obtain ⟨result, hresult⟩ := finish_of_empty_output (callOf .multiSource first) [] 0 []
    rw [compileSeed, Run.bind_apply, compile_of_prepared hlegacy hfirst, List.mapM_nil, pure_bind,
      hresult]
    exact ⟨_, rfl⟩
  obtain ⟨record, hrecord⟩ := hrecorded
  obtain ⟨result, hresult⟩ := finish_of_empty_output (callOf .multiSource document) [record] 1
    [callOf .multiSource first]
  have hcompiled : Scripted.compile (rehearsed .multiSource []) document ⟨0, []⟩ =
      (.ok result, ⟨2, [callOf .multiSource first, callOf .multiSource document]⟩) := by
    rw [compile_of_prepared hlegacy hwhole, List.mapM_cons, List.mapM_nil, bind_assoc,
      Run.bind_apply, hrecord]
    exact hresult
  obtain ⟨outcome, after, called, rest, hrun, hsplit, hcalls, -, -, hends⟩ :=
    compile_calls_postOrder (rehearsed .multiSource []) (by decide) hraw hdocument ⟨0, []⟩
  rw [hcompiled] at hrun
  cases hrun
  obtain ⟨rfl, -⟩ := hends
  have hcalled : called = [first, document] := by
    rw [List.append_nil] at hsplit
    rw [← hsplit, postOrder_eq, show seedsOf document = [first] from rfl, List.flatMap_singleton,
      postOrder_eq]
    rfl
  refine ⟨document, result, _, hdocument, hcompiled, ?_⟩
  rw [hcalls, hcalled]
  rfl

end Legacy

end SolcDispatch
