import SolcDispatch.Legacy.SeedSize
import SolcDispatch.Proofs.Results

/-! Documents in the order in which they are compiled: the seeds of a document in turn, each
after its own seeds, and then the document. -/

namespace SolcDispatch.Legacy

/-- The seeds of a document that are documents. -/
def seedsOf (document : StandardInput) : List StandardInput :=
  (document.seeds.filterMap fun raw => (StandardInput.parse raw).toOption).map
    StandardInput.withoutModelChecker

variable {document seed : StandardInput} {capability : Capability} {prepared : Prepared}

theorem mem_seedsOf (h : seed ∈ seedsOf document) :
    ∃ raw ∈ document.seeds, ∃ read, StandardInput.parse raw = .ok read ∧
      seed = read.withoutModelChecker := by
  obtain ⟨read, hread, rfl⟩ := List.mem_map.mp h
  obtain ⟨raw, hraw, hparse⟩ := List.mem_filterMap.mp hread
  exact ⟨raw, hraw, read, Results.eq_ok_of_toOption hparse, rfl⟩

theorem sizeOf_lt_of_mem_seedsOf (h : seed ∈ seedsOf document) :
    sizeOf seed.settings < sizeOf document.settings := by
  obtain ⟨raw, hraw, read, hread, rfl⟩ := mem_seedsOf h
  have hsettings := sizeOf_settings_lt hread
  have hfilter := sizeOf_filter_le
    (fun e => !([StandardInput.key "modelChecker"].contains e.1)) read.settings
  have hitem := List.sizeOf_lt_of_mem hraw
  have hseeds := sizeOf_seeds_le document
  simp only [StandardInput.withoutModelChecker, Assoc.without]
  omega

def postOrder (document : StandardInput) : List StandardInput :=
  (seedsOf document).attach.flatMap (fun seed => postOrder seed.1) ++ [document]
termination_by sizeOf document.settings
decreasing_by exact sizeOf_lt_of_mem_seedsOf seed.2

theorem postOrder_eq (document : StandardInput) :
    postOrder document = (seedsOf document).flatMap postOrder ++ [document] := by
  rw [postOrder, List.flatMap_subtype (g := postOrder) (fun _ _ => rfl), List.unattach_attach]

def contentsOf (document : StandardInput) : List (String × String) :=
  document.sources.filterMap fun s => s.2.content.map fun text => (s.1, text)

/-- The call of a document: its contents and its own optimizer flag. -/
def callOf (capability : Capability) (document : StandardInput) : Call :=
  ⟨capability.entrypoint?.getD "", sourceText capability (contentsOf document),
    document.optimizerEnabled⟩

theorem contents_eq_ok {sources : List (String × SourceEntry)} {texts : List (String × String)}
    (h : contents sources = .ok texts) :
    texts = sources.filterMap (fun s => s.2.content.map fun text => (s.1, text)) ∧
      sources.map (fun s => (s.1, s.2.content)) = texts.map fun t => (t.1, some t.2) := by
  induction sources generalizing texts with
  | nil =>
    cases h
    exact ⟨rfl, rfl⟩
  | cons first sources ih =>
    rw [contents] at h
    split at h
    · cases h
    · rename_i text hcontent
      obtain ⟨more, hmore, rfl⟩ := Results.map_eq_ok h
      obtain ⟨hmore, hsources⟩ := ih hmore
      constructor
      · rw [hmore, List.filterMap_cons, hcontent]
        rfl
      · rw [List.map_cons, List.map_cons, hsources, hcontent]

theorem readSeeds_eq_ok {index : Nat} {raws : List Json} {seeds : List StandardInput}
    (h : readSeeds index raws = .ok seeds) :
    seeds = (raws.filterMap fun raw => (StandardInput.parse raw).toOption).map
        StandardInput.withoutModelChecker ∧
      List.Forall₂ (fun raw seed => ∃ read, StandardInput.parse raw = .ok read ∧
        seed = read.withoutModelChecker) raws seeds := by
  induction raws generalizing index seeds with
  | nil =>
    cases h
    exact ⟨rfl, .nil⟩
  | cons raw raws ih =>
    rw [readSeeds] at h
    split at h
    · cases h
    · rename_i read hread
      obtain ⟨more, hmore, rfl⟩ := Results.map_eq_ok h
      obtain ⟨hmore, hall⟩ := ih hmore
      constructor
      · rw [hmore, List.filterMap_cons, hread]
        rfl
      · exact .cons ⟨read, hread, rfl⟩ hall

theorem prepare_eq_ok (h : prepare capability document = .ok prepared) :
    ∃ texts, contents document.sources = .ok texts ∧ checkSources capability texts = .ok () ∧
      readSeeds 0 document.seeds = .ok prepared.seeds ∧
      prepared.call = ⟨capability.entrypoint?.getD "", sourceText capability texts,
        document.optimizerEnabled⟩ := by
  obtain ⟨texts, htexts, h⟩ := Results.bind_eq_ok h
  obtain ⟨⟨⟩, hcheck, h⟩ := Results.bind_eq_ok h
  obtain ⟨seeds, hseeds, h⟩ := Results.bind_eq_ok h
  cases h
  exact ⟨texts, htexts, hcheck, hseeds, rfl⟩

theorem prepare_call (h : prepare capability document = .ok prepared) :
    prepared.call = callOf capability document := by
  obtain ⟨texts, htexts, -, -, hcall⟩ := prepare_eq_ok h
  rw [hcall, callOf, contentsOf, (contents_eq_ok htexts).1]

theorem prepare_seeds (h : prepare capability document = .ok prepared) :
    prepared.seeds = seedsOf document := by
  obtain ⟨texts, -, -, hseeds, -⟩ := prepare_eq_ok h
  rw [(readSeeds_eq_ok hseeds).1, seedsOf]

end SolcDispatch.Legacy
