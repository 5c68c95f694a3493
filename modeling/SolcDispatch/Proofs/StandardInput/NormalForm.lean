import SolcDispatch.Proofs.Broker.Result
import SolcDispatch.Proofs.Json.Bytes
import SolcDispatch.Proofs.StandardInput

/-! A document is sent on without loss: what a compiler gets holds the parts of the document
as they were given, and reads back as a document that is sent on as the same value. -/

namespace SolcDispatch

open Json (wellFormedMembers_iff wellFormed_of_get?)

namespace Json

variable {τ : Type}

theorem allFiniteItems_iff {items : List (Json τ)} :
    allFiniteItems items ↔ ∀ v ∈ items, v.allFinite := by
  induction items with
  | nil => simp [allFiniteItems]
  | cons item rest ih => rw [allFiniteItems, Bool.and_eq_true, ih, List.forall_mem_cons]

theorem allFiniteMembers_iff {members : Members τ} :
    allFiniteMembers members ↔ ∀ m ∈ members, m.2.allFinite := by
  induction members with
  | nil => simp [allFiniteMembers]
  | cons first rest ih => rw [allFiniteMembers, Bool.and_eq_true, ih, List.forall_mem_cons]

end Json

open StandardInput (key)

variable {τ : Type}

/-- The members of a source as it is sent: its text first, and no nulls. -/
def SourceEntry.members [TextLike τ] (entry : SourceEntry τ) : Json.Members τ :=
  (entry.content.map fun text => (key "content", .str text)).toList ++
    entry.extras.filter fun m => !m.2.isNull

/-- A source without the keys whose value is null. -/
def SourceEntry.normal (entry : SourceEntry τ) : SourceEntry τ :=
  { entry with extras := entry.extras.filter fun m => !m.2.isNull }

namespace StandardInput

/-- Values that are written as they are: finite numbers, and not nested too deep. -/
def Kept (extras : Json.Members τ) : Prop := ∀ m ∈ extras, m.2.allFinite ∧ depth m.2 ≤ maxDepth

structure Sendable (document : StandardInput τ) : Prop where
  extras : Kept document.extras
  entries : ∀ s ∈ document.sources, Kept s.2.extras

def sentMembers [TextLike τ] (sources : List (τ × SourceEntry τ)) : Json.Members τ :=
  sources.map fun s => (s.1, .obj s.2.members)

def assemble [TextLike τ] (language : τ) (extras sources settings : Json.Members τ) : Json τ :=
  .obj ((key "language", .str language) :: extras ++
    [(key "sources", .obj sources), (key "settings", .obj settings)])

def normal (document : StandardInput τ) : StandardInput τ :=
  { document with sources := document.sources.map fun s => (s.1, s.2.normal) }

theorem finitePart_of_allFinite {v : Json τ} (h : v.allFinite) : finitePart v = v := by
  induction v using Json.nested with
  | float x => rw [finitePart, if_pos (by simpa only [Json.allFinite] using h)]
  | arr vs ih =>
    rw [Json.allFinite, Json.allFiniteItems_iff] at h
    rw [finitePart, finiteItems_eq_map, List.map_congr_left fun v hv => ih v hv (h v hv),
      List.map_id']
  | obj ms ih =>
    rw [Json.allFinite, Json.allFiniteMembers_iff] at h
    rw [finitePart, finiteMembers_eq_map,
      List.map_congr_left fun m hm => by rw [ih m hm (h m hm)], List.map_id']
  | _ => rfl

variable {extras : Json.Members τ} {document : StandardInput τ}

theorem Kept.sublist {some : Json.Members τ} (h : Kept extras) (hsome : some.Sublist extras) :
    Kept some :=
  fun m hm => h m (hsome.subset hm)

theorem sentExtras_of_kept (h : Kept extras) : sentExtras extras = .ok extras := by
  have hdepth : (extras.any fun m => maxDepth < depth m.2) = false := by
    rw [List.any_eq_false]
    intro m hm
    have := (h m hm).2
    simpa using this
  rw [sentExtras, hdepth, finiteMembers_eq_map,
    List.map_congr_left fun m hm => by rw [finitePart_of_allFinite (h m hm).1], List.map_id']
  rfl

theorem Sendable.normal (h : document.Sendable) : document.normal.Sendable := by
  refine ⟨h.extras, ?_⟩
  rw [StandardInput.normal, List.forall_mem_map]
  exact fun s hs => (h.entries s hs).sublist List.filter_sublist

variable [TextLike τ]

theorem sentEntry_of_kept {entry : SourceEntry τ} (h : Kept entry.extras) :
    sentEntry entry = .ok (.obj entry.members) := by
  rw [sentEntry, sentExtras_of_kept (h.sublist List.filter_sublist)]
  rfl

theorem sentSources_of_kept {sources : List (τ × SourceEntry τ)}
    (h : ∀ s ∈ sources, Kept s.2.extras) : sentSources sources = .ok (sentMembers sources) := by
  rw [sentSources]
  induction sources with
  | nil => rfl
  | cons first rest ih =>
    obtain ⟨path, entry⟩ := first
    obtain ⟨hentry, hrest⟩ := List.forall_mem_cons.mp h
    rw [List.mapM_cons, ih hrest]
    dsimp only
    rw [sentEntry_of_kept hentry]
    rfl

theorem payload_of_sendable (h : document.Sendable) : document.payload = .ok
    (assemble document.language document.extras (sentMembers document.sources)
      document.settings) := by
  rw [payload, sentExtras_of_kept h.extras, sentSources_of_kept h.entries]
  rfl

theorem members_normal (entry : SourceEntry τ) : entry.normal.members = entry.members := by
  rw [SourceEntry.members, SourceEntry.normal, SourceEntry.members, List.filter_filter]
  simp

theorem sentMembers_normal (sources : List (τ × SourceEntry τ)) :
    sentMembers (sources.map fun s => (s.1, s.2.normal)) = sentMembers sources := by
  simp [sentMembers, members_normal]

theorem payload_normal (h : document.Sendable) : document.normal.payload = document.payload := by
  rw [payload_of_sendable h, payload_of_sendable h.normal]
  exact congrArg (fun sources => Except.ok (assemble _ _ sources _)) (sentMembers_normal _)

theorem wellFormed_members {entry : SourceEntry τ} (h : entry.WellFormed) :
    (Json.obj entry.members).WellFormed := by
  have hextras := h.extras.obj_of_sublist (List.filter_sublist (p := fun m => !m.2.isNull))
  rw [SourceEntry.members]
  cases entry.content with
  | none => exact hextras
  | some text =>
    rw [Json.WellFormed, wellFormedMembers_iff] at hextras
    have hfresh : key "content" ∉ (entry.extras.filter fun m => !m.2.isNull).map Prod.fst :=
      fun hmem => h.content ((List.filter_sublist.map Prod.fst).subset hmem)
    rw [Option.map_some, Option.toList_some, List.singleton_append, Json.WellFormed,
      wellFormedMembers_iff, List.map_cons, List.nodup_cons, List.forall_mem_cons]
    exact ⟨⟨hfresh, hextras.1⟩, trivial, hextras.2⟩

theorem wellFormed_sentMembers {sources : List (τ × SourceEntry τ)}
    (hpaths : (sources.map Prod.fst).Nodup) (hentries : ∀ s ∈ sources, s.2.WellFormed) :
    (Json.obj (sentMembers sources)).WellFormed := by
  rw [Json.WellFormed, wellFormedMembers_iff, sentMembers, List.map_map, List.forall_mem_map]
  exact ⟨hpaths, fun s hs => wellFormed_members (hentries s hs)⟩

/-- A compiler gets the text: a native one as its whole input, and a scripted one that takes
standard documents in its only call. -/
structure Receives (document : StandardInput τ) (text : String) : Prop where
  native : ∀ files path program, Native.start files path = .ok program → ∀ trace,
    let run := Invocation.ofNative files path document trace
    run.written = (program (Text.utf8 text) true).files ∧
      run.outcome = (Native.finish program (Text.utf8 text)).bind fun done =>
        done.output.mapError .failed
  scripted : ∀ (σ : Type) (interpreter : Interpreter σ) (start : Progress σ),
    (Scripted.compileModern interpreter document start).2.calls =
      start.calls ++ [⟨"standard", text, false⟩]

theorem Receives.compile {document : StandardInput} {text : String} (h : Receives document text)
    {σ : Type} {interpreter : Interpreter σ} (hmodern : interpreter.capability = .modern)
    (start : Progress σ) : (Scripted.compile interpreter document start).2.calls =
      start.calls ++ [⟨"standard", text, false⟩] := by
  rw [Scripted.compile_of_modern hmodern]
  exact h.scripted σ interpreter start

theorem receives_payloadText {text : String} (h : document.payloadText = .ok text) :
    Receives document text where
  native files path program hprogram trace := by
    simp only [Invocation.ofNative, h, Native.written, Native.run, hprogram]
    cases Native.finish program (Text.utf8 text) <;> exact ⟨rfl, rfl⟩
  scripted σ interpreter start := by
    rw [Scripted.compileModern_apply h]
    rcases interpreter.answer ⟨"standard", text, false⟩ start.state with ⟨answer, state⟩
    cases answer with
    | error stop => rfl
    | ok printed =>
      dsimp only
      cases readOutput printed "" <;> rfl

theorem language_of_check {given : Option (Json τ)} {language : τ}
    (h : checkLanguage given = .ok language) :
    given = some (.str language) ∨ given = none ∧ language = key "Solidity" := by
  cases given with
  | none =>
    cases h
    exact .inr ⟨rfl, rfl⟩
  | some v =>
    cases v with
    | str text =>
      cases h
      exact .inl rfl
    | _ => cases h

theorem settings_of_check {given : Option (Json τ)} {settings : Json.Members τ}
    (h : checkSettings given = .ok settings) : given = some (.obj settings) ∨
      (given = none ∨ given = some .null) ∧ settings = [] := by
  cases given with
  | none =>
    cases h
    exact .inr ⟨.inl rfl, rfl⟩
  | some v =>
    cases v with
    | null =>
      cases h
      exact .inr ⟨.inr rfl, rfl⟩
    | obj members =>
      cases h
      exact .inl rfl
    | _ => cases h

theorem wellFormed_assembled [Json.LawfulTextLike τ] {language : τ}
    {extras sources settings : Json.Members τ} (hextras : (Json.obj extras).WellFormed)
    (hsources : (Json.obj sources).WellFormed) (hsettings : (Json.obj settings).WellFormed)
    (hknown : ∀ name ∈ [key "language", key "sources", key "settings"],
      name ∉ extras.map Prod.fst) :
    (assemble language extras sources settings).WellFormed := by
  obtain ⟨hlanguage, hknown⟩ := List.forall_mem_cons.mp hknown
  rw [Json.WellFormed, wellFormedMembers_iff] at hextras
  rw [assemble, Json.WellFormed, wellFormedMembers_iff]
  refine ⟨?_, ?_⟩
  · simp only [List.cons_append, List.map_cons, List.map_append, List.map_nil, List.nodup_cons,
      List.nodup_append, List.mem_append, not_or]
    refine ⟨⟨hlanguage, by simp [key_inj]⟩, hextras.1, by simp [key_inj], ?_⟩
    rintro name hname _ hother rfl
    exact hknown name hother hname
  · simp only [List.cons_append, List.forall_mem_cons, List.forall_mem_append]
    exact ⟨trivial, hextras.2, hsources, hsettings, by simp⟩

theorem WellFormed.known_notMem (h : document.WellFormed) :
    ∀ name ∈ [key "language", key "sources", key "settings"],
      name ∉ document.extras.map Prod.fst := by
  simp only [List.forall_mem_cons]
  exact ⟨h.language_notMem, h.sources_notMem, h.settings_notMem, by simp⟩

theorem wellFormed_assemble [Json.LawfulTextLike τ] (h : document.WellFormed) : (assemble document.language
    document.extras (sentMembers document.sources) document.settings).WellFormed :=
  wellFormed_assembled h.extras (wellFormed_sentMembers h.paths h.entries) h.settings
    h.known_notMem

theorem payload_cases {sent : Json τ} (h : document.payload = .ok sent) : ∃ extras sources,
    sentExtras document.extras = .ok extras ∧ sentSources document.sources = .ok sources ∧
      sent = assemble document.language extras sources document.settings := by
  obtain ⟨extras, hextras, h⟩ := Results.bind_eq_ok h
  obtain ⟨sources, hsources, h⟩ := Results.bind_eq_ok h
  cases h
  exact ⟨extras, sources, hextras, hsources, rfl⟩

theorem wellFormed_of_payload [Json.LawfulTextLike τ] {sent : Json τ}
    (h : document.payload = .ok sent) (hd : document.WellFormed) : sent.WellFormed := by
  obtain ⟨extras, sources, hextras, hsources, rfl⟩ := payload_cases h
  have hsent := wellFormed_of_sentSources hsources hd.paths hd.entries
  unfold sentExtras at hextras
  split at hextras
  · cases hextras
  · cases hextras
    have hfinite := wellFormed_finitePart hd.extras
    rw [finitePart] at hfinite
    refine wellFormed_assembled hfinite hsent hd.settings ?_
    rw [map_fst_finiteMembers]
    exact hd.known_notMem

variable [DecidableEq τ]

theorem checkEntry_members {entry : SourceEntry τ} (path : τ) (h : entry.WellFormed) :
    checkEntry path (.obj entry.members) = .ok entry.normal := by
  have hfresh : key "content" ∉ (entry.extras.filter fun m => !m.2.isNull).map Prod.fst :=
    fun hmem => h.content ((List.filter_sublist.map Prod.fst).subset hmem)
  have hwithout := Assoc.without_of_notMem
    (List.forall_mem_singleton.mpr hfresh : ∀ name ∈ [key "content"], name ∉ _)
  have hget := Assoc.get?_of_notMem hfresh
  obtain ⟨content, extras⟩ := entry
  rw [checkEntry, SourceEntry.members]
  cases content with
  | none =>
    simp only [Option.map_none, Option.toList_none, List.nil_append, hwithout, hget]
    rfl
  | some text =>
    rw [Option.map_some, Option.toList_some, List.singleton_append,
      Assoc.without_cons_of_mem (List.mem_singleton.mpr rfl), hwithout, Assoc.get?_cons_self]
    rfl

theorem checkEntries_sentMembers {sources : List (τ × SourceEntry τ)}
    (h : ∀ s ∈ sources, s.2.WellFormed) :
    checkEntries (sentMembers sources) = .ok (sources.map fun s => (s.1, s.2.normal)) := by
  induction sources with
  | nil => rfl
  | cons first rest ih =>
    obtain ⟨hfirst, hrest⟩ := List.forall_mem_cons.mp h
    have ih := ih hrest
    rw [sentMembers] at ih ⊢
    rw [List.map_cons, checkEntries, checkEntry_members _ hfirst, ih]
    rfl

/-- A source as it is sent has the members it was given with, but those that are null. -/
def SentFor (given sent : τ × Json τ) : Prop :=
  sent.1 = given.1 ∧ ∃ members kept, given.2 = .obj members ∧ sent.2 = .obj kept ∧
    kept.Perm (members.filter fun m => !m.2.isNull)

theorem perm_members {path : τ} {members : Json.Members τ} {entry : SourceEntry τ}
    (h : checkEntry path (.obj members) = .ok entry) (hnodup : (members.map Prod.fst).Nodup) :
    entry.members.Perm (members.filter fun m => !m.2.isNull) := by
  obtain ⟨content, hcontent, rfl⟩ := Results.map_eq_ok h
  rw [SourceEntry.members]
  cases hget : Assoc.get? members (key "content") with
  | none =>
    rw [hget] at hcontent
    cases hcontent
    rw [Assoc.without_of_notMem (by simpa using Assoc.notMem_of_get?_none hget)]
    exact .refl _
  | some v =>
    obtain ⟨before, after, rfl, hwithout⟩ := Assoc.split_of_get? hget hnodup
    rw [hget] at hcontent
    rw [hwithout, List.filter_append, List.filter_append]
    cases v with
    | null =>
      cases hcontent
      rw [List.filter_cons_of_neg (by simp [Json.isNull])]
      exact .refl _
    | str text =>
      cases hcontent
      rw [List.filter_cons_of_pos (by simp [Json.isNull]), Option.map_some, Option.toList_some,
        List.singleton_append]
      exact List.perm_middle.symm
    | _ => cases hcontent

theorem sentFor_sentMembers {entries : Json.Members τ} {sources : List (τ × SourceEntry τ)}
    (h : checkEntries entries = .ok sources) (hentries : ∀ m ∈ entries, m.2.WellFormed) :
    List.Forall₂ SentFor entries (sentMembers sources) := by
  induction entries generalizing sources with
  | nil =>
    cases h
    exact .nil
  | cons first rest ih =>
    obtain ⟨path, v⟩ := first
    obtain ⟨entry, more, hentry, hrest, rfl⟩ := checkEntries_cons h
    obtain ⟨hv, hentries⟩ := List.forall_mem_cons.mp hentries
    refine .cons ?_ (ih hrest hentries)
    cases v with
    | obj members =>
      rw [Json.WellFormed] at hv
      exact ⟨rfl, members, entry.members, rfl, rfl, perm_members hentry hv.1⟩
    | _ => cases hentry

/-- The parts of a value as a document is read from them: the language as given, the keys
that are not known, every source, and the settings as given. -/
structure Parts (raw : Json τ) (language : τ) (extras sources settings : Json.Members τ) :
    Prop where
  language : raw.get? (key "language") = some (.str language) ∨
    raw.get? (key "language") = none ∧ language = key "Solidity"
  extras : ∃ members, raw = .obj members ∧
    extras = Assoc.without members [key "language", key "sources", key "settings"]
  sources : ∃ entries, raw.get? (key "sources") = some (.obj entries) ∧
    List.Forall₂ SentFor entries sources
  settings : raw.get? (key "settings") = some (.obj settings) ∨
    (raw.get? (key "settings") = none ∨ raw.get? (key "settings") = some .null) ∧ settings = []

theorem sources_of_check {given : Option (Json τ)} {sources : List (τ × SourceEntry τ)}
    (h : checkSources given = .ok sources) :
    ∃ entries, given = some (.obj entries) ∧ checkEntries entries = .ok sources := by
  cases given with
  | none => cases h
  | some v =>
    cases v with
    | obj entries => exact ⟨entries, rfl, h⟩
    | _ => cases h

theorem parts_of_parse {raw : Json τ} (h : parse raw = .ok document) (hraw : raw.WellFormed) :
    Parts raw document.language document.extras (sentMembers document.sources)
      document.settings := by
  obtain ⟨members, rfl, hlanguage, hsources, hsettings, hextras⟩ := check_cases (check_of_parse h)
  obtain ⟨entries, hgiven, hentries⟩ := sources_of_check hsources
  rw [Json.WellFormed, wellFormedMembers_iff] at hraw
  have hwellFormed := wellFormed_of_get? hgiven hraw.2
  rw [Json.WellFormed, wellFormedMembers_iff] at hwellFormed
  exact ⟨language_of_check hlanguage, ⟨members, rfl, hextras⟩,
    ⟨entries, hgiven, sentFor_sentMembers hentries hwellFormed.2⟩, settings_of_check hsettings⟩

variable [Json.LawfulTextLike τ]

theorem parse_payloadText (h : document.WellFormed) (hsend : document.Sendable) :
    ∃ text, document.payloadText = .ok text ∧ Json.parse text τ = .ok
      (assemble document.language document.extras (sentMembers document.sources)
        document.settings) := by
  refine ⟨_, ?_, Json.parse_print Json.isPlain_spaced (wellFormed_assemble h)⟩
  rw [payloadText, payload_of_sendable hsend]
  rfl

theorem parse_assemble (h : document.WellFormed) : parse (assemble document.language
    document.extras (sentMembers document.sources) document.settings) = .ok document.normal := by
  have hget {name : τ} (hlanguage : name ≠ key "language")
      (hname : name ∉ document.extras.map Prod.fst) (more : Json.Members τ) :
      Assoc.get? ((key "language", .str document.language) :: document.extras ++ more) name =
        Assoc.get? more name := by
    rw [List.cons_append, Assoc.get?_cons_ne hlanguage, Assoc.get?_append_of_notMem hname]
  have hwithout : Assoc.without document.extras [key "language", key "sources", key "settings"] =
      document.extras :=
    Assoc.without_of_notMem (by
      simp only [List.forall_mem_cons]
      exact ⟨h.language_notMem, h.sources_notMem, h.settings_notMem, by simp⟩)
  have hextras : Assoc.without ((key "language", .str document.language) :: document.extras ++
      [(key "sources", .obj (sentMembers document.sources)),
        (key "settings", .obj document.settings)])
      [key "language", key "sources", key "settings"] = document.extras := by
    rw [List.cons_append, Assoc.without_cons_of_mem (by simp), Assoc.without_append, hwithout,
      Assoc.without_cons_of_mem (by simp), Assoc.without_cons_of_mem (by simp)]
    exact List.append_nil _
  have hlanguage (more : Json.Members τ) : checkLanguage (Assoc.get?
      ((key "language", .str document.language) :: document.extras ++ more) (key "language")) =
        .ok document.language := by
    rw [List.cons_append, Assoc.get?_cons_self]
    rfl
  have hsources (settings : Json.Members τ) : checkSources (Assoc.get?
      [((key "sources" : τ), .obj (sentMembers document.sources)), (key "settings", .obj settings)]
        (key "sources")) = .ok (document.sources.map fun s => (s.1, s.2.normal)) := by
    rw [Assoc.get?_cons_self]
    exact checkEntries_sentMembers h.entries
  have hsettings (sources : Json.Members τ) : checkSettings (Assoc.get?
      [((key "sources" : τ), .obj sources), (key "settings", .obj document.settings)]
        (key "settings")) = .ok document.settings := by
    rw [Assoc.get?_cons_ne (by simp [key_inj]), Assoc.get?_cons_self]
    rfl
  rw [parse, assemble, check, hget (by simp [key_inj]) h.sources_notMem,
    hget (by simp [key_inj]) h.settings_notMem, hextras, hlanguage, hsources, hsettings]
  rfl

theorem forwards_normal_form {raw : Json τ} (hraw : raw.WellFormed)
    (hparse : parse raw = .ok document) (hsend : document.Sendable) :
    ∃ language extras sources settings text again,
      Parts raw language extras sources settings ∧ Receives document text ∧
      Json.parse text τ = .ok (assemble language extras sources settings) ∧
      Json.parseBytes? (Text.utf8 text) τ = some (.ok (assemble language extras sources settings)) ∧
      parse (assemble language extras sources settings) = .ok again ∧
      again.payload = .ok (assemble language extras sources settings) ∧
      document.withoutModelChecker.payload = .ok
        (assemble language extras sources (Assoc.without settings [key "modelChecker"])) := by
  have hdocument := wellFormed_of_parse hparse hraw
  have hassembled := wellFormed_assemble hdocument
  obtain ⟨text, htext, hread⟩ := parse_payloadText hdocument hsend
  have hbytes : Json.parseBytes? (Text.utf8 text) τ = some (.ok (assemble document.language
      document.extras (sentMembers document.sources) document.settings)) := by
    rw [payloadText, payload_of_sendable hsend] at htext
    cases htext
    exact Json.parseBytes?_print Json.isPlain_spaced hassembled
  have hagain := payload_of_sendable hsend
  rw [← payload_normal hsend] at hagain
  have hstripped : document.withoutModelChecker.Sendable := ⟨hsend.extras, hsend.entries⟩
  exact ⟨_, _, _, _, text, document.normal, parts_of_parse hparse hraw, receives_payloadText htext,
    hread, hbytes, parse_assemble hdocument, hagain, payload_of_sendable hstripped⟩

theorem forwards_null_members :
    let half : Wide := ⟨[0xD800], rfl⟩
    let raw : Json Wide := .obj [(key "note", .arr [.null]), (key "settings", .null),
      (key "sources", .obj [(key "a.sol", .obj [(key "urls", .null), (key "content", .str half)])])]
    ∃ document language extras sources settings text, parse raw = .ok document ∧
      Parts raw language extras sources settings ∧ Receives document text ∧
      Json.parse text Wide = .ok (assemble language extras sources settings) := by
  intro half raw
  have hraw : raw.WellFormed := by
    simp [raw, Json.WellFormed, Json.WellFormedMembers, Json.WellFormedItems, key_inj]
  have hparse : parse raw = .ok ⟨key "Solidity",
      [(key "a.sol", ⟨some half, [(key "urls", .null)]⟩)], [], [(key "note", .arr [.null])]⟩ := rfl
  obtain ⟨language, extras, sources, settings, text, -, hparts, hreceives, hread, -⟩ :=
    forwards_normal_form hraw hparse ⟨by simp [Kept, Json.allFinite, Json.allFiniteItems, depth,
      itemsDepth, maxDepth], by simp [Kept, Json.allFinite, depth, maxDepth]⟩
  exact ⟨_, language, extras, sources, settings, text, hparse, hparts, hreceives, hread⟩

end StandardInput

end SolcDispatch
