import SolcDispatch.Proofs.Json.Strings
import SolcDispatch.Proofs.Json.WellFormed
import SolcDispatch.Proofs.Results
import SolcDispatch.StandardInput

/-! Documents that are read from well-formed values, and what is recorded of them. -/

namespace SolcDispatch

open Json (wellFormedItems_iff wellFormedMembers_iff wellFormed_of_get?)

namespace StandardInput

variable {τ : Type}

theorem finiteItems_eq_map (items : List (Json τ)) : finiteItems items = items.map finitePart := by
  induction items with
  | nil => rfl
  | cons item rest ih => rw [finiteItems, ih, List.map_cons]

theorem finiteMembers_eq_map (members : Json.Members τ) :
    finiteMembers members = members.map fun m => (m.1, finitePart m.2) := by
  induction members with
  | nil => rfl
  | cons first rest ih => rw [finiteMembers, ih, List.map_cons]

theorem map_fst_finiteMembers (members : Json.Members τ) :
    (finiteMembers members).map Prod.fst = members.map Prod.fst := by
  rw [finiteMembers_eq_map, List.map_map]
  rfl

theorem wellFormed_finitePart {v : Json τ} (hv : v.WellFormed) : (finitePart v).WellFormed := by
  induction v using Json.nested with
  | float x =>
    rw [finitePart]
    split
    · exact hv
    · trivial
  | arr vs ih =>
    rw [Json.WellFormed, wellFormedItems_iff] at hv
    rw [finitePart, finiteItems_eq_map, Json.WellFormed, wellFormedItems_iff, List.forall_mem_map]
    exact fun v hmem => ih v hmem (hv v hmem)
  | obj ms ih =>
    rw [Json.WellFormed, wellFormedMembers_iff] at hv
    rw [finitePart, Json.WellFormed, map_fst_finiteMembers, wellFormedMembers_iff,
      finiteMembers_eq_map, List.forall_mem_map]
    exact ⟨hv.1, fun m hm => ih m hm (hv.2 m hm)⟩
  | _ => exact hv

theorem key_inj [TextLike τ] [Json.LawfulTextLike τ] {a b : String} :
    (key a : τ) = key b ↔ a = b := Json.ofString_inj

end StandardInput

open StandardInput (key)

variable {τ : Type} [TextLike τ]

structure SourceEntry.WellFormed (entry : SourceEntry τ) : Prop where
  content : key "content" ∉ entry.extras.map Prod.fst
  extras : (Json.obj entry.extras).WellFormed

namespace StandardInput

structure WellFormed (document : StandardInput τ) : Prop where
  paths : (document.sources.map Prod.fst).Nodup
  entries : ∀ s ∈ document.sources, s.2.WellFormed
  settings : (Json.obj document.settings).WellFormed
  extras : (Json.obj document.extras).WellFormed
  language_notMem : key "language" ∉ document.extras.map Prod.fst
  sources_notMem : key "sources" ∉ document.extras.map Prod.fst
  settings_notMem : key "settings" ∉ document.extras.map Prod.fst

theorem wellFormed_of_sentEntry {entry : SourceEntry τ} {v : Json τ} (h : sentEntry entry = .ok v)
    (hentry : entry.WellFormed) : v.WellFormed := by
  obtain ⟨sent, hsent, h⟩ := Results.bind_eq_ok h
  cases h
  unfold sentExtras at hsent
  split at hsent
  · cases hsent
  · cases hsent
    have hkept := hentry.extras.obj_of_sublist
      (List.filter_sublist (p := fun m => !m.2.isNull))
    have hall := wellFormed_finitePart hkept
    rw [finitePart] at hall
    cases hc : entry.content with
    | none => exact hall
    | some text =>
      rw [Json.WellFormed, wellFormedMembers_iff, map_fst_finiteMembers] at hall
      have hfresh : key "content" ∉ (entry.extras.filter fun m => !m.2.isNull).map Prod.fst :=
        fun hmem => hentry.content ((List.filter_sublist.map Prod.fst).subset hmem)
      simp only [Option.map_some, Option.toList_some, List.singleton_append]
      rw [Json.WellFormed, wellFormedMembers_iff, List.map_cons, map_fst_finiteMembers,
        List.nodup_cons, List.forall_mem_cons]
      exact ⟨⟨hfresh, hall.1⟩, trivial, hall.2⟩

theorem wellFormed_of_sentSources {sources : List (τ × SourceEntry τ)} {sent : Json.Members τ}
    (h : sentSources sources = .ok sent) (hpaths : (sources.map Prod.fst).Nodup)
    (hentries : ∀ s ∈ sources, s.2.WellFormed) : (Json.obj sent).WellFormed := by
  rw [Json.WellFormed, wellFormedMembers_iff]
  suffices hall : sent.map Prod.fst = sources.map Prod.fst ∧ ∀ m ∈ sent, m.2.WellFormed from
    ⟨hall.1 ▸ hpaths, hall.2⟩
  have hsent := Results.mapM_eq_ok h
  clear h hpaths
  induction hsent with
  | nil => simp
  | cons hfirst _ ih =>
    obtain ⟨v, hv, hfirst⟩ := Results.bind_eq_ok hfirst
    cases hfirst
    have ih := ih fun s hs => hentries s (List.mem_cons_of_mem _ hs)
    rw [List.map_cons, List.map_cons, ih.1, List.forall_mem_cons]
    exact ⟨rfl, wellFormed_of_sentEntry hv (hentries _ List.mem_cons_self), ih.2⟩

variable [DecidableEq τ] {members : Json.Members τ} {document : StandardInput τ}

theorem wellFormed_of_checkEntry {path : τ} {v : Json τ} {entry : SourceEntry τ}
    (h : checkEntry path v = .ok entry) (hv : v.WellFormed) : entry.WellFormed := by
  cases v with
  | obj members =>
    obtain ⟨content, -, rfl⟩ := Results.map_eq_ok h
    exact ⟨Assoc.notMem_without (by simp), hv.obj_of_sublist (Assoc.without_sublist _ _)⟩
  | _ => cases h

theorem checkEntries_cons {path : τ} {v : Json τ} {sources : List (τ × SourceEntry τ)}
    (h : checkEntries ((path, v) :: members) = .ok sources) :
    ∃ entry rest, checkEntry path v = .ok entry ∧ checkEntries members = .ok rest ∧
      sources = (path, entry) :: rest := by
  rw [checkEntries] at h
  split at h
  · rename_i entry entries hentry hentries
    cases h
    exact ⟨entry, entries, hentry, hentries, rfl⟩
  · cases h

theorem wellFormed_of_checkEntries {sources : List (τ × SourceEntry τ)}
    (h : checkEntries members = .ok sources) (hm : (Json.obj members).WellFormed) :
    (sources.map Prod.fst).Nodup ∧ ∀ s ∈ sources, s.2.WellFormed := by
  rw [Json.WellFormed, wellFormedMembers_iff] at hm
  suffices hall : sources.map Prod.fst = members.map Prod.fst ∧
      ∀ s ∈ sources, s.2.WellFormed from ⟨hall.1 ▸ hm.1, hall.2⟩
  replace hm := hm.2
  induction members generalizing sources with
  | nil =>
    cases h
    simp
  | cons first members ih =>
    obtain ⟨entry, rest, hentry, hrest, rfl⟩ := checkEntries_cons h
    have hfirst := wellFormed_of_checkEntry hentry (hm first List.mem_cons_self)
    have ih := ih hrest fun m hm' => hm m (List.mem_cons_of_mem _ hm')
    refine ⟨?_, ?_⟩
    · rw [List.map_cons, List.map_cons, ih.1]
    · exact List.forall_mem_cons.mpr ⟨hfirst, ih.2⟩

theorem wellFormed_of_checkSources {sources : List (τ × SourceEntry τ)}
    (h : checkSources (Assoc.get? members (key "sources")) = .ok sources)
    (hm : ∀ m ∈ members, m.2.WellFormed) :
    (sources.map Prod.fst).Nodup ∧ ∀ s ∈ sources, s.2.WellFormed := by
  cases hget : Assoc.get? members (key "sources") with
  | none =>
    rw [hget] at h
    cases h
  | some v =>
    have hv := wellFormed_of_get? hget hm
    rw [hget] at h
    cases v with
    | obj entries => exact wellFormed_of_checkEntries h hv
    | _ => cases h

theorem wellFormed_of_checkSettings {settings : Json.Members τ}
    (h : checkSettings (Assoc.get? members (key "settings")) = .ok settings)
    (hm : ∀ m ∈ members, m.2.WellFormed) : (Json.obj settings).WellFormed := by
  have hempty : (Json.obj ([] : Json.Members τ)).WellFormed := by
    simp [Json.WellFormed, Json.WellFormedMembers]
  cases hget : Assoc.get? members (key "settings") with
  | none =>
    rw [hget] at h
    cases h
    exact hempty
  | some v =>
    have hv := wellFormed_of_get? hget hm
    rw [hget] at h
    cases v with
    | null =>
      cases h
      exact hempty
    | obj settings =>
      cases h
      exact hv
    | _ => cases h

theorem check_cases {raw : Json τ} (h : check raw = .ok document) :
    ∃ members, raw = .obj members ∧
      checkLanguage (Assoc.get? members (key "language")) = .ok document.language ∧
      checkSources (Assoc.get? members (key "sources")) = .ok document.sources ∧
      checkSettings (Assoc.get? members (key "settings")) = .ok document.settings ∧
      document.extras = Assoc.without members [key "language", key "sources", key "settings"] := by
  unfold check at h
  split at h
  · rename_i members
    dsimp only at h
    split at h
    · rename_i language sources settings hlanguage hsources hsettings
      cases h
      exact ⟨members, rfl, hlanguage, hsources, hsettings, rfl⟩
    · cases h
  · cases h

theorem check_of_parse {raw : Json τ} (h : parse raw = .ok document) : check raw = .ok document := by
  unfold parse at h
  cases hc : check raw with
  | error violations =>
    rw [hc] at h
    cases h
  | ok read =>
    rw [hc] at h
    cases h
    rfl

theorem wellFormed_of_parse {raw : Json τ} (h : parse raw = .ok document) (hraw : raw.WellFormed) :
    document.WellFormed := by
  obtain ⟨members, rfl, -, hsources, hsettings, hextras⟩ := check_cases (check_of_parse h)
  have hunknown := hraw.obj_of_sublist
    (Assoc.without_sublist _ [key "language", key "sources", key "settings"])
  rw [Json.WellFormed, wellFormedMembers_iff] at hraw
  obtain ⟨hpaths, hentries⟩ := wellFormed_of_checkSources hsources hraw.2
  refine ⟨hpaths, hentries, wellFormed_of_checkSettings hsettings hraw.2, ?_, ?_, ?_, ?_⟩
  · rw [hextras]
    exact hunknown
  · rw [hextras]
    exact Assoc.notMem_without (by simp)
  · rw [hextras]
    exact Assoc.notMem_without (by simp)
  · rw [hextras]
    exact Assoc.notMem_without (by simp)

theorem WellFormed.withoutModelChecker (h : document.WellFormed) :
    document.withoutModelChecker.WellFormed :=
  { h with settings := h.settings.obj_of_sublist (Assoc.without_sublist _ _) }

theorem WellFormed.seeds (h : document.WellFormed) : ∀ raw ∈ document.seeds, raw.WellFormed := by
  have hsettings := h.settings
  rw [Json.WellFormed, wellFormedMembers_iff] at hsettings
  unfold StandardInput.seeds
  split
  · rename_i raws hraws
    have hv := wellFormed_of_get? hraws hsettings.2
    rwa [Json.WellFormed, wellFormedItems_iff] at hv
  · simp

variable [Json.LawfulTextLike τ]

theorem provenance_eq_ok {v : Json τ} (h : document.provenance = .ok v) (hd : document.WellFormed) :
    ∃ sources, sentSources document.sources = .ok sources ∧
      v = .obj [(key "sources", .obj sources), (key "settings", .obj document.settings)] := by
  obtain ⟨payload, hpayload, h⟩ := Results.bind_eq_ok h
  obtain ⟨extras, hextras, hpayload⟩ := Results.bind_eq_ok hpayload
  obtain ⟨sources, hsources, hpayload⟩ := Results.bind_eq_ok hpayload
  cases hpayload
  cases h
  unfold sentExtras at hextras
  split at hextras
  · cases hextras
  · cases hextras
    refine ⟨sources, hsources, ?_⟩
    have hget {name : τ} (hlanguage : key "language" ≠ name)
        (hname : name ∉ document.extras.map Prod.fst) (more : Json.Members τ) :
        Json.getD (.obj ((key "language", .str document.language) ::
          finiteMembers document.extras ++ more)) name = (Json.obj more).getD name := by
      rw [← map_fst_finiteMembers] at hname
      simp only [Json.getD, Json.get?, List.cons_append, Assoc.get?, hlanguage, if_false,
        Assoc.get?_append_of_notMem hname]
    rw [hget (by simp [key_inj]) hd.sources_notMem, hget (by simp [key_inj]) hd.settings_notMem]
    simp [Json.getD, Json.get?, Assoc.get?, key_inj]

theorem wellFormed_of_provenance {v : Json τ} (h : document.provenance = .ok v)
    (hd : document.WellFormed) : v.WellFormed := by
  obtain ⟨sources, hsources, rfl⟩ := provenance_eq_ok h hd
  have hsent := wellFormed_of_sentSources hsources hd.paths hd.entries
  rw [Json.WellFormed, wellFormedMembers_iff]
  refine ⟨by simp [key_inj], ?_⟩
  simp only [List.forall_mem_cons]
  exact ⟨hsent, hd.settings, by simp⟩

end StandardInput

end SolcDispatch
