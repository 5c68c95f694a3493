import SolcDispatch.Proofs.StandardInput
import SolcDispatch.Proofs.Text.Dotted

/-! What is wrong with a value that is no document: at each place that can be at fault one
thing at most, all of them found, and told in the order of the places. -/

namespace SolcDispatch

namespace StandardInput

variable {τ : Type}

section Exact

variable {α β : Type} {x : Checked τ α} {wrong other : Violation τ → Prop}
  {places : List (List τ)} {location : List τ} {message : String}

/-- A check finds all that is wrong and nothing else, in the order of the given places, and
gives a result where it finds nothing. -/
structure Exact (x : Checked τ α) (wrong : Violation τ → Prop) (places : List (List τ)) :
    Prop where
  mem (v : Violation τ) : v ∈ faults x ↔ wrong v
  order : ((faults x).map Violation.location).Sublist places
  exists_ok : faults x = [] → ∃ a, x = .ok a

theorem faults_map (f : α → β) (x : Checked τ α) : faults (x.map f) = faults x := by
  cases x <;> rfl

theorem Exact.ok (a : α) (h : ∀ v, ¬ wrong v) : Exact (.ok a) wrong places where
  mem v := by simp [faults, h]
  order := List.nil_sublist _
  exists_ok _ := ⟨a, rfl⟩

theorem Exact.refuse (h : wrong ⟨location, message⟩)
    (honly : ∀ v, wrong v → v = ⟨location, message⟩) (hplace : location ∈ places) :
    Exact (refuse location message : Checked τ α) wrong places where
  mem v := by
    rw [StandardInput.refuse, faults, List.mem_singleton]
    refine ⟨?_, honly v⟩
    rintro rfl
    exact h
  order := List.singleton_sublist.mpr hplace
  exists_ok hnil := by cases hnil

theorem Exact.map (h : Exact x wrong places) (f : α → β) : Exact (x.map f) wrong places where
  mem v := by rw [faults_map, h.mem]
  order := by
    rw [faults_map]
    exact h.order
  exists_ok hnil := by
    rw [faults_map] at hnil
    obtain ⟨a, rfl⟩ := h.exists_ok hnil
    exact ⟨f a, rfl⟩

theorem Exact.congr (h : Exact x wrong places) (hiff : ∀ v, wrong v ↔ other v) :
    Exact x other places :=
  ⟨fun v => (h.mem v).trans (hiff v), h.order, h.exists_ok⟩

end Exact

variable [TextLike τ]

/-- The parts of the place that a violation names; the whole value is named as the input. -/
def Violation.place (v : Violation τ) : List τ :=
  if v.location = [] then [key "input"] else v.location

section Texts

variable [Json.LawfulTextLike τ] [Concatenates τ]

/-- A violation is told as its place, with dots between the parts, a colon and the message. -/
theorem codes_text (v : Violation τ) : TextLike.codes v.text =
    [0x2E].intercalate (v.place.map TextLike.codes) ++
      (": " ++ v.message).toList.map Char.toNat := by
  obtain ⟨part, parts, hplace⟩ : ∃ part parts, v.place = part :: parts := by
    cases hlocation : v.location with
    | nil => exact ⟨_, [], by rw [Violation.place, if_pos hlocation]⟩
    | cons part parts => exact ⟨part, parts, by simp [Violation.place, hlocation]⟩
  have hmessage : TextLike.codes (key (": " ++ v.message) : τ) =
      (": " ++ v.message).toList.map Char.toNat := Json.LawfulTextLike.codes_ofString _
  have hfront : ((": " ++ v.message).toList.map Char.toNat).head?.any Text.isLowSurrogate =
      false := by
    rw [String.toList_append]
    rfl
  obtain ⟨t, ht⟩ := Text.exists_codes_dotted hmessage hfront part parts
  rw [← hplace] at ht
  have htext : v.text = TextLike.ofCodes (TextLike.codes t) := by
    simp only [ht, Violation.text, Violation.place, List.isEmpty_iff]
  have hcodes : TextLike.ofCodes (TextLike.codes t) = t :=
    Json.LawfulTextLike.ofCodes_of_joinHalves
      (Text.joinHalves_of_isJoined (Json.LawfulTextLike.isJoined_codes t))
  rw [htext, hcodes, ht]

theorem text_eq (v : Violation) : v.text = ".".intercalate v.place ++ ": " ++ v.message := by
  have hcodes : TextLike.codes (".".intercalate v.place ++ ": " ++ v.message) =
      TextLike.codes v.text := by
    rw [codes_text]
    simp only [TextLike.codes, String.toList_append, String.toList_intercalate, List.map_append,
      Text.map_intercalate, List.map_map, List.append_assoc]
    rfl
  rw [← Json.ofList_codes v.text, ← hcodes, Json.ofList_codes]

end Texts

def IsText (v : Json τ) : Prop := ∃ t, v = .str t

/-- The places of a source that can be at fault. -/
def entryPlaces (path : τ) : List (List τ) :=
  [[key "sources", path], [key "sources", path, key "content"]]

def sourcePlaces : Option (Json τ) → List (List τ)
  | some (.obj entries) => [key "sources"] :: entries.flatMap fun e => entryPlaces e.1
  | _ => [[key "sources"]]

theorem head?_of_mem_sourcePlaces {o : Option (Json τ)} {place : List τ}
    (h : place ∈ sourcePlaces o) : place.head? = some (key "sources") := by
  unfold sourcePlaces at h
  split at h
  · rcases List.mem_cons.mp h with rfl | h
    · rfl
    · obtain ⟨e, -, he⟩ := List.mem_flatMap.mp h
      simp only [entryPlaces, List.mem_cons, List.not_mem_nil, or_false] at he
      rcases he with rfl | rfl <;> rfl
  · rw [List.mem_singleton.mp h]
    rfl

theorem nodup_entryPlaces {entries : Json.Members τ} (h : (entries.map Prod.fst).Nodup) :
    (entries.flatMap fun e => entryPlaces e.1).Nodup := by
  rw [List.nodup_flatMap]
  refine ⟨fun e _ => by simp [entryPlaces], ?_⟩
  rw [List.Nodup, List.pairwise_map] at h
  refine h.imp fun {e e'} hne place he he' => ?_
  simp only [entryPlaces, List.mem_cons, List.not_mem_nil, or_false] at he he'
  rcases he with rfl | rfl <;> simp_all

theorem exact_checkLanguage (o : Option (Json τ)) :
    Exact (checkLanguage o) (fun v => (∃ language, o = some language ∧ ¬ IsText language) ∧
      v = ⟨[key "language"], notAString⟩) [[key "language"]] := by
  cases o with
  | none => exact .ok _ (by simp)
  | some language =>
    cases language with
    | str s => exact .ok _ (by simp [IsText])
    | _ => exact .refuse (by simp [IsText]) (by simp) (List.mem_singleton_self _)

theorem exact_checkSettings (o : Option (Json τ)) :
    Exact (checkSettings o) (fun v =>
      (∃ settings, o = some settings ∧ settings ≠ .null ∧ settings.isObject = false) ∧
        v = ⟨[key "settings"], notADictionary⟩) [[key "settings"]] := by
  cases o with
  | none => exact .ok _ (by simp)
  | some settings =>
    cases settings with
    | null => exact .ok _ (by simp)
    | obj members => exact .ok _ (by simp [Json.isObject])
    | _ => exact .refuse (by simp [Json.isObject]) (by simp) (List.mem_singleton_self _)

theorem exact_checkContent (path : τ) (o : Option (Json τ)) :
    Exact (checkContent path o) (fun v =>
      (∃ content, o = some content ∧ content ≠ .null ∧ ¬ IsText content) ∧
        v = ⟨[key "sources", path, key "content"], notAString⟩) (entryPlaces path) := by
  have hmem : [key "sources", path, key "content"] ∈ entryPlaces path := by simp [entryPlaces]
  cases o with
  | none => exact .ok _ (by simp)
  | some content =>
    cases content with
    | null => exact .ok _ (by simp)
    | str s => exact .ok _ (by simp [IsText])
    | _ => exact .refuse (by simp [IsText]) (by simp) hmem

section Values

variable [DecidableEq τ]

/-- A source: its content is a text or null, where it has one. -/
def IsEntry (v : Json τ) : Prop :=
  ∃ members, v = .obj members ∧
    ∀ content, Assoc.get? members (key "content") = some content → content = .null ∨ IsText content

def IsSources (sources : Option (Json τ)) : Prop :=
  ∃ entries, sources = some (.obj entries) ∧ ∀ e ∈ entries, IsEntry e.2

/-- A value that is a document. Only the sources must be there, and only the settings and the
contents of sources may be null. -/
def IsInput (raw : Json τ) : Prop :=
  ∃ members, raw = .obj members ∧
    (∀ language, Assoc.get? members (key "language") = some language → IsText language) ∧
    IsSources (Assoc.get? members (key "sources")) ∧
    ∀ settings, Assoc.get? members (key "settings") = some settings →
      settings = .null ∨ settings.isObject = true

/-- What is wrong with a source. -/
inductive EntryFault (path : τ) : Json τ → Violation τ → Prop
  | entry {v : Json τ} (h : v.isObject = false) :
      EntryFault path v ⟨[key "sources", path], notAPart "SourceEntry"⟩
  | content {members : Json.Members τ} {content : Json τ}
      (h : Assoc.get? members (key "content") = some content) (hnull : content ≠ .null)
      (htext : ¬ IsText content) :
      EntryFault path (.obj members) ⟨[key "sources", path, key "content"], notAString⟩

/-- What is wrong with the sources of a document. -/
inductive SourcesFault : Option (Json τ) → Violation τ → Prop
  | missing : SourcesFault none ⟨[key "sources"], fieldRequired⟩
  | sources {v : Json τ} (h : v.isObject = false) :
      SourcesFault (some v) ⟨[key "sources"], notADictionary⟩
  | entry {entries : Json.Members τ} {path : τ} {entry : Json τ} {v : Violation τ}
      (hmem : (path, entry) ∈ entries) (hentry : EntryFault path entry v) :
      SourcesFault (some (.obj entries)) v

/-- What is wrong with a value that is read as a document: the place, and the message for it. -/
inductive Fault : Json τ → Violation τ → Prop
  | root {raw : Json τ} (h : raw.isObject = false) :
      Fault raw ⟨[], notAPart "StandardInputDocument"⟩
  | language {members : Json.Members τ} {language : Json τ}
      (h : Assoc.get? members (key "language") = some language) (htext : ¬ IsText language) :
      Fault (.obj members) ⟨[key "language"], notAString⟩
  | sources {members : Json.Members τ} {v : Violation τ}
      (h : SourcesFault (Assoc.get? members (key "sources")) v) : Fault (.obj members) v
  | settings {members : Json.Members τ} {settings : Json τ}
      (h : Assoc.get? members (key "settings") = some settings) (hnull : settings ≠ .null)
      (hobject : settings.isObject = false) :
      Fault (.obj members) ⟨[key "settings"], notADictionary⟩

/-- The places of a value that can be at fault, in the order in which they are told. -/
def places : Json τ → List (List τ)
  | .obj members =>
    [key "language"] :: sourcePlaces (Assoc.get? members (key "sources")) ++ [[key "settings"]]
  | _ => [[]]

/-- No path of a source stands twice. -/
def PathsOnce (raw : Json τ) : Prop :=
  ∀ entries, raw.get? (key "sources") = some (.obj entries) → (entries.map Prod.fst).Nodup

theorem pathsOnce_of_wellFormed {raw : Json τ} (h : raw.WellFormed) : PathsOnce raw := by
  intro entries hentries
  cases raw with
  | obj members =>
    rw [Json.WellFormed, Json.wellFormedMembers_iff] at h
    have hsources := Json.wellFormed_of_get? hentries h.2
    rw [Json.WellFormed] at hsources
    exact hsources.1
  | _ => cases hentries

theorem isEntry_iff_not_fault {path : τ} {entry : Json τ} :
    IsEntry entry ↔ ∀ v, ¬ EntryFault path entry v := by
  constructor
  · rintro ⟨members, rfl, hcontent⟩ v hv
    cases hv with
    | entry h => cases h
    | content h hnull htext => exact (hcontent _ h).elim hnull htext
  · intro h
    cases entry with
    | obj members =>
      refine ⟨members, rfl, fun content hcontent => ?_⟩
      by_contra hnone
      rw [not_or] at hnone
      exact h _ (.content hcontent hnone.1 hnone.2)
    | _ => exact absurd (.entry rfl) (h _)

theorem isSources_iff_not_fault {sources : Option (Json τ)} :
    IsSources sources ↔ ∀ v, ¬ SourcesFault sources v := by
  constructor
  · rintro ⟨entries, rfl, hentries⟩ v hv
    cases hv with
    | sources h => cases h
    | entry hmem hentry => exact isEntry_iff_not_fault.mp (hentries _ hmem) _ hentry
  · intro h
    cases sources with
    | none => exact absurd .missing (h _)
    | some value =>
      cases value with
      | obj entries =>
        refine ⟨entries, rfl, fun e he => ?_⟩
        exact isEntry_iff_not_fault.mpr fun v hv => h v (.entry he hv)
      | _ => exact absurd (.sources rfl) (h _)

theorem isInput_iff_not_fault {raw : Json τ} : IsInput raw ↔ ∀ v, ¬ Fault raw v := by
  constructor
  · rintro ⟨members, rfl, hlanguage, hsources, hsettings⟩ v hv
    cases hv with
    | root h => cases h
    | language h htext => exact htext (hlanguage _ h)
    | sources h => exact isSources_iff_not_fault.mp hsources v h
    | settings h hnull hobject =>
      rcases hsettings _ h with rfl | hsettings
      · exact hnull rfl
      · rw [hsettings] at hobject
        cases hobject
  · intro h
    cases raw with
    | obj members =>
      refine ⟨members, rfl, fun language hlanguage => ?_, ?_, fun settings hsettings => ?_⟩
      · by_contra htext
        exact h _ (.language hlanguage htext)
      · exact isSources_iff_not_fault.mpr fun v hv => h v (.sources hv)
      · by_contra hnone
        rw [not_or] at hnone
        exact h _ (.settings hsettings hnone.1 (Bool.eq_false_of_not_eq_true hnone.2))
    | _ => exact absurd (.root rfl) (h _)

theorem faults_checkEntries_cons (path : τ) (entry : Json τ) (rest : Json.Members τ) :
    faults (checkEntries ((path, entry) :: rest)) =
      faults (checkEntry path entry) ++ faults (checkEntries rest) := by
  rw [checkEntries]
  cases checkEntry path entry <;> cases checkEntries rest <;> rfl

theorem faults_check_obj (members : Json.Members τ) :
    faults (check (.obj members)) =
      faults (checkLanguage (Assoc.get? members (key "language"))) ++
        faults (checkSources (Assoc.get? members (key "sources"))) ++
        faults (checkSettings (Assoc.get? members (key "settings"))) := by
  rw [check]
  cases checkLanguage (Assoc.get? members (key "language")) <;>
    cases checkSources (Assoc.get? members (key "sources")) <;>
    cases checkSettings (Assoc.get? members (key "settings")) <;> rfl

theorem exact_checkEntry (path : τ) (entry : Json τ) :
    Exact (checkEntry path entry) (EntryFault path entry) (entryPlaces path) := by
  cases entry with
  | obj members =>
    refine ((exact_checkContent path _).map _).congr fun v => ⟨?_, fun hv => ?_⟩
    · rintro ⟨⟨content, h, hnull, htext⟩, rfl⟩
      exact .content h hnull htext
    · cases hv with
      | entry h => cases h
      | content h hnull htext => exact ⟨⟨_, h, hnull, htext⟩, rfl⟩
  | _ =>
    refine .refuse (.entry rfl) (fun v hv => ?_) List.mem_cons_self
    cases hv
    rfl

theorem exact_checkEntries (entries : Json.Members τ) :
    Exact (checkEntries entries) (fun v => ∃ e ∈ entries, EntryFault e.1 e.2 v)
      (entries.flatMap fun e => entryPlaces e.1) := by
  induction entries with
  | nil => exact .ok _ (by simp)
  | cons e rest ih =>
    have hentry := exact_checkEntry e.1 e.2
    refine ⟨fun v => ?_, ?_, fun hnil => ?_⟩
    · rw [faults_checkEntries_cons, List.mem_append, hentry.mem, ih.mem]
      simp only [List.mem_cons, exists_eq_or_imp]
    · rw [faults_checkEntries_cons, List.map_append, List.flatMap_cons]
      exact hentry.order.append ih.order
    · rw [faults_checkEntries_cons, List.append_eq_nil_iff] at hnil
      obtain ⟨source, hsource⟩ := hentry.exists_ok hnil.1
      obtain ⟨sources, hsources⟩ := ih.exists_ok hnil.2
      rw [checkEntries, hsource, hsources]
      exact ⟨_, rfl⟩

theorem exact_checkSources (o : Option (Json τ)) :
    Exact (checkSources o) (SourcesFault o) (sourcePlaces o) := by
  cases o with
  | none =>
    refine .refuse .missing (fun v hv => ?_) (List.mem_singleton_self _)
    cases hv
    rfl
  | some sources =>
    cases sources with
    | obj entries =>
      have hentries := exact_checkEntries entries
      refine ⟨fun v => (hentries.mem v).trans ⟨?_, fun hv => ?_⟩, hentries.order.cons _,
        hentries.exists_ok⟩
      · rintro ⟨e, he, hentry⟩
        exact .entry he hentry
      · cases hv with
        | sources h => cases h
        | entry hmem hentry => exact ⟨_, hmem, hentry⟩
    | _ =>
      refine .refuse (.sources rfl) (fun v hv => ?_) (List.mem_singleton_self _)
      cases hv
      rfl

theorem exact_check (raw : Json τ) : Exact (check raw) (Fault raw) (places raw) := by
  cases raw with
  | obj members =>
    have hlanguage := exact_checkLanguage (Assoc.get? members (key "language"))
    have hsources := exact_checkSources (Assoc.get? members (key "sources"))
    have hsettings := exact_checkSettings (Assoc.get? members (key "settings"))
    refine ⟨fun v => ?_, ?_, fun hnil => ?_⟩
    · rw [faults_check_obj, List.mem_append, List.mem_append, hlanguage.mem, hsources.mem,
        hsettings.mem]
      constructor
      · rintro ((⟨⟨language, h, htext⟩, rfl⟩ | h) | ⟨⟨settings, h, hnull, hobject⟩, rfl⟩)
        · exact .language h htext
        · exact .sources h
        · exact .settings h hnull hobject
      · intro hv
        cases hv with
        | root h => cases h
        | language h htext => exact .inl (.inl ⟨⟨_, h, htext⟩, rfl⟩)
        | sources h => exact .inl (.inr h)
        | settings h hnull hobject => exact .inr ⟨⟨_, h, hnull, hobject⟩, rfl⟩
    · rw [faults_check_obj, List.map_append, List.map_append, places, ← List.singleton_append]
      exact (hlanguage.order.append hsources.order).append hsettings.order
    · rw [faults_check_obj, List.append_eq_nil_iff, List.append_eq_nil_iff] at hnil
      obtain ⟨language, hlanguage⟩ := hlanguage.exists_ok hnil.1.1
      obtain ⟨sources, hsources⟩ := hsources.exists_ok hnil.1.2
      obtain ⟨settings, hsettings⟩ := hsettings.exists_ok hnil.2
      rw [check, hlanguage, hsources, hsettings]
      exact ⟨_, rfl⟩
  | _ =>
    refine .refuse (.root rfl) (fun v hv => ?_) (List.mem_singleton_self _)
    cases hv
    rfl

/-- The violations are all that is wrong with a value, in the order of its places, and no place
is named twice. -/
structure Lists (raw : Json τ) (violations : List (Violation τ)) : Prop where
  ne_nil : violations ≠ []
  mem (v : Violation τ) : v ∈ violations ↔ Fault raw v
  order : (violations.map Violation.location).Sublist (places raw)
  once : PathsOnce raw → (violations.map Violation.location).Nodup

theorem exists_ok_check_iff {raw : Json τ} :
    (∃ document, check raw = .ok document) ↔ IsInput raw := by
  have hexact := exact_check raw
  rw [isInput_iff_not_fault]
  constructor
  · rintro ⟨document, hdocument⟩ v hv
    have hmem := (hexact.mem v).mpr hv
    rw [hdocument] at hmem
    cases hmem
  · intro h
    apply hexact.exists_ok
    rw [List.eq_nil_iff_forall_not_mem]
    exact fun v hv => h v ((hexact.mem v).mp hv)

theorem exists_ok_iff_isInput {raw : Json τ} :
    (∃ document, parse raw = .ok document) ↔ IsInput raw := by
  rw [← exists_ok_check_iff, parse]
  cases check raw with
  | ok document => exact ⟨fun _ => ⟨document, rfl⟩, fun _ => ⟨document, rfl⟩⟩
  | error violations => simp [Except.mapError]

variable [Json.LawfulTextLike τ]

theorem nodup_places {raw : Json τ} (h : PathsOnce raw) : (places raw).Nodup := by
  cases raw with
  | obj members =>
    have hsources : (sourcePlaces (Assoc.get? members (key "sources"))).Nodup := by
      unfold sourcePlaces
      split
      · rename_i entries hentries
        rw [List.nodup_cons]
        exact ⟨by simp [entryPlaces], nodup_entryPlaces (h entries hentries)⟩
      · exact List.nodup_singleton _
    have hne {name : String} (hname : name ≠ "sources") :
        [key name] ∉ sourcePlaces (Assoc.get? members (key "sources")) := by
      intro hmem
      have hhead := head?_of_mem_sourcePlaces hmem
      rw [List.head?_cons, Option.some_inj, key_inj] at hhead
      exact hname hhead
    rw [places, List.cons_append, List.nodup_cons, List.nodup_append]
    refine ⟨?_, hsources, List.nodup_singleton _, ?_⟩
    · rw [List.mem_append, not_or]
      exact ⟨hne (by decide), by simp [key_inj]⟩
    · intro place hplace other hother
      rw [List.mem_singleton.mp hother]
      rintro rfl
      exact hne (by decide) hplace
  | _ => exact List.nodup_singleton _

/-- A value that is no document is refused, with all that is wrong with it. -/
theorem exists_lists {raw : Json τ} (h : ¬ IsInput raw) :
    ∃ violations, Lists raw violations ∧ parse raw = .error (violations.map Violation.text) := by
  have hexact := exact_check raw
  cases hcheck : check raw with
  | ok document => exact absurd (exists_ok_check_iff.mp ⟨document, hcheck⟩) h
  | error violations =>
    rw [hcheck] at hexact
    refine ⟨violations, ⟨?_, hexact.mem, hexact.order, fun honce => ?_⟩, ?_⟩
    · rintro rfl
      obtain ⟨document, hdocument⟩ := hexact.exists_ok rfl
      cases hdocument
    · exact (nodup_places honce).sublist hexact.order
    · rw [parse, hcheck]
      rfl

end Values

end StandardInput

end SolcDispatch
