import SolcDispatch.Proofs.Legacy.PostOrder
import SolcDispatch.Proofs.StandardInput

/-! Documents without settings of the model checker, in themselves and in their seeds at any
depth. What is read of a document for a legacy build is the same with and without them, but
for its seeds, which differ in the same way. -/

namespace SolcDispatch

namespace Assoc

variable {κ α : Type} [DecidableEq κ]

/-- Change the values under a name. -/
def update (entries : List (κ × α)) (name : κ) (change : α → α) : List (κ × α) :=
  entries.map fun e => (e.1, if e.1 = name then change e.2 else e.2)

variable {entries : List (κ × α)} {name other : κ} {change : α → α}

theorem get?_update_self : get? (update entries name change) name =
    (get? entries name).map change := by
  induction entries with
  | nil => rfl
  | cons e entries ih =>
    unfold update at ih ⊢
    by_cases he : e.1 = name
    · simp [get?, he]
    · simp only [List.map_cons, get?, he, if_false, ih]

theorem get?_update_ne (h : other ≠ name) : get? (update entries name change) other =
    get? entries other := by
  induction entries with
  | nil => rfl
  | cons e entries ih =>
    unfold update at ih ⊢
    by_cases he : e.1 = other
    · have hname : ¬ e.1 = name := fun heq => h (he.symm.trans heq)
      simp [get?, he, h]
    · simp only [List.map_cons, get?, he, if_false, ih]

theorem without_update {names : List κ} (h : name ∈ names) :
    without (update entries name change) names = without entries names := by
  induction entries with
  | nil => rfl
  | cons e entries ih =>
    unfold update without at ih ⊢
    rw [List.map_cons, List.filter_cons, List.filter_cons, ih]
    by_cases he : e.1 = name
    · simp [he, h]
    · simp [he]

end Assoc

namespace StandardInput

mutual

/-- A seed without settings of the model checker, nor its own seeds with any. -/
def bareSeed : Json → Json
  | .obj members => .obj (bareMembers members)
  | value => value

def bareMembers : Json.Members → Json.Members
  | [] => []
  | (name, value) :: rest =>
    (name, if name = "settings" then bareSettingsIn value else value) :: bareMembers rest

def bareSettingsIn : Json → Json
  | .obj settings => .obj (bareSettings settings)
  | value => value

def bareSettings : Json.Members → Json.Members
  | [] => []
  | (name, value) :: rest =>
    if name = "modelChecker" then bareSettings rest
    else (name, if name = "nonDeterministicSeeds" then bareSeedsIn value else value) ::
      bareSettings rest

def bareSeedsIn : Json → Json
  | .arr seeds => .arr (bareSeeds seeds)
  | value => value

def bareSeeds : List Json → List Json
  | [] => []
  | seed :: rest => bareSeed seed :: bareSeeds rest

end

theorem bareMembers_eq (members : Json.Members) :
    bareMembers members = Assoc.update members "settings" bareSettingsIn := by
  induction members with
  | nil => rfl
  | cons member rest ih => rw [bareMembers, ih, Assoc.update, Assoc.update, List.map_cons]

theorem bareSettings_eq (settings : Json.Members) : bareSettings settings =
    Assoc.update (Assoc.without settings ["modelChecker"]) "nonDeterministicSeeds"
      bareSeedsIn := by
  induction settings with
  | nil => rfl
  | cons member rest ih =>
    obtain ⟨name, value⟩ := member
    rw [bareSettings, ih]
    by_cases hname : name = "modelChecker"
    · simp [hname, Assoc.without]
    · simp [hname, Assoc.without, Assoc.update]

theorem bareSeeds_eq (seeds : List Json) : bareSeeds seeds = seeds.map bareSeed := by
  induction seeds with
  | nil => rfl
  | cons seed rest ih => rw [bareSeeds, ih, List.map_cons]

/-- The document without settings of the model checker, its own and those of all its seeds. -/
def bare (document : StandardInput) : StandardInput :=
  { document with settings := bareSettings document.settings }

theorem parts_of_bare {d e : StandardInput} (h : d.bare = e.bare) :
    d.language = e.language ∧ d.sources = e.sources ∧ d.extras = e.extras := by
  have hlanguage := congrArg StandardInput.language h
  have hsources := congrArg StandardInput.sources h
  have hextras := congrArg StandardInput.extras h
  exact ⟨hlanguage, hsources, hextras⟩

theorem eq_of_bare {d e : StandardInput} (h : d.bare = e.bare) (hs : d.settings = e.settings) :
    d = e := by
  obtain ⟨hlanguage, hsources, hextras⟩ := parts_of_bare h
  obtain ⟨_, _, _, _⟩ := d
  obtain ⟨_, _, _, _⟩ := e
  simp only [mk.injEq]
  exact ⟨hlanguage, hsources, hs, hextras⟩

theorem bare_withoutModelChecker (d : StandardInput) : d.withoutModelChecker.bare = d.bare := by
  have hsettings : bareSettings (Assoc.without d.settings [key "modelChecker"]) =
      bareSettings d.settings := by
    rw [bareSettings_eq, bareSettings_eq]
    simp [key, Assoc.without, List.filter_filter, TextLike.ofString]
  exact congrArg (mk d.language d.sources · d.extras) hsettings

theorem withoutModelChecker_bare (d : StandardInput) : d.bare.withoutModelChecker = d.bare := by
  have hnone : key "modelChecker" ∉ (bareSettings d.settings).map Prod.fst := by
    rw [bareSettings_eq, Assoc.update, List.map_map]
    exact Assoc.notMem_without (List.mem_singleton.mpr rfl)
  have hkept : Assoc.without (bareSettings d.settings) [key "modelChecker"] =
      bareSettings d.settings := Assoc.without_of_notMem (by simpa using hnone)
  exact congrArg (mk d.language d.sources · d.extras) hkept

theorem get?_bareSettings {name : String} (settings : Json.Members)
    (hchecker : name ≠ "modelChecker") (hseeds : name ≠ "nonDeterministicSeeds") :
    Assoc.get? (bareSettings settings) name = Assoc.get? settings name := by
  rw [bareSettings_eq, Assoc.get?_update_ne hseeds, Assoc.get?_without_ne hchecker]

theorem get?_seeds_bareSettings (settings : Json.Members) :
    Assoc.get? (bareSettings settings) "nonDeterministicSeeds" =
      (Assoc.get? settings "nonDeterministicSeeds").map bareSeedsIn := by
  rw [bareSettings_eq, Assoc.get?_update_self, Assoc.get?_without_ne (by decide)]

theorem seeds_bare (d : StandardInput) : d.bare.seeds = d.seeds.map bareSeed := by
  have hget : Assoc.get? d.bare.settings (key "nonDeterministicSeeds") =
      (Assoc.get? d.settings (key "nonDeterministicSeeds")).map bareSeedsIn :=
    get?_seeds_bareSettings d.settings
  rw [seeds, seeds, hget]
  cases Assoc.get? d.settings (key "nonDeterministicSeeds") with
  | none => rfl
  | some value =>
    cases value with
    | arr seeds => exact bareSeeds_eq seeds
    | _ => rfl

theorem optimizerEnabled_bare (d : StandardInput) :
    d.bare.optimizerEnabled = d.optimizerEnabled := by
  have hget : Assoc.get? d.bare.settings (key "optimizer") =
      Assoc.get? d.settings (key "optimizer") :=
    get?_bareSettings d.settings (by decide) (by decide)
  rw [optimizerEnabled, optimizerEnabled, hget]

theorem checkSettings_bare (value : Option Json) :
    checkSettings (value.map bareSettingsIn) = (checkSettings value).map bareSettings := by
  cases value with
  | none => rfl
  | some value => cases value <;> rfl

/-- A seed without settings of the model checker is read as the document without them, and
what is wrong with it stays wrong. -/
theorem check_bareSeed (raw : Json) : check (bareSeed raw) = (check raw).map bare := by
  cases raw with
  | obj members =>
    have hlanguage : Assoc.get? (bareMembers members) (key "language") =
        Assoc.get? members (key "language") := by
      rw [bareMembers_eq, Assoc.get?_update_ne (by decide)]
    have hsources : Assoc.get? (bareMembers members) (key "sources") =
        Assoc.get? members (key "sources") := by
      rw [bareMembers_eq, Assoc.get?_update_ne (by decide)]
    have hsettings : Assoc.get? (bareMembers members) (key "settings") =
        (Assoc.get? members (key "settings")).map bareSettingsIn := by
      rw [bareMembers_eq]
      exact Assoc.get?_update_self
    have hextras : Assoc.without (bareMembers members)
        [key "language", key "sources", key "settings"] =
        Assoc.without members [key "language", key "sources", key "settings"] := by
      rw [bareMembers_eq]
      exact Assoc.without_update (by simp [key, TextLike.ofString])
    rw [bareSeed, check, check, hlanguage, hsources, hsettings, hextras, checkSettings_bare]
    cases checkLanguage (Assoc.get? members (key "language")) <;>
      cases checkSources (Assoc.get? members (key "sources")) <;>
      cases checkSettings (Assoc.get? members (key "settings")) <;> rfl
  | _ => rfl

theorem parse_bareSeed (raw : Json) : parse (bareSeed raw) = (parse raw).map bare := by
  rw [parse, parse, check_bareSeed]
  cases check raw <;> rfl

end StandardInput

end SolcDispatch
