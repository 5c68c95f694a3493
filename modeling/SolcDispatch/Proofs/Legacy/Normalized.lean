import SolcDispatch.Proofs.Legacy.Layout
import SolcDispatch.Proofs.Legacy.Seeds
import SolcDispatch.Proofs.LinkReference.Grouping

/-! The one form of all legacy results: every contract has the metadata of its compilation, and
the libraries of its code stand under the empty source name. All else is as it was translated. -/

namespace SolcDispatch.Legacy

open LinkReference (ByLibrary isGrouped)

variable {object output contract : Json} {libraries : ByLibrary} {read : Contract}
  {result : Output}

/-- The libraries in the code of a contract; what is no text has none. -/
def librariesOf : Json → ByLibrary
  | .str code => LinkReference.find code
  | _ => []

theorem librariesIn_eq_ok (h : librariesIn object = .ok libraries) :
    libraries = librariesOf object := by
  unfold librariesIn at h
  split at h
  · rename_i hempty
    rw [Bool.not_eq_true', ← Bool.not_eq_true] at hempty
    cases h
    cases object with
    | str code =>
      obtain rfl : code = "" := by simpa [truthy_str_iff] using hempty
      rfl
    | _ => rfl
  · cases object <;> cases h
    rfl

/-- What a contract takes from its entry as it stands there, and the libraries of its code. -/
theorem ofJson_code (h : Contract.ofJson contract = .ok read) :
    read.creation.object = contract.getD "bytecode" ∧
      read.creation.linkReferences = (librariesOf (contract.getD "bytecode")).members ∧
      read.deployed.object = contract.getD "runtimeBytecode" ∧
      read.deployed.linkReferences = (librariesOf (contract.getD "runtimeBytecode")).members := by
  obtain ⟨-, libraries, deployed, hlibraries, hdeployed, hcreation, hcode⟩ :=
    Contract.parts_of_ofJson h
  rw [hcreation, hcode, ← librariesIn_eq_ok hlibraries, ← librariesIn_eq_ok hdeployed]
  exact ⟨rfl, rfl, rfl, rfl⟩

/-- Code in its final form: the object as it is, and its libraries, if there are any, under the
empty source name and nowhere else. -/
structure IsFinal (object code : Json) : Prop where
  object_eq : code.get? "object" = some object
  linkReferences : ∃ links, code.get? "linkReferences" = some (.obj links) ∧ isGrouped links ∧
    (librariesOf object = [] → links = []) ∧
    (librariesOf object ≠ [] → links = [("", .obj (librariesOf object).members)])

theorem isFinal_grouped {code : Code} (hobject : code.object = object)
    (hlinks : code.linkReferences = (librariesOf object).members) :
    IsFinal object code.grouped.toJson := by
  refine ⟨?_, LinkReference.group (librariesOf object).members, ?_,
    LinkReference.isGrouped_group _, fun h => ?_, fun h => LinkReference.group_members h⟩
  · rw [← hobject]
    rfl
  · rw [← hlinks]
    cases hopcodes : code.opcodes <;>
      simp [Code.toJson, Code.grouped, hopcodes, Json.get?, Assoc.get?]
  · rw [h]
    rfl

/-- A contract without its metadata and its libraries. -/
def Contract.bare (c : Contract) : Contract :=
  { c with
    metadata := .null
    creation := { c.creation with linkReferences := [] }
    deployed := { c.deployed with linkReferences := [] } }

def Output.bare (output : Output) : Output :=
  { output with contracts := output.contracts.map fun file =>
      (file.1, file.2.map fun c => (c.1, c.2.bare)) }

theorem bare_complete (metadata : String) (output : Output) :
    (output.complete metadata).bare = output.bare := by
  simp only [Output.bare, Output.complete, List.map_map, Function.comp_def]
  rfl

theorem contractAt_complete (metadata : String) (output : Output) (file name : String) :
    contractAt (output.complete metadata).contracts file name =
      (contractAt output.contracts file name).map (Contract.complete metadata) := by
  have hfile := Assoc.get?_map (fun contracts : List (String × Contract) =>
    contracts.map fun c => (c.1, c.2.complete metadata)) output.contracts file
  rw [contractAt, Output.complete, hfile, contractAt]
  cases Assoc.get? output.contracts file with
  | none => rfl
  | some contracts =>
    exact Assoc.get?_map (Contract.complete metadata) contracts name

/-- Every contract of a result has the metadata text, which says the flag and the seeds, and its
code is in final form. All else is as it is translated. The seeds are values as they are read. -/
theorem normalize_canonical {optimize : Bool} {seeds : List Json}
    (hseeds : ∀ seed ∈ seeds, seed.WellFormed)
    (h : normalize output optimize seeds = .ok result) :
    Json.parse (metadataText optimize seeds) = .ok (.obj [("settings", .obj [
      ("optimizer", .obj [("enabled", .bool optimize)]),
      ("nonDeterministicSeeds", .arr seeds)])]) ∧
    (∃ translated, Output.ofJson output = .ok translated ∧ result.bare = translated.bare) ∧
    ∀ file name document, result.toJson.at? ["contracts", file, name] = some document →
      document.at? ["metadata"] = some (.str (metadataText optimize seeds)) ∧
      ∃ entry, LastAt file name (membersIn (output.getD "contracts")) entry ∧
        (∃ code, document.at? ["evm", "bytecode"] = some code ∧
          IsFinal (entry.2.getD "bytecode") code) ∧
        ∃ code, document.at? ["evm", "deployedBytecode"] = some code ∧
          IsFinal (entry.2.getD "runtimeBytecode") code := by
  obtain ⟨translated, htranslated, rfl⟩ := Results.map_eq_ok h
  refine ⟨parse_metadataText optimize hseeds, ⟨translated, htranslated, bare_complete _ _⟩, ?_⟩
  intro file name document hdocument
  rw [at?_contract, contractAt_complete] at hdocument
  obtain ⟨completed, hcompleted, hdocument⟩ := Option.bind_eq_some_iff.mp hdocument
  obtain ⟨read, hread, rfl⟩ := Option.map_eq_some_iff.mp hcompleted
  cases hdocument
  obtain ⟨entry, hentry, hcontract⟩ :=
    (contractAt_eq_some_iff (ofJson_eq_ok htranslated).1).mp hread
  obtain ⟨hobject, hlinks, hdeployed, hdeployedLinks⟩ := ofJson_code hcontract
  exact ⟨rfl, entry, hentry, ⟨_, rfl, isFinal_grouped hobject hlinks⟩,
    _, rfl, isFinal_grouped hdeployed hdeployedLinks⟩

theorem normalize_canonical_placeholder :
    let seed : Json := .obj [("sources", .obj [("a.sol", .str "hash")])]
    let contract : Json := .obj [("bytecode", .str "60__L_____________________________________"),
      ("runtimeBytecode", .str "6001")]
    let output : Json := .obj [("contracts", .obj [("a.sol:A", contract)])]
    (∀ value ∈ [seed], value.WellFormed) ∧ ∃ result, normalize output true [seed] = .ok result ∧
      Json.parse (metadataText true [seed]) = .ok (.obj [("settings", .obj [
        ("optimizer", .obj [("enabled", .bool true)]),
        ("nonDeterministicSeeds", .arr [seed])])]) ∧
      ∃ document, result.toJson.at? ["contracts", "a.sol", "A"] = some document ∧
        document.at? ["metadata"] = some (.str (metadataText true [seed])) ∧
        ∃ entry, LastAt "a.sol" "A" (membersIn (output.getD "contracts")) entry ∧
          ∃ code, document.at? ["evm", "bytecode"] = some code ∧
            IsFinal (entry.2.getD "bytecode") code := by
  intro seed contract output
  have hseeds : ∀ value ∈ [seed], value.WellFormed := by
    simp [seed, Json.WellFormed, Json.WellFormedMembers]
  obtain ⟨result, hresult, document, hdocument⟩ : ∃ result,
      normalize output true [seed] = .ok result ∧
      ∃ document, result.toJson.at? ["contracts", "a.sol", "A"] = some document :=
    ⟨_, rfl, _, rfl⟩
  obtain ⟨hparse, -, hcontracts⟩ := normalize_canonical hseeds hresult
  obtain ⟨hmetadata, entry, hentry, hcode, -⟩ := hcontracts "a.sol" "A" document hdocument
  exact ⟨hseeds, result, hresult, hparse, document, hdocument, hmetadata, entry, hentry, hcode⟩

end SolcDispatch.Legacy
