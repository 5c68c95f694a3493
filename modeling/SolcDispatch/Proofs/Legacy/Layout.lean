import SolcDispatch.Proofs.Legacy.Contracts
import SolcDispatch.Proofs.Legacy.Refusal

/-! The document made of a legacy output: where its contracts and sources stand, and when none
is made because a key or an interface cannot be read. -/

namespace SolcDispatch

/-- The value at the end of a path of names. -/
def Json.at? (value : Json) : List String → Option Json
  | [] => some value
  | name :: path => (value.get? name).bind fun member => member.at? path

namespace Legacy

variable {α : Type} {x : Except Failure α} {faults more : List Failure} {passes : Bool}
  {output interface contract : Json} {result : Output} {entry : String × Json}
  {entries sources : Json.Members} {names : List Json} {name : String}

theorem get?_contracts (output : Output) : output.toJson.get? "contracts" =
    some (.obj (output.contracts.map fun file =>
      (file.1, .obj (file.2.map fun c => (c.1, c.2.toJson))))) := rfl

theorem at?_contract (output : Output) (file name : String) (path : List String) :
    output.toJson.at? ("contracts" :: file :: name :: path) =
      (contractAt output.contracts file name).bind fun contract => contract.toJson.at? path := by
  have hfile := Assoc.get?_map (fun contracts : List (String × Contract) =>
    Json.obj (contracts.map fun c => (c.1, c.2.toJson))) output.contracts file
  rw [Json.at?, get?_contracts, Option.bind_some, Json.at?, Json.get?, hfile, contractAt]
  cases Assoc.get? output.contracts file with
  | none => rfl
  | some contracts =>
    have hname := Assoc.get?_map Contract.toJson contracts name
    rw [Option.map_some, Option.bind_some, Option.bind_some, Json.at?, Json.get?, hname,
      Option.bind_map]
    rfl

theorem at?_sourceId (output : Output) (name : String) :
    output.toJson.at? ["sources", name, "id"] =
      (Assoc.get? output.sources name).map fun source => .ofOption .ofNat source.id := by
  have hsources : output.toJson.get? "sources" =
      some (.obj (output.sources.map fun s => (s.1, s.2.toJson))) := rfl
  rw [Json.at?, hsources, Option.bind_some, Json.at?, Json.get?,
    Assoc.get?_map Source.toJson output.sources name]
  cases Assoc.get? output.sources name with
  | none => rfl
  | some source => rfl

/-- The names of all contracts in a document, each with its file. -/
def namesIn (document : Json) : List (String × String) :=
  (membersIn (document.getD "contracts")).flatMap fun file =>
    (membersIn file.2).map fun c => (file.1, c.1)

theorem namesIn_toJson (output : Output) :
    namesIn output.toJson = contractNames output.contracts := by
  rw [namesIn, Json.getD, get?_contracts, Option.getD_some, membersIn, List.flatMap_map,
    contractNames]
  simp only [membersIn, List.map_map, Function.comp_def]

/-- The parts of an output that is read. -/
theorem ofJson_eq_ok (h : Output.ofJson output = .ok result) :
    contractsFrom [] (membersIn (output.getD "contracts")) = .ok result.contracts ∧
      ∃ names, sourceNames (output.getD "sourceList") = .ok names ∧
        sourcesFrom names (membersIn (output.getD "sources")) = .ok result.sources := by
  unfold Output.ofJson at h
  split at h
  · cases h
  · obtain ⟨messages, -, h⟩ := Results.bind_eq_ok h
    obtain ⟨contracts, hcontracts, h⟩ := Results.bind_eq_ok h
    obtain ⟨names, hnames, h⟩ := Results.bind_eq_ok h
    obtain ⟨sources, hsources, h⟩ := Results.bind_eq_ok h
    obtain ⟨diagnostics, -, h⟩ := Results.bind_eq_ok h
    cases h
    obtain ⟨entries, hentries, hcontracts⟩ := Results.bind_eq_ok hcontracts
    obtain ⟨listed, hlisted, hsources⟩ := Results.bind_eq_ok hsources
    obtain rfl := membersOf_eq_ok hentries
    obtain rfl := membersOf_eq_ok hlisted
    exact ⟨hcontracts, names, hnames, hsources⟩

/-- The parts of a contract that is read. -/
theorem Contract.parts_of_ofJson {c : Contract} (h : Contract.ofJson contract = .ok c) :
    contractGas (contract.getD "gasEstimates") = .ok c.gasEstimates ∧
      ∃ libraries deployed, librariesIn (contract.getD "bytecode") = .ok libraries ∧
        librariesIn (contract.getD "runtimeBytecode") = .ok deployed ∧
        c.creation = ⟨contract.getD "bytecode", some (contract.getD "opcodes"),
          contract.getD "srcmap", libraries.members⟩ ∧
        c.deployed = ⟨contract.getD "runtimeBytecode", none, contract.getD "srcmapRuntime",
          deployed.members⟩ := by
  unfold Contract.ofJson at h
  split at h
  · cases h
  · obtain ⟨gas, hgas, h⟩ := Results.bind_eq_ok h
    obtain ⟨abi, -, h⟩ := Results.bind_eq_ok h
    obtain ⟨libraries, hlibraries, h⟩ := Results.bind_eq_ok h
    obtain ⟨deployed, hdeployed, h⟩ := Results.bind_eq_ok h
    cases h
    exact ⟨hgas, libraries, deployed, hlibraries, hdeployed, rfl, rfl⟩

section Sources

/-- The names in a source list, none where there is no list. -/
def listedNames (list : Json) : List Json := (itemsOf list).toOption.getD []

theorem truthy_str_iff {text : String} : (Json.str text : Json).truthy ↔ text ≠ "" := by
  simp [Json.truthy, TextLike.codes]

theorem sourceNames_eq_ok {list : Json} (h : sourceNames list = .ok names) :
    names = listedNames list := by
  unfold sourceNames at h
  split at h
  · rename_i hempty
    rw [Bool.not_eq_true', ← Bool.not_eq_true] at hempty
    cases h
    cases list with
    | arr items =>
      obtain rfl : items = [] := by simpa [Json.truthy] using hempty
      rfl
    | obj members =>
      obtain rfl : members = [] := by simpa [Json.truthy] using hempty
      rfl
    | str text =>
      obtain rfl : text = "" := by simpa [truthy_str_iff] using hempty
      rfl
    | _ => rfl
  · obtain ⟨items, hitems, h⟩ := Results.bind_eq_ok h
    split at h
    · cases h
    · cases h
      rw [listedNames, hitems]
      rfl

structure IsLastPosition (names : List Json) (name : String) (position : Nat) : Prop where
  at_position : names[position]? = some (.str name)
  ne_later : ∀ later, position < later → names[later]? ≠ some (.str name)

theorem lastPosition_append_self (names : List Json) (name : String) :
    lastPosition (names ++ [.str name]) name = some names.length := by
  simp [lastPosition, List.zipIdx_append]

theorem lastPosition_append_ne {item : Json} (h : item ≠ .str name) :
    lastPosition (names ++ [item]) name = lastPosition names name := by
  cases item with
  | str text =>
    have hne : (text == name) = false := by simpa using h
    simp [lastPosition, List.zipIdx_append, hne]
  | _ => simp [lastPosition, List.zipIdx_append]

theorem lastPosition_spec (names : List Json) (name : String) :
    match lastPosition names name with
    | some position => IsLastPosition names name position
    | none => .str name ∉ names := by
  induction names using List.reverseRecOn with
  | nil => simp [lastPosition]
  | append_singleton names item ih =>
    by_cases hitem : item = .str name
    · subst hitem
      rw [lastPosition_append_self]
      refine ⟨by simp, fun later hlater => ?_⟩
      rw [List.getElem?_eq_none (by rw [List.length_append, List.length_singleton]; omega)]
      exact nofun
    · rw [lastPosition_append_ne hitem]
      cases hlast : lastPosition names name with
      | none =>
        rw [hlast] at ih
        simpa [ih] using Ne.symm hitem
      | some position =>
        rw [hlast] at ih
        obtain ⟨hposition, -⟩ := List.getElem?_eq_some_iff.mp ih.at_position
        refine ⟨by rw [List.getElem?_append_left hposition, ih.at_position], fun later hlater => ?_⟩
        rcases Nat.lt_trichotomy later names.length with hinside | rfl | houtside
        · rw [List.getElem?_append_left hinside]
          exact ih.ne_later later hlater
        · simpa using hitem
        · rw [List.getElem?_eq_none (by rw [List.length_append, List.length_singleton]; omega)]
          exact nofun

theorem get?_sourcesFrom {read : List (String × Source)} (h : sourcesFrom names sources = .ok read)
    (name : String) : Assoc.get? read name = (Assoc.get? sources name).map fun source =>
      ⟨lastPosition names name, source.getD "AST"⟩ := by
  have hread := Results.mapM_eq_ok h
  clear h
  induction hread with
  | nil => rfl
  | @cons first item sources read hfirst _ ih =>
    obtain ⟨key, source⟩ := first
    dsimp only at hfirst
    split at hfirst
    · cases hfirst
      by_cases hkey : key = name
      · subst hkey
        rw [Assoc.get?_cons_self, Assoc.get?_cons_self, Option.map_some]
      · rw [Assoc.get?_cons_ne (Ne.symm hkey), Assoc.get?_cons_ne (Ne.symm hkey), ih]
    · cases hfirst

end Sources

section Errors

/-- The reading of an output ends with a text that cannot be parsed. -/
def IsParseError (x : Except Failure α) : Prop :=
  ∃ failure, x = .error failure ∧ failure.failureClass = .outputParse

/-- The first of some faults is a text that cannot be parsed. -/
def BeginsUnparsed (faults : List Failure) : Prop :=
  ∃ failure, faults.head? = some failure ∧ failure.failureClass = .outputParse

theorem Meets.isParseError_iff (h : Meets x faults) : IsParseError x ↔ BeginsUnparsed faults := by
  simp only [IsParseError, BeginsUnparsed, h.eq_error_iff]

theorem beginsUnparsed_append_iff : BeginsUnparsed (faults ++ more) ↔
    BeginsUnparsed faults ∨ faults = [] ∧ BeginsUnparsed more := by
  cases faults <;> simp [BeginsUnparsed]

theorem not_beginsUnparsed_nil : ¬ BeginsUnparsed [] := by
  rintro ⟨failure, h, -⟩
  cases h

theorem not_beginsUnparsed_internal : ¬ BeginsUnparsed [.internal] := by
  rintro ⟨failure, h, hclass⟩
  cases h
  cases hclass

theorem not_beginsUnparsed_shapeFault : ¬ BeginsUnparsed (shapeFault passes) := by
  cases passes with
  | false => exact not_beginsUnparsed_internal
  | true => exact not_beginsUnparsed_nil

theorem shapeFault_eq_nil_iff : shapeFault passes = [] ↔ passes := by
  cases passes <;> simp [shapeFault, faultUnless]

/-- An interface that is no JSON. A number of too many digits is no fault of the text. -/
def IsNotJson (interface : Json) : Prop :=
  ∃ text, interface = .str text ∧ text ≠ "" ∧ ∃ complaint line column offset,
    Json.parse text = .error (.malformed complaint line column offset)

theorem isNotJson_str_iff {text : String} : IsNotJson (.str text) ↔ text ≠ "" ∧
    ∃ complaint line column offset,
      Json.parse text = .error (.malformed complaint line column offset) := by
  simp only [IsNotJson, Json.str.injEq, exists_eq_left']

theorem beginsUnparsed_textFaults_iff {wrap : Json.ParseError → Failure} {text : String}
    (hwrap : ∀ error, (wrap error).failureClass = .outputParse) :
    BeginsUnparsed (textFaults wrap text) ↔ ∃ complaint line column offset,
      Json.parse text = .error (.malformed complaint line column offset) := by
  unfold textFaults
  rcases Json.parse text with (⟨complaint, line, column, offset⟩ | digits) | value
  · exact iff_of_true ⟨_, rfl, hwrap _⟩ ⟨complaint, line, column, offset, rfl⟩
  · simp [BeginsUnparsed, Failure.failureClass]
  · simp [BeginsUnparsed]

theorem beginsUnparsed_interfaceFaults_iff :
    BeginsUnparsed (interfaceFaults interface) ↔ IsNotJson interface := by
  unfold interfaceFaults
  cases interface with
  | str text =>
    rw [isNotJson_str_iff, ← truthy_str_iff]
    cases (Json.str text : Json).truthy with
    | false => exact iff_of_false not_beginsUnparsed_nil nofun
    | true =>
      exact (beginsUnparsed_textFaults_iff fun _ => rfl).trans (and_iff_right rfl).symm
  | _ =>
    refine iff_of_false ?_ nofun
    split
    · exact not_beginsUnparsed_nil
    · exact not_beginsUnparsed_internal

/-- Floating-point numbers can hold the estimates. -/
def HasEstimates (contract : Json) : Prop := emptyOr estimatesFit (contract.getD "gasEstimates")

theorem beginsUnparsed_contractFaults_iff : BeginsUnparsed (contractFaults contract) ↔
    contract.isObject ∧ HasEstimates contract ∧ IsNotJson (contract.getD "interface") := by
  unfold contractFaults
  cases contract.isObject with
  | false => exact iff_of_false not_beginsUnparsed_internal nofun
  | true =>
    simp only [Bool.not_true, Bool.false_eq_true, if_false, List.append_assoc,
      beginsUnparsed_append_iff, not_beginsUnparsed_shapeFault, shapeFault_eq_nil_iff,
      beginsUnparsed_interfaceFaults_iff, false_or, and_false, or_false, true_and, HasEstimates]

/-- An entry whose key or whose interface cannot be read, where nothing else is wrong with the
entry before that is found. -/
def IsUnparsed (entry : String × Json) : Prop :=
  Unreadable entry.1 ∨ entry.2.isObject ∧ HasEstimates entry.2 ∧
    IsNotJson (entry.2.getD "interface")

theorem beginsUnparsed_entryFaults_iff :
    BeginsUnparsed (entryFaults entry) ↔ IsUnparsed entry := by
  rw [entryFaults, beginsUnparsed_append_iff, beginsUnparsed_contractFaults_iff, IsUnparsed,
    ← splitKey?_eq_none_iff]
  cases splitKey? entry.1 with
  | none => exact iff_of_true (.inl ⟨_, rfl, rfl⟩) (.inl rfl)
  | some parts => simp [faultUnless, not_beginsUnparsed_nil]

theorem entryFaults_eq_nil_iff : entryFaults entry = [] ↔ Translates entry := by
  rw [entryFaults, List.append_eq_nil_iff, Translates, (meets_contract entry.2).exists_ok_iff]
  cases splitKey? entry.1 <;> simp [faultUnless]

theorem beginsUnparsed_entries_iff : BeginsUnparsed (entries.flatMap entryFaults) ↔
    FirstWith Translates (fun _ entry => IsUnparsed entry) entries := by
  induction entries with
  | nil => exact iff_of_false not_beginsUnparsed_nil not_firstWith_nil
  | cons first rest ih =>
    rw [List.flatMap_cons, beginsUnparsed_append_iff, beginsUnparsed_entryFaults_iff,
      entryFaults_eq_nil_iff, firstWith_cons_iff, ih]

theorem membersIn_eq_nil {value : Json} (h : ¬ emptyOr Json.isObject value) :
    membersIn value = [] := by
  cases value with
  | obj members => exact absurd (by simp [emptyOr, Json.isObject]) h
  | _ => rfl

theorem beginsUnparsed_outputFaults_iff : BeginsUnparsed (outputFaults output) ↔
    messagesListed output ∧ FirstWith Translates (fun _ entry => IsUnparsed entry)
      (membersIn (output.getD "contracts")) := by
  have hcontracts : BeginsUnparsed (contractsFaults (output.getD "contracts")) ↔
      FirstWith Translates (fun _ entry => IsUnparsed entry)
        (membersIn (output.getD "contracts")) := by
    rw [contractsFaults, beginsUnparsed_append_iff, shapeFault_eq_nil_iff,
      ← beginsUnparsed_entries_iff, or_iff_right not_beginsUnparsed_shapeFault,
      and_iff_right_of_imp]
    intro h
    by_contra hshape
    rw [membersIn_eq_nil hshape] at h
    exact not_beginsUnparsed_nil h
  simp only [outputFaults, sourcesFaults, List.append_assoc, beginsUnparsed_append_iff,
    not_beginsUnparsed_shapeFault, shapeFault_eq_nil_iff, hcontracts, and_false, or_false,
    false_or]

/-- Translating an output fails at the first entry that cannot be read, where the messages can
be listed and all entries before it are translated. -/
theorem isParseError_ofJson_iff : IsParseError (Output.ofJson output) ↔
    messagesListed output ∧ FirstWith Translates (fun _ entry => IsUnparsed entry)
      (membersIn (output.getD "contracts")) := by
  cases hobject : output.isObject with
  | true => rw [(meets_ofJson output hobject).isParseError_iff, beginsUnparsed_outputFaults_iff]
  | false =>
    have hnone : membersIn (output.getD "contracts") = [] := by
      cases output with
      | obj members => cases hobject
      | _ => rfl
    have herror : Output.ofJson output = .error .internal := by
      simp only [Output.ofJson, hobject, Bool.not_false, if_true]
    rw [hnone, herror]
    refine iff_of_false ?_ fun h => not_firstWith_nil h.2
    rintro ⟨failure, hfailure, hclass⟩
    cases hfailure
    cases hclass

def isPair : Json → Bool
  | .arr (_ :: _ :: _) => true
  | _ => false

/-- A contract whose members have the types that are read. A number may have any size. -/
structure WellTyped (contract : Json) : Prop where
  isObject : contract.isObject
  estimates : emptyOr Json.isObject (contract.getD "gasEstimates")
  creation : emptyOr isPair ((contract.getD "gasEstimates").getD "creation")
  interface : emptyOr isText (contract.getD "interface")
  bytecode : emptyOr isText (contract.getD "bytecode")
  runtimeBytecode : emptyOr isText (contract.getD "runtimeBytecode")

/-- No whole number of too many digits stops the reading of the interface. -/
def ReadsNumbers (contract : Json) : Prop :=
  ∀ text digits, contract.getD "interface" = .str text →
    Json.parse text ≠ .error (.longInteger digits)

theorem interfaceFaults_eq_nil (h : emptyOr isText interface) (hjson : ¬ IsNotJson interface)
    (hnumbers : ∀ text digits, interface = .str text →
      Json.parse text ≠ .error (.longInteger digits)) : interfaceFaults interface = [] := by
  unfold interfaceFaults
  unfold emptyOr at h
  cases htruthy : interface.truthy with
  | false => rfl
  | true =>
    cases interface with
    | str text =>
      have hne := truthy_str_iff.mp htruthy
      simp only [Bool.not_true, Bool.false_eq_true, if_false, textFaults]
      split
      · rfl
      · rename_i digits hparse
        exact absurd hparse (hnumbers text digits rfl)
      · rename_i error _ hparse
        cases error with
        | malformed complaint line column offset =>
          exact absurd ⟨text, rfl, hne, complaint, line, column, offset, hparse⟩ hjson
        | longInteger digits => exact absurd hparse (hnumbers text digits rfl)
    | _ =>
      rw [htruthy] at h
      cases h

theorem WellTyped.isUnparsed_iff (h : WellTyped entry.2) (hfits : HasEstimates entry.2) :
    IsUnparsed entry ↔ Unreadable entry.1 ∨ IsNotJson (entry.2.getD "interface") := by
  simp only [IsUnparsed, h.isObject, hfits, true_and]

theorem WellTyped.translates (h : WellTyped entry.2) (hfits : HasEstimates entry.2)
    (hnumbers : ReadsNumbers entry.2) (hread : ¬ IsUnparsed entry) : Translates entry := by
  rw [h.isUnparsed_iff hfits, not_or] at hread
  have hestimates : emptyOr estimatesFit (entry.2.getD "gasEstimates") = true := hfits
  have hkey : (splitKey? entry.1).isSome := by
    rw [← Option.ne_none_iff_isSome, ne_eq, splitKey?_eq_none_iff]
    exact hread.1
  rw [← entryFaults_eq_nil_iff, entryFaults, contractFaults]
  simp only [hkey, h.isObject, hestimates, h.bytecode, h.runtimeBytecode,
    interfaceFaults_eq_nil h.interface hread.2 hnumbers]
  rfl

end Errors

/-- A document that says of every contract what the last entry with one of its keys says, and of
every source where it is listed last. -/
structure Follows (output document : Json) : Prop where
  isSome_iff : ∀ file name, (document.at? ["contracts", file, name]).isSome ↔
    ∃ entry ∈ membersIn (output.getD "contracts"), IsKey file name entry.1
  eq_some_iff : ∀ file name value, document.at? ["contracts", file, name] = some value ↔
    ∃ contract, LastRead file name (membersIn (output.getD "contracts")) contract ∧
      contract.toJson = value
  mem_names : ∀ file name, (file, name) ∈ namesIn document ↔
    (document.at? ["contracts", file, name]).isSome
  nodup_names : (namesIn document).Nodup
  length_names : (namesIn document).length = (membersIn (output.getD "contracts")).length ↔
    ∀ name ∈ (membersIn (output.getD "contracts")).map Prod.fst, ':' ∉ name.toList →
      ":" ++ name ∉ (membersIn (output.getD "contracts")).map Prod.fst
  sourceId : ∀ name ∈ (membersIn (output.getD "sources")).map Prod.fst, ∃ id,
    document.at? ["sources", name, "id"] = some id ∧
      ((∃ position, IsLastPosition (listedNames (output.getD "sourceList")) name position ∧
        id = .ofNat position) ∨
      (.str name ∉ listedNames (output.getD "sourceList") ∧ id = .null))

theorem follows_of_ofJson (h : Output.ofJson output = .ok result)
    (hkeys : ((membersIn (output.getD "contracts")).map Prod.fst).Nodup) :
    Follows output result.toJson := by
  obtain ⟨hcontracts, names, hnames, hsources⟩ := ofJson_eq_ok h
  obtain rfl := sourceNames_eq_ok hnames
  have hat (file name : String) : result.toJson.at? ["contracts", file, name] =
      (contractAt result.contracts file name).map Contract.toJson := by
    rw [at?_contract, Option.map_eq_bind]
    rfl
  have hnamed : NamedOnce result.contracts := namedOnce_nil.contractsFrom hcontracts
  refine ⟨fun file name => ?_, fun file name value => ?_, fun file name => ?_, ?_, ?_,
    fun name hname => ?_⟩
  · rw [hat, Option.isSome_map, contractAt_isSome_iff hcontracts]
  · simp only [hat, Option.map_eq_some_iff, contractAt_eq_some_iff hcontracts]
  · rw [hat, Option.isSome_map, namesIn_toJson, mem_contractNames hnamed]
  · rw [namesIn_toJson]
    exact hnamed.nodup_contractNames
  · rw [namesIn_toJson]
    exact length_contractNames_eq_iff hcontracts hkeys
  · have hget := get?_sourcesFrom hsources name
    cases hsource : Assoc.get? (membersIn (output.getD "sources")) name with
    | none => exact absurd hname (Assoc.notMem_of_get?_none hsource)
    | some source =>
      rw [hsource, Option.map_some] at hget
      rw [at?_sourceId, hget]
      refine ⟨_, rfl, ?_⟩
      have hlast := lastPosition_spec (listedNames (output.getD "sourceList")) name
      cases hposition : lastPosition (listedNames (output.getD "sourceList")) name with
      | none =>
        rw [hposition] at hlast
        exact .inr ⟨hlast, rfl⟩
      | some position =>
        rw [hposition] at hlast
        exact .inl ⟨position, hlast, rfl⟩

/-- The document made of an output follows its keys. None is made because of a text that cannot
be parsed exactly if the messages can be listed and an entry cannot be read, where all before it
are translated. Any such entry will do where all contracts are well-typed and floating-point
numbers can hold their estimates. -/
theorem contracts_follow_keys (output : Json)
    (hkeys : ((membersIn (output.getD "contracts")).map Prod.fst).Nodup) :
    (∀ result, Output.ofJson output = .ok result → Follows output result.toJson) ∧
    (IsParseError (Output.ofJson output) ↔ messagesListed output ∧
      FirstWith Translates (fun _ entry => IsUnparsed entry)
        (membersIn (output.getD "contracts"))) ∧
    (messagesListed output → (∀ entry ∈ membersIn (output.getD "contracts"),
        WellTyped entry.2 ∧ HasEstimates entry.2 ∧ ReadsNumbers entry.2) →
      (IsParseError (Output.ofJson output) ↔ ∃ entry ∈ membersIn (output.getD "contracts"),
        Unreadable entry.1 ∨ IsNotJson (entry.2.getD "interface"))) := by
  refine ⟨fun result h => follows_of_ofJson h hkeys, isParseError_ofJson_iff,
    fun hmessages htyped => ?_⟩
  have hiff {entry : String × Json} (hentry : entry ∈ membersIn (output.getD "contracts")) :
      IsUnparsed entry ↔ Unreadable entry.1 ∨ IsNotJson (entry.2.getD "interface") :=
    (htyped entry hentry).1.isUnparsed_iff (htyped entry hentry).2.1
  rw [isParseError_ofJson_iff, and_iff_right hmessages]
  constructor
  · rintro ⟨before, entry, after, hsplit, -, hentry⟩
    have hmem : entry ∈ membersIn (output.getD "contracts") := by
      rw [hsplit]
      simp
    exact ⟨entry, hmem, (hiff hmem).mp hentry⟩
  · rintro ⟨entry, hmem, hentry⟩
    refine firstWith_of_exists (fun later hlater => ?_) ⟨entry, hmem, (hiff hmem).mpr hentry⟩
    obtain ⟨hwell, hfits, hnumbers⟩ := htyped later hlater
    by_cases hread : IsUnparsed later
    · exact .inr hread
    · exact .inl (hwell.translates hfits hnumbers hread)

theorem contracts_follow_keys_doubled :
    let contracts : Json.Members := [("A", .obj []), (":A", .obj []), ("c:b.sol:B", .obj [])]
    let output : Json := .obj [("contracts", .obj contracts)]
    let nameless : Json := .obj [("contracts", .obj [("a:", .obj [])])]
    (contracts.map Prod.fst).Nodup ∧ (∃ result, Output.ofJson output = .ok result ∧
      (result.toJson.at? ["contracts", "c:b.sol", "B"]).isSome ∧
      (namesIn result.toJson).length ≠ contracts.length) ∧
      IsParseError (Output.ofJson nameless) := by
  intro contracts output nameless
  have hkeys : (contracts.map Prod.fst).Nodup := by decide
  obtain ⟨result, hresult⟩ : ∃ result, Output.ofJson output = .ok result := ⟨_, rfl⟩
  have hfollows := (contracts_follow_keys output hkeys).1 result hresult
  refine ⟨hkeys, ⟨result, hresult, ?_, fun hlength => ?_⟩, ?_⟩
  · have hkey : IsKey "c:b.sol" "B" "c:b.sol:B" := ⟨by decide, by decide, .inl (by decide)⟩
    have hmem : ("c:b.sol:B", .obj []) ∈ membersIn (output.getD "contracts") :=
      .tail _ (.tail _ (.head _))
    exact (hfollows.isSome_iff "c:b.sol" "B").mpr ⟨_, hmem, hkey⟩
  · exact hfollows.length_names.mp hlength "A" (by decide) (by decide) (by decide)
  · have hnameless := (contracts_follow_keys nameless (by decide)).2.1
    exact hnameless.mpr ⟨by decide, [], _, [], rfl, by simp, .inl (.inr (.inl ⟨"a", rfl⟩))⟩

/-- An estimate that no floating-point number can hold stops the translation before it comes to
the empty key after it. -/
theorem overflow_precedes_empty_key :
    let estimates : Json := .obj [("external", .obj [("f()", .int (10 ^ 309))])]
    let contracts : Json.Members := [("A", .obj [("gasEstimates", estimates)]), ("", .obj [])]
    let output : Json := .obj [("contracts", .obj contracts)]
    messagesListed output ∧ (∀ entry ∈ contracts, WellTyped entry.2 ∧ ReadsNumbers entry.2) ∧
      (∃ entry ∈ contracts, Unreadable entry.1) ∧ Output.ofJson output = .error .internal ∧
      ¬ IsParseError (Output.ofJson output) := by
  intro estimates contracts output
  have hfaults : (outputFaults output).head? = some .internal := by decide +kernel
  have herror : Output.ofJson output = .error .internal :=
    (meets_ofJson output rfl).eq_error_iff.mpr hfaults
  refine ⟨by decide, ?_, ⟨("", .obj []), .tail _ (.head _), .inl rfl⟩, herror, ?_⟩
  · refine List.forall_mem_cons.mpr ⟨?_, List.forall_mem_singleton.mpr ?_⟩ <;>
      exact ⟨⟨rfl, rfl, rfl, rfl, rfl, rfl⟩, nofun⟩
  · rw [herror]
    rintro ⟨failure, hfailure, hclass⟩
    cases hfailure
    cases hclass

end Legacy

end SolcDispatch
