import SolcDispatch.Legacy.Compile

/-! The faults of what a legacy compiler printed, in the order in which they are met. Reading
fails with the first of them, and gives a result if there is none. -/

namespace SolcDispatch.Legacy

variable {α β : Type} {x : Except Failure α} {faults more : List Failure} {failure : Failure}

/-- A reading that fails with the first of some faults, and with nothing else. -/
def Meets (x : Except Failure α) : List Failure → Prop
  | [] => ∃ a, x = .ok a
  | failure :: _ => x = .error failure

theorem Meets.exists_ok_iff (h : Meets x faults) : (∃ a, x = .ok a) ↔ faults = [] := by
  cases faults with
  | nil => exact iff_of_true h rfl
  | cons failure faults =>
    rw [Meets] at h
    simp [h]

theorem Meets.eq_error_iff (h : Meets x faults) :
    x = .error failure ↔ faults.head? = some failure := by
  cases faults with
  | nil =>
    obtain ⟨a, rfl⟩ := h
    simp
  | cons first faults =>
    rw [Meets] at h
    rw [h, List.head?_cons, Except.error.injEq, Option.some.injEq]

theorem Meets.bind {next : α → Except Failure β} (h : Meets x faults)
    (hnext : ∀ a, x = .ok a → Meets (next a) more) : Meets (x >>= next) (faults ++ more) := by
  cases faults with
  | nil =>
    obtain ⟨a, rfl⟩ := h
    exact hnext a rfl
  | cons failure faults =>
    rw [Meets] at h
    rw [h]
    rfl

theorem Meets.map {f : α → β} (h : Meets x faults) : Meets (x.map f) faults := by
  cases faults with
  | nil =>
    obtain ⟨a, rfl⟩ := h
    exact ⟨_, rfl⟩
  | cons failure faults =>
    rw [Meets] at h
    rw [h]
    rfl

theorem meets_ok (a : α) : Meets (.ok a) [] := ⟨a, rfl⟩

def faultUnless (passes : Bool) (failure : Failure) : List Failure :=
  if passes then [] else [failure]

/-- The fault of a member of the wrong shape. -/
def shapeFault (passes : Bool) : List Failure := faultUnless passes .internal

theorem Meets.shape_and {first second : Bool}
    (h : Meets x (shapeFault first ++ shapeFault second)) :
    Meets x (shapeFault (first && second)) := by
  cases first <;> exact h

/-- The fault of a text that must be JSON. A whole number of too many digits is a fault of
its own kind. -/
def textFaults (wrap : Json.ParseError → Failure) (text : String) : List Failure :=
  match Json.parse text with
  | .ok _ => []
  | .error (.longInteger digits) => [.longInteger digits]
  | .error error => [wrap error]

theorem meets_ofParse (wrap : Json.ParseError → Failure) (text : String) :
    Meets (Failure.ofParse wrap (Json.parse text)) (textFaults wrap text) := by
  unfold textFaults
  rcases Json.parse text with (_ | _) | json
  · rfl
  · rfl
  · exact meets_ok json

/-- A member that may be left empty. -/
def emptyOr (passes : Json → Bool) (value : Json) : Bool := !value.truthy || passes value

theorem meets_emptyOr {value : Json} {passes : Json → Bool} {a : α}
    (h : Meets x (shapeFault (passes value))) :
    Meets (if !value.truthy then .ok a else x) (shapeFault (emptyOr passes value)) := by
  unfold emptyOr
  cases value.truthy with
  | false => exact meets_ok a
  | true => exact h

def isText : Json → Bool
  | .str _ => true
  | _ => false

def isListed : Json → Bool
  | .arr _ | .str _ | .obj _ => true
  | _ => false

mutual

/-- An estimate whose whole numbers fit floating-point numbers. -/
def gasFits : Json → Bool
  | .int n => (Binary64.ofInt n).isFinite
  | .obj members => gasMembersFit members
  | _ => true

def gasMembersFit : Json.Members → Bool
  | [] => true
  | (_, value) :: rest => gasFits value && gasMembersFit rest

end

/-- The two estimates for creating a contract; a text passes for a list of its characters. -/
def creationFits : Json → Bool
  | .arr (execution :: deposit :: _) => gasFits deposit && gasFits execution
  | .str s => 2 ≤ s.toList.length
  | _ => false

def estimatesFit (gas : Json) : Bool :=
  gas.isObject && (emptyOr creationFits (gas.getD "creation") &&
    (emptyOr gasFits (gas.getD "internal") && emptyOr gasFits (gas.getD "external")))

def interfaceFaults (interface : Json) : List Failure :=
  if !interface.truthy then []
  else match interface with
    | .str text => textFaults .interfaceNotJson text
    | _ => [.internal]

def contractFaults (contract : Json) : List Failure :=
  if !contract.isObject then [.internal]
  else shapeFault (emptyOr estimatesFit (contract.getD "gasEstimates")) ++
    interfaceFaults (contract.getD "interface") ++
    shapeFault (emptyOr isText (contract.getD "bytecode")) ++
    shapeFault (emptyOr isText (contract.getD "runtimeBytecode"))

def entryFaults (entry : String × Json) : List Failure :=
  faultUnless (splitKey? entry.1).isSome (.contractKey entry.1) ++ contractFaults entry.2

def membersIn : Json → Json.Members
  | .obj members => members
  | _ => []

def contractsFaults (contracts : Json) : List Failure :=
  shapeFault (emptyOr Json.isObject contracts) ++ (membersIn contracts).flatMap entryFaults

def isName (value : Json) : Bool := !(value.isArray || value.isObject)

/-- A list of names, which are neither lists nor objects. -/
def isNameList : Json → Bool
  | .arr items => items.all isName
  | .str _ | .obj _ => true
  | _ => false

def sourcesFaults (sources : Json) : List Failure :=
  shapeFault (emptyOr Json.isObject sources) ++
    shapeFault ((membersIn sources).all fun source => source.2.isObject)

/-- Messages that can be gone through: the one error, or the items of all errors. -/
def messagesListed (output : Json) : Bool :=
  (output.getD "error").truthy || emptyOr isListed (output.getD "errors")

/-- Messages all of which are texts. -/
def messagesAreTexts (output : Json) : Bool :=
  if (output.getD "error").truthy then isText (output.getD "error")
  else match output.getD "errors" with
    | .arr items => items.all isText
    | _ => true

def outputFaults (output : Json) : List Failure :=
  shapeFault (messagesListed output) ++ contractsFaults (output.getD "contracts") ++
    shapeFault (emptyOr isNameList (output.getD "sourceList")) ++
    sourcesFaults (output.getD "sources") ++ shapeFault (messagesAreTexts output)

def printedFaults (printed : String) : List Failure :=
  match Json.parse printed with
  | .ok output => if output.isObject then outputFaults output else [.legacyOutputNotObject]
  | .error _ => textFaults .legacyOutputNotJson printed

mutual

theorem meets_gasText : ∀ value : Json, Meets (gasText value) (shapeFault (gasFits value))
  | .null => meets_ok _
  | .bool _ => meets_ok _
  | .int n => by
    rw [gasText, gasFits]
    by_cases h : (Binary64.ofInt n).isFinite
    · rw [if_pos h, h]
      exact meets_ok _
    · rw [if_neg h, Bool.eq_false_iff.mpr h]
      rfl
  | .float _ => meets_ok _
  | .str _ => meets_ok _
  | .arr _ => meets_ok _
  | .obj members => by
    rw [gasText, gasFits]
    exact (meets_gasMembers members).map

theorem meets_gasMembers : ∀ members : Json.Members,
    Meets (gasMembers members) (shapeFault (gasMembersFit members))
  | [] => meets_ok _
  | (_, value) :: rest => by
    rw [gasMembers, gasMembersFit]
    refine Meets.shape_and ((meets_gasText value).bind fun _ _ => ?_)
    exact (meets_gasMembers rest).map

end

theorem meets_creationGas_of_items {creation execution deposit : Json}
    (hexecution : itemAt creation 0 = .ok execution) (hdeposit : itemAt creation 1 = .ok deposit) :
    Meets (creationGas creation) (shapeFault (gasFits deposit && gasFits execution)) := by
  simp only [creationGas, hdeposit, hexecution]
  -- The deposit is read first, though it stands second.
  exact Meets.shape_and ((meets_gasText deposit).bind fun _ _ => (meets_gasText execution).map)

theorem meets_creationGas (creation : Json) :
    Meets (creationGas creation) (shapeFault (creationFits creation)) := by
  cases creation with
  | arr items =>
    rcases items with _ | ⟨execution, _ | ⟨deposit, rest⟩⟩
    · rfl
    · rfl
    · exact meets_creationGas_of_items rfl rfl
  | str s =>
    by_cases hlong : 2 ≤ s.toList.length
    · have hread (index : Nat) (h : index < s.toList.length) :
          itemAt (.str s) index = .ok (.str (String.singleton s.toList[index])) := by
        simp only [itemAt, List.getElem?_eq_getElem h]
      have hfits : creationFits (.str s) = true := decide_eq_true hlong
      rw [hfits]
      exact meets_creationGas_of_items (hread 0 (by omega)) (hread 1 hlong)
    · have hnone : itemAt (.str s) 1 = .error .internal := by
        simp only [itemAt, List.getElem?_eq_none (Nat.not_lt.mp hlong)]
      have hfits : creationFits (.str s) = false := decide_eq_false hlong
      rw [hfits, creationGas, hnone]
      rfl
  | _ => rfl

theorem meets_gasPart {gas : Json} {name : String} {translate : Json → Except Failure Json}
    {fits : Json → Bool} (h : ∀ part, Meets (translate part) (shapeFault (fits part))) :
    Meets (gasPart gas name translate) (shapeFault (emptyOr fits (gas.getD name))) := by
  unfold gasPart emptyOr
  dsimp only
  cases (gas.getD name).truthy with
  | false => exact meets_ok _
  | true => exact (h _).map

theorem meets_contractGas (gas : Json) :
    Meets (contractGas gas) (shapeFault (emptyOr estimatesFit gas)) := by
  refine meets_emptyOr ?_
  unfold estimatesFit
  cases gas.isObject with
  | false => rfl
  | true =>
    simp only [Bool.not_true, Bool.false_eq_true, if_false, Bool.true_and]
    refine Meets.shape_and ((meets_gasPart meets_creationGas).bind fun _ _ => ?_)
    refine Meets.shape_and ((meets_gasPart meets_gasText).bind fun _ _ => ?_)
    exact (meets_gasPart meets_gasText).map

theorem meets_librariesIn (object : Json) :
    Meets (librariesIn object) (shapeFault (emptyOr isText object)) := by
  refine meets_emptyOr ?_
  cases object with
  | str code => exact meets_ok _
  | _ => rfl

theorem meets_abiIn (interface : Json) : Meets (abiIn interface) (interfaceFaults interface) := by
  unfold abiIn interfaceFaults
  cases interface.truthy with
  | false => exact meets_ok _
  | true =>
    cases interface with
    | str text => exact meets_ofParse .interfaceNotJson text
    | _ => rfl

theorem meets_contract (contract : Json) :
    Meets (Contract.ofJson contract) (contractFaults contract) := by
  unfold Contract.ofJson contractFaults
  split
  · rfl
  · simp only [List.append_assoc]
    refine (meets_contractGas _).bind fun _ _ => ?_
    refine (meets_abiIn _).bind fun _ _ => ?_
    exact (meets_librariesIn _).bind fun _ _ => (meets_librariesIn _).map

theorem meets_contractsFrom (files : List (String × List (String × Contract)))
    (members : Json.Members) :
    Meets (contractsFrom files members) (members.flatMap entryFaults) := by
  induction members generalizing files with
  | nil => exact meets_ok _
  | cons entry rest ih =>
    obtain ⟨key, value⟩ := entry
    rw [contractsFrom, List.flatMap_cons, entryFaults]
    cases hkey : splitKey? key with
    | none => rfl
    | some parts => exact (meets_contract value).bind fun contract _ => ih _

theorem membersOf_eq_ok {value : Json} {members : Json.Members}
    (h : membersOf value = .ok members) : members = membersIn value := by
  unfold membersOf at h
  by_cases hvalue : value.truthy
  · rw [hvalue] at h
    cases value <;> cases h
    rfl
  · rw [Bool.eq_false_iff.mpr hvalue] at h
    cases h
    cases value with
    | obj own =>
      cases own with
      | nil => rfl
      | cons first rest => exact absurd rfl hvalue
    | _ => rfl

theorem meets_membersOf (value : Json) :
    Meets (membersOf value) (shapeFault (emptyOr Json.isObject value)) := by
  refine meets_emptyOr ?_
  cases value with
  | obj members => exact meets_ok _
  | _ => rfl

theorem meets_contracts (contracts : Json) :
    Meets (membersOf contracts >>= contractsFrom []) (contractsFaults contracts) := by
  refine (meets_membersOf contracts).bind fun members hmembers => ?_
  rw [← membersOf_eq_ok hmembers]
  exact meets_contractsFrom [] members

theorem meets_mapM {read : α → Except Failure β} {passes : α → Bool}
    (h : ∀ item, Meets (read item) (shapeFault (passes item))) (items : List α) :
    Meets (items.mapM read) (shapeFault (items.all passes)) := by
  induction items with
  | nil => exact meets_ok _
  | cons item items ih =>
    rw [List.mapM_cons, List.all_cons]
    exact Meets.shape_and ((h item).bind fun _ _ => ih.map)

theorem meets_sources (names : List Json) (sources : Json) :
    Meets (membersOf sources >>= sourcesFrom names) (sourcesFaults sources) := by
  refine (meets_membersOf sources).bind fun members hmembers => ?_
  rw [← membersOf_eq_ok hmembers]
  refine meets_mapM (fun entry => ?_) members
  obtain ⟨name, source⟩ := entry
  dsimp only
  by_cases hsource : source.isObject
  · rw [if_pos hsource, hsource]
    exact meets_ok _
  · rw [if_neg hsource, Bool.eq_false_iff.mpr hsource]
    rfl

theorem meets_itemsOf (value : Json) : Meets (itemsOf value) (shapeFault (isListed value)) := by
  cases value with
  | arr _ | str _ | obj _ => exact meets_ok _
  | _ => rfl

theorem all_isName_of_itemsOf {list : Json} {names : List Json} (h : itemsOf list = .ok names) :
    names.all isName = isNameList list := by
  cases list <;> cases h <;> simp [isNameList, isName, Json.isArray, Json.isObject]

theorem meets_names (names : List Json) :
    Meets (if names.any fun n => n.isArray || n.isObject then .error .internal else .ok names)
      (shapeFault (names.all isName)) := by
  rw [List.all_eq_not_any_not]
  simp only [isName, Bool.not_not]
  cases names.any fun n => n.isArray || n.isObject with
  | false => exact meets_ok names
  | true => rfl

theorem meets_sourceNames (list : Json) :
    Meets (sourceNames list) (shapeFault (emptyOr isNameList list)) := by
  refine meets_emptyOr ?_
  have hlisted : isNameList list = (isListed list && isNameList list) := by cases list <;> rfl
  rw [hlisted]
  refine Meets.shape_and ((meets_itemsOf list).bind fun names hnames => ?_)
  rw [← all_isName_of_itemsOf hnames]
  exact meets_names names

theorem meets_messagesOf (output : Json) :
    Meets (messagesOf output) (shapeFault (messagesListed output)) := by
  unfold messagesOf messagesListed emptyOr
  dsimp only
  cases (output.getD "error").truthy with
  | true => exact meets_ok _
  | false =>
    cases (output.getD "errors").truthy with
    | true => exact meets_itemsOf _
    | false => exact meets_ok _

theorem meets_readDiagnostics (messages : List Json) :
    Meets (readDiagnostics messages) (shapeFault (messages.all isText)) := by
  refine meets_mapM (fun message => ?_) messages
  cases message with
  | str text => exact meets_ok _
  | _ => rfl

theorem all_isText_of_messagesOf {output : Json} {messages : List Json}
    (h : messagesOf output = .ok messages) : messages.all isText = messagesAreTexts output := by
  unfold messagesOf at h
  unfold messagesAreTexts
  by_cases herror : (output.getD "error").truthy
  · simp only [herror, if_true] at h ⊢
    cases h
    simp
  · simp only [herror, Bool.false_eq_true, if_false] at h ⊢
    by_cases herrors : (output.getD "errors").truthy
    · rw [if_pos herrors] at h
      cases he : output.getD "errors" <;> rw [he] at h <;> cases h <;> simp [isText]
    · rw [if_neg herrors] at h
      cases h
      cases he : output.getD "errors" with
      | arr items =>
        cases items with
        | nil => rfl
        | cons first rest => exact absurd (by rw [he]; rfl) herrors
      | _ => rfl

theorem meets_ofJson (output : Json) (h : output.isObject) :
    Meets (Output.ofJson output) (outputFaults output) := by
  unfold Output.ofJson outputFaults
  simp only [h, Bool.not_true, Bool.false_eq_true, if_false, List.append_assoc]
  refine (meets_messagesOf output).bind fun messages hmessages => ?_
  refine (meets_contracts _).bind fun _ _ => ?_
  refine (meets_sourceNames _).bind fun names _ => ?_
  refine (meets_sources names _).bind fun _ _ => ?_
  rw [← all_isText_of_messagesOf hmessages]
  exact (meets_readDiagnostics messages).map

/-- A text that a legacy compiler printed is read into a result exactly if it has no fault, and
the first of its faults is told otherwise. -/
theorem meets_readResult (optimize : Bool) (seeds : List Json) (printed : String) :
    Meets (readResult optimize seeds printed) (printedFaults printed) := by
  have hparse := meets_ofParse .legacyOutputNotJson printed
  unfold readResult printedFaults
  cases h : Json.parse printed with
  | error error =>
    rw [h] at hparse
    -- An error is told as it is; what would follow is never read.
    rw [← List.append_nil (textFaults .legacyOutputNotJson printed)]
    refine hparse.bind fun output houtput => ?_
    cases error <;> cases houtput
  | ok output =>
    change Meets (if !output.isObject then .error .legacyOutputNotObject
      else (normalize output optimize seeds).map Output.toJson)
      (if output.isObject then outputFaults output else [.legacyOutputNotObject])
    cases hobject : output.isObject with
    | false => rfl
    | true => exact (meets_ofJson output hobject).map.map

end SolcDispatch.Legacy
