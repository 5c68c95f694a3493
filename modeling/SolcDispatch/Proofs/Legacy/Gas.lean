import SolcDispatch.Proofs.Json.RoundTrip
import SolcDispatch.Proofs.Legacy.Layout
import SolcDispatch.Proofs.Number.Whole

/-! The texts of gas estimates. A whole number is told by the floating-point number nearest to
it, which may be another one, and yet is written with its own digits. -/

namespace SolcDispatch

theorem Json.ofList_printInt (n : Int) : String.ofList (printInt n) = toString n := by
  apply String.toList_injective
  rw [String.toList_ofList]
  cases n with
  | ofNat k =>
    have hk : ¬ Int.ofNat k < 0 := Int.not_lt.mpr (Int.natCast_nonneg k)
    rw [printInt, if_neg hk]
    exact Nat.toList_repr.symm
  | negSucc k =>
    have hrepr : (toString (k + 1)).toList = Nat.toDigits 10 (k + 1) := Nat.toList_repr
    have htext : toString (Int.negSucc k) = "-" ++ toString (k + 1) := rfl
    rw [printInt, if_pos (Int.negSucc_lt_zero k), htext, String.toList_append, hrepr]
    rfl

/-- The text of a number reads back as the number. -/
theorem Binary64.parse_toText {x : Binary64} (hx : x.WellFormed) (hfinite : x.isFinite) :
    Json.parse x.toText = .ok (.float x : Json) := by
  cases x with
  | finite negative m e =>
    have hprint : Json.print Json.compact (.float (.finite negative m e) : Json) =
        toText (.finite negative m e) := by
      rw [Json.print, Json.printChars]
      exact String.ofList_toList
    rw [← hprint]
    exact Json.parse_print Json.isPlain_compact hx
  | _ => cases hfinite

namespace Legacy

/-- Estimates that hold no list, and no whole number to which the nearest floating-point number is
infinite. -/
inductive IsEstimate : Json → Prop
  | null : IsEstimate .null
  | bool (b : Bool) : IsEstimate (.bool b)
  | int {n : Int} (h : (Binary64.ofInt n).isFinite) : IsEstimate (.int n)
  | float {x : Binary64} (h : x.WellFormed) : IsEstimate (.float x)
  | str (s : String) : IsEstimate (.str s)
  | obj {members : Json.Members} (h : ∀ m ∈ members, IsEstimate m.2) : IsEstimate (.obj members)

/-- An estimate with texts for its numbers. All members of an object are there, under their names
and in their order. -/
inductive Restates : Json → Json → Prop
  | null : Restates .null (.str "infinite")
  | bool (b : Bool) : Restates (.bool b) (.str (if b then "1" else "0"))
  | int {n k : Int} (h : (Binary64.ofInt n).value? = some (k : ℚ)) :
    Restates (.int n) (.str (toString n))
  | whole {x : Binary64} {n : Int} (h : x.value? = some (n : ℚ)) :
    Restates (.float x) (.str (toString n))
  | other {x : Binary64} (h : ∀ n : Int, x.value? ≠ some (n : ℚ))
    (hread : x.isFinite → Json.parse x.toText = .ok (.float x : Json)) :
    Restates (.float x) (.str x.toText)
  | str (s : String) : Restates (.str s) (.str s)
  | obj {members texts : Json.Members}
    (hnames : texts.map Prod.fst = members.map Prod.fst)
    (h : List.Forall₂ Restates (members.map Prod.snd) (texts.map Prod.snd)) :
    Restates (.obj members) (.obj texts)

variable {estimate text gas contract execution deposit : Json} {members texts : Json.Members}

theorem isEstimate_int_iff {n : Int} :
    IsEstimate (.int n) ↔ n.natAbs < (2 ^ 54 - 1) * 2 ^ 970 := by
  rw [← Binary64.isFinite_ofInt_iff]
  refine ⟨fun h => ?_, .int⟩
  cases h with
  | int h => exact h

theorem restates_gasNumber {x : Binary64} (hx : x.WellFormed) :
    Restates (.float x) (.str (gasNumber x)) := by
  unfold gasNumber
  cases hint : x.toInt? with
  | some n =>
    dsimp only
    rw [Json.ofList_printInt]
    exact .whole (Binary64.toInt?_eq_some_iff.mp hint)
  | none =>
    refine .other (fun n hn => ?_) (Binary64.parse_toText hx)
    rw [Binary64.toInt?_eq_some_iff.mpr hn] at hint
    cases hint

theorem Restates.cons (h : Restates (.obj members) (.obj texts)) (name : String)
    (hfirst : Restates estimate text) :
    Restates (.obj ((name, estimate) :: members)) (.obj ((name, text) :: texts)) := by
  cases h with
  | obj hnames hall => exact .obj (congrArg (name :: ·) hnames) (.cons hfirst hall)

theorem gasMembers_restates
    (h : ∀ m ∈ members, ∃ text, gasText m.2 = .ok text ∧ Restates m.2 text) :
    ∃ texts, gasMembers members = .ok texts ∧ Restates (.obj members) (.obj texts) := by
  induction members with
  | nil => exact ⟨[], rfl, .obj rfl .nil⟩
  | cons first rest ih =>
    obtain ⟨name, value⟩ := first
    rw [List.forall_mem_cons] at h
    obtain ⟨⟨text, htext, hfirst⟩, hrest⟩ := h
    obtain ⟨texts, htexts, hrest⟩ := ih hrest
    refine ⟨(name, text) :: texts, ?_, hrest.cons name hfirst⟩
    rw [gasMembers, htext, htexts]
    rfl

theorem IsEstimate.gasText_restates (h : IsEstimate estimate) :
    ∃ text, gasText estimate = .ok text ∧ Restates estimate text := by
  induction h with
  | null => exact ⟨_, rfl, .null⟩
  | bool b => exact ⟨_, rfl, .bool b⟩
  | @int n h =>
    obtain ⟨k, hk⟩ := Binary64.exists_value?_ofInt h
    refine ⟨.str (toString n), ?_, .int hk⟩
    rw [gasText, if_pos h, Json.ofList_printInt]
  | float h => exact ⟨_, rfl, restates_gasNumber h⟩
  | str s => exact ⟨_, rfl, .str s⟩
  | obj _ ih =>
    obtain ⟨texts, htexts, hall⟩ := gasMembers_restates ih
    refine ⟨.obj texts, ?_, hall⟩
    rw [gasText, htexts]
    rfl

theorem gasMembers_idempotent
    (ih : ∀ m ∈ members, ∀ text, gasText m.2 = .ok text → gasText text = .ok text)
    (h : gasMembers members = .ok texts) : gasMembers texts = .ok texts := by
  induction members generalizing texts with
  | nil =>
    cases h
    rfl
  | cons first rest ihrest =>
    obtain ⟨name, value⟩ := first
    rw [List.forall_mem_cons] at ih
    rw [gasMembers] at h
    obtain ⟨text, htext, h⟩ := Results.bind_eq_ok h
    obtain ⟨others, hothers, h⟩ := Results.bind_eq_ok h
    cases h
    rw [gasMembers, ih.1 text htext, ihrest ih.2 hothers]
    rfl

theorem gasText_idempotent (h : gasText estimate = .ok text) : gasText text = .ok text := by
  induction estimate using Json.nested generalizing text with
  | null | bool _ | float _ | str _ | arr _ _ =>
    cases h
    rfl
  | int n =>
    rw [gasText] at h
    split at h
    · cases h
      rfl
    · cases h
  | obj members ih =>
    rw [gasText] at h
    obtain ⟨texts, htexts, rfl⟩ := Results.map_eq_ok h
    rw [gasText, gasMembers_idempotent (fun m hm text => ih m hm) htexts]
    rfl

/-- The two estimates for creating a contract, the one for execution first. -/
structure IsPair (creation execution deposit : Json) : Prop where
  execution : itemAt creation 0 = .ok execution
  deposit : itemAt creation 1 = .ok deposit

theorem IsPair.truthy {creation : Json} (h : IsPair creation execution deposit) :
    creation.truthy := by
  have hitem := h.execution
  cases creation with
  | arr items =>
    cases items with
    | nil => cases hitem
    | cons first rest => rfl
  | str s =>
    rw [truthy_str_iff]
    rintro rfl
    cases hitem
  | _ => cases hitem

theorem exists_obj_of_getD_truthy {value : Json} {name : String}
    (h : (value.getD name).truthy) : ∃ first rest, value = .obj (first :: rest) := by
  cases value with
  | obj members =>
    cases members with
    | nil => cases h
    | cons first rest => exact ⟨first, rest, rfl⟩
  | _ => cases h

theorem creationGas_eq_ok {creation result : Json} (hpair : IsPair creation execution deposit)
    (h : creationGas creation = .ok result) : ∃ executionCost depositCost,
      gasText execution = .ok executionCost ∧ gasText deposit = .ok depositCost ∧
        result = .obj [("codeDepositCost", depositCost), ("executionCost", executionCost)] := by
  unfold creationGas at h
  rw [hpair.deposit, hpair.execution] at h
  obtain ⟨depositCost, hdeposit, h⟩ := Results.bind_eq_ok h
  obtain ⟨executionCost, hexecution, h⟩ := Results.bind_eq_ok h
  cases h
  exact ⟨executionCost, depositCost, hexecution, hdeposit, rfl⟩

theorem contractGas_eq_ok {result : Json}
    (hpair : IsPair (gas.getD "creation") execution deposit) (h : contractGas gas = .ok result) :
    ∃ costs, creationGas (gas.getD "creation") = .ok costs ∧
      result.get? "creation" = some costs := by
  have htruthy := hpair.truthy
  obtain ⟨first, rest, rfl⟩ := exists_obj_of_getD_truthy htruthy
  unfold contractGas at h
  obtain ⟨creation, hcreation, h⟩ := Results.bind_eq_ok h
  obtain ⟨inner, -, h⟩ := Results.bind_eq_ok h
  obtain ⟨outer, -, h⟩ := Results.bind_eq_ok h
  cases h
  unfold gasPart at hcreation
  dsimp only at hcreation
  rw [if_pos htruthy] at hcreation
  obtain ⟨costs, hcosts, rfl⟩ := Results.map_eq_ok hcreation
  exact ⟨costs, hcosts, Assoc.get?_cons_self⟩

theorem at?_gasEstimates (c : Contract) (name : String) :
    c.toJson.at? ["evm", "gasEstimates", name] = c.gasEstimates.get? name := by
  change (c.gasEstimates.get? name).bind some = _
  exact Option.bind_fun_some _

theorem emptyOr_of_passes {passes : Json → Bool} {value : Json} (h : passes value) :
    emptyOr passes value := by
  rw [emptyOr, h, Bool.or_true]

theorem IsEstimate.gasFits (h : IsEstimate estimate) : gasFits estimate := by
  obtain ⟨text, htext, -⟩ := h.gasText_restates
  exact shapeFault_eq_nil_iff.mp ((meets_gasText estimate).exists_ok_iff.mp ⟨text, htext⟩)

theorem IsPair.creationFits {creation : Json} (hpair : IsPair creation execution deposit)
    (hexecution : IsEstimate execution) (hdeposit : IsEstimate deposit) :
    creationFits creation := by
  have hmeets := meets_creationGas_of_items hpair.execution hpair.deposit
  rw [hdeposit.gasFits, hexecution.gasFits] at hmeets
  exact shapeFault_eq_nil_iff.mp ((meets_creationGas creation).exists_ok_iff.mp hmeets)

/-- A contract that can be read apart from the costs of its creation. -/
structure ReadsOtherwise (contract : Json) : Prop where
  inner : IsEstimate ((contract.getD "gasEstimates").getD "internal")
  outer : IsEstimate ((contract.getD "gasEstimates").getD "external")
  interface : emptyOr isText (contract.getD "interface")
  isJson : ¬ IsNotJson (contract.getD "interface")
  numbers : ReadsNumbers contract
  bytecode : emptyOr isText (contract.getD "bytecode")
  runtimeBytecode : emptyOr isText (contract.getD "runtimeBytecode")

theorem ReadsOtherwise.exists_ofJson (h : ReadsOtherwise contract)
    (hpair : IsPair ((contract.getD "gasEstimates").getD "creation") execution deposit)
    (hexecution : IsEstimate execution) (hdeposit : IsEstimate deposit) :
    ∃ c, Contract.ofJson contract = .ok c := by
  obtain ⟨first, rest, hgas⟩ := exists_obj_of_getD_truthy hpair.truthy
  have htruthy : (contract.getD "gasEstimates").truthy := by
    rw [hgas]
    rfl
  obtain ⟨member, members, hcontract⟩ := exists_obj_of_getD_truthy htruthy
  have hobject : contract.isObject := by
    rw [hcontract]
    rfl
  have hestimates : emptyOr estimatesFit (contract.getD "gasEstimates") := by
    refine emptyOr_of_passes ?_
    have hisObject : (contract.getD "gasEstimates").isObject := by
      rw [hgas]
      rfl
    rw [estimatesFit, hisObject, emptyOr_of_passes (hpair.creationFits hexecution hdeposit),
      emptyOr_of_passes h.inner.gasFits, emptyOr_of_passes h.outer.gasFits]
    rfl
  rw [(meets_contract contract).exists_ok_iff, contractFaults]
  simp only [hobject, hestimates, h.bytecode, h.runtimeBytecode,
    interfaceFaults_eq_nil h.interface h.isJson h.numbers]
  rfl

/-- The costs of creating a contract, under their names in its document. -/
theorem IsPair.restated
    (hpair : IsPair ((contract.getD "gasEstimates").getD "creation") execution deposit)
    (hexecution : IsEstimate execution) (hdeposit : IsEstimate deposit) :
    ∃ executionCost depositCost,
      Restates execution executionCost ∧ Restates deposit depositCost ∧
      ∀ c, Contract.ofJson contract = .ok c → c.toJson.at? ["evm", "gasEstimates", "creation"] =
        some (.obj [("codeDepositCost", depositCost), ("executionCost", executionCost)]) := by
  obtain ⟨executionCost, hexecutionText, hexecution⟩ := hexecution.gasText_restates
  obtain ⟨depositCost, hdepositText, hdeposit⟩ := hdeposit.gasText_restates
  refine ⟨executionCost, depositCost, hexecution, hdeposit, fun c hc => ?_⟩
  obtain ⟨costs, hcosts, hcreation⟩ := contractGas_eq_ok hpair (Contract.parts_of_ofJson hc).1
  obtain ⟨first, second, hfirst, hsecond, rfl⟩ := creationGas_eq_ok hpair hcosts
  rw [hexecutionText] at hfirst
  rw [hdepositText] at hsecond
  cases hfirst
  cases hsecond
  rw [at?_gasEstimates, hcreation]

/-- An estimate is given a text that restates it and that is not changed when it is met again. A
contract whose document is made names the first of the two estimates for its creation as the cost
of execution, and the second as the cost of the deposit. -/
theorem estimates_restated : (∀ estimate, IsEstimate estimate → ∃ text,
      gasText estimate = .ok text ∧ Restates estimate text ∧ gasText text = .ok text) ∧
    ∀ contract execution deposit,
      IsPair ((contract.getD "gasEstimates").getD "creation") execution deposit →
      IsEstimate execution → IsEstimate deposit →
      (ReadsOtherwise contract → ∃ c, Contract.ofJson contract = .ok c) ∧
      ∃ executionCost depositCost,
        Restates execution executionCost ∧ Restates deposit depositCost ∧
        ∀ c, Contract.ofJson contract = .ok c →
          c.toJson.at? ["evm", "gasEstimates", "creation"] =
            some (.obj [("codeDepositCost", depositCost), ("executionCost", executionCost)]) := by
  refine ⟨fun estimate h => ?_, fun contract execution deposit hpair hexecution hdeposit =>
    ⟨fun h => h.exists_ofJson hpair hexecution hdeposit, hpair.restated hexecution hdeposit⟩⟩
  obtain ⟨text, htext, hrestates⟩ := h.gasText_restates
  exact ⟨text, htext, hrestates, gasText_idempotent htext⟩

/-- The number that is nearest to `2 ^ 53 + 1` is `2 ^ 53`. -/
theorem estimates_restated_beside_nearest :
    let cost : Int := 9007199254740993
    let estimate : Json := .obj [("f()", .int cost), ("nested", .obj [("g()", .null),
      ("h()", .float (.finite false 4503599627370496 (-51)))])]
    let contract : Json := .obj [("gasEstimates", .obj [("creation", .arr [.int cost, .null]),
      ("external", estimate)])]
    (Binary64.ofInt cost).value? = some ((9007199254740992 : Int) : ℚ) ∧ IsEstimate estimate ∧
      (∃ text, gasText estimate = .ok text ∧ Restates estimate text ∧ gasText text = .ok text) ∧
      ReadsOtherwise contract ∧ ∃ c, Contract.ofJson contract = .ok c ∧
        c.toJson.at? ["evm", "gasEstimates", "creation"] =
          some (.obj [("codeDepositCost", .str "infinite"),
            ("executionCost", .str "9007199254740993")]) := by
  intro cost estimate contract
  have hcost : IsEstimate (.int cost) := isEstimate_int_iff.mpr (by decide +kernel)
  have hwhole : IsEstimate (.float (.finite false 4503599627370496 (-51))) :=
    .float ⟨by decide, by decide, by decide, .inl (by decide)⟩
  have hestimate : IsEstimate estimate := by
    refine .obj (List.forall_mem_cons.mpr ⟨hcost, List.forall_mem_singleton.mpr (.obj ?_)⟩)
    exact List.forall_mem_cons.mpr ⟨.null, List.forall_mem_singleton.mpr hwhole⟩
  have hreads : ReadsOtherwise contract := ⟨.null, hestimate, rfl, nofun, nofun, rfl, rfl⟩
  obtain ⟨hexists, executionCost, depositCost, hexecution, hdeposit, hat⟩ :=
    estimates_restated.2 contract (.int cost) .null ⟨rfl, rfl⟩ hcost .null
  obtain ⟨c, hc⟩ := hexists hreads
  cases hexecution
  cases hdeposit
  exact ⟨Binary64.toInt?_eq_some_iff.mp (by decide), hestimate,
    estimates_restated.1 estimate hestimate, hreads, c, hc, hat c hc⟩

end Legacy

end SolcDispatch
