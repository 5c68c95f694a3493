import SolcDispatch.Proofs.Http.Envelope

/-! The limit on the length of a request's body. What is refused is decided by the field in
which a request states its length, so a body that is too long is refused exactly if that field
says so. -/

namespace SolcDispatch.Http

/-- A field of decimal digits alone, which write the number. -/
structure WritesNumber (field : String) (n : Nat) : Prop where
  nonempty : field.toList ≠ []
  digits : ∀ c ∈ field.toList, c.isDigit
  value : Nat.ofDigitChars 10 field.toList 0 = n

theorem not_isDigit_of_isRaisedDigit {c : Char} (h : isRaisedDigit c) : ¬ c.isDigit := by
  simp only [isRaisedDigit, Bool.or_eq_true, beq_iff_eq] at h
  rcases h with (rfl | rfl) | rfl <;> decide

theorem lengthOf_eq_some_iff {field : String} {n : Nat} :
    lengthOf field = .ok (some n) ↔
      WritesNumber field n ∧ field.toList.length ≤ Json.maxDigits := by
  constructor
  · intro h
    rw [lengthOf] at h
    split at h
    · cases h
    · rename_i hdigits
      split at h
      · cases h
      · rename_i hraised
        split at h
        · cases h
        · rename_i hshort
          cases h
          simp only [Bool.or_eq_true, List.isEmpty_iff, Bool.not_eq_true', not_or,
            Bool.not_eq_false, List.all_eq_true] at hdigits
          simp only [List.any_eq_true, not_exists, not_and] at hraised
          refine ⟨⟨hdigits.1, fun c hc => ?_, rfl⟩, Nat.not_lt.mp hshort⟩
          exact (hdigits.2 c hc).resolve_right (hraised c hc)
  · rintro ⟨⟨hne, hdigits, rfl⟩, hshort⟩
    have hempty : field.toList.isEmpty = false := List.isEmpty_eq_false_iff.mpr hne
    have hall : (field.toList.all fun c => c.isDigit || isRaisedDigit c) = true :=
      List.all_eq_true.mpr fun c hc => by simp [hdigits c hc]
    have hraised : field.toList.any isRaisedDigit = false :=
      List.any_eq_false.mpr fun c hc hr => not_isDigit_of_isRaisedDigit hr (hdigits c hc)
    have hlength : ¬ Json.maxDigits < field.toList.length := Nat.not_lt.mpr hshort
    simp only [lengthOf, hempty, hall, hraised, hlength, if_false, Bool.false_or,
      Bool.not_true, Bool.false_eq_true]
    rfl

/-- The first field for the length writes a greater number than the limit, with no more digits
than are read. -/
def Request.StatesMoreThan (r : Request) (limit : Int) : Prop :=
  ∃ field n, r.header? "content-length" = some field ∧ WritesNumber field n ∧
    field.toList.length ≤ Json.maxDigits ∧ limit < n

variable {r : Request} {limit more : Int}

theorem statesMoreThan_iff :
    r.StatesMoreThan limit ↔ ∃ n : Nat, statedLength r = .ok (some n) ∧ limit < n := by
  have hstated (n : Nat) : statedLength r = .ok (some n) ↔
      ∃ field, r.header? "content-length" = some field ∧ WritesNumber field n ∧
        field.toList.length ≤ Json.maxDigits := by
    rw [statedLength]
    cases r.header? "content-length" with
    | none => simp
    | some field => simp [lengthOf_eq_some_iff]
  constructor
  · rintro ⟨field, n, hfield, hn, hshort, hlt⟩
    exact ⟨n, (hstated n).mpr ⟨field, hfield, hn, hshort⟩, hlt⟩
  · rintro ⟨n, h, hlt⟩
    obtain ⟨field, hfield, hn, hshort⟩ := (hstated n).mp h
    exact ⟨field, n, hfield, hn, hshort, hlt⟩

theorem refuseLength_eq_tooLarge_iff :
    refuseLength limit r = some (.answered tooLarge) ↔ r.StatesMoreThan limit := by
  rw [statesMoreThan_iff, refuseLength]
  cases statedLength r with
  | error failure => simp
  | ok stated =>
    cases stated with
    | none => simp
    | some n => by_cases hlt : limit < n <;> simp [hlt]

theorem refuseLength_congr (h : ¬ r.StatesMoreThan limit) (hle : limit ≤ more) :
    refuseLength more r = refuseLength limit r := by
  rw [refuseLength, refuseLength]
  cases hstated : statedLength r with
  | error failure => rfl
  | ok stated =>
    cases stated with
    | none => rfl
    | some n =>
      have hlimit : ¬ limit < n := fun hlt => h (statesMoreThan_iff.mpr ⟨n, hstated, hlt⟩)
      have hmore : ¬ more < n := by omega
      simp only [hlimit, hmore, if_false]

/-- What is answered has another status. -/
def Served.StatusNe (served : Served) (status : Int) : Prop :=
  ∀ response, served = .answered response → response.status ≠ status

namespace Served

variable {response : Response} {status : Int}

theorem statusNe_answered (h : response.status ≠ status) : (answered response).StatusNe status := by
  rintro _ ⟨⟩
  exact h

theorem statusNe_escaped (f : Failure) : (escaped f).StatusNe status :=
  fun _ hresponse => nomatch hresponse

theorem statusNe_waiting : waiting.StatusNe status := fun _ hresponse => nomatch hresponse

theorem StatusNe.map {served : Served} (h : served.StatusNe status) (headers : Headers) :
    (served.map (withHeaders headers)).StatusNe status := by
  cases served with
  | answered response => exact statusNe_answered (h response rfl)
  | escaped f => exact statusNe_escaped f
  | waiting => exact statusNe_waiting

end Served

open Served (statusNe_answered statusNe_escaped statusNe_waiting)

theorem statusNe_refuseLength (h : ¬ r.StatesMoreThan limit) {served : Served}
    (hserved : refuseLength limit r = some served) : served.StatusNe 413 := by
  have hne : served ≠ .answered tooLarge := by
    rintro rfl
    exact h (refuseLength_eq_tooLarge_iff.mp hserved)
  rw [refuseLength] at hserved
  split at hserved
  · cases hserved
    exact statusNe_escaped _
  · split at hserved
    · exact absurd (Option.some.inj hserved).symm hne
    · cases hserved
  · cases hserved

theorem statusNe_refusalResponse {status : Nat} (h : status ≠ 413) (error : String) :
    (Served.answered (refusalResponse status error)).StatusNe 413 :=
  statusNe_answered (Int.ofNat_inj.not.mpr h)

theorem statusNe_ofFailure (f : Failure) : (ofFailure f).1.StatusNe 413 := by
  have hclass (c : FailureClass) : c.status? ≠ some 413 := by
    cases c <;> decide
  rw [ofFailure]
  cases hstatus : f.failureClass.status? with
  | none => exact statusNe_escaped f
  | some status =>
    refine statusNe_refusalResponse ?_ f.message
    rintro rfl
    exact hclass _ hstatus

namespace Service

variable {σ : Type} {around : Surroundings σ} {s : Service}

theorem statusNe_ofEnding (ending : Ending) : (ofEnding ending).1.StatusNe 413 := by
  rcases ending with (f | result) | _
  · exact statusNe_ofFailure f
  · rw [ofEnding]
    split
    · exact statusNe_answered (Int.ofNat_inj.not.mpr (by decide))
    · exact statusNe_escaped _
  · exact statusNe_waiting

theorem statusNe_refusal? {body : Body} {response : Response} (h : body.refusal? = some response) :
    (Served.answered response).StatusNe 413 := by
  cases body with
  | malformed offset =>
    cases h
    exact statusNe_refusalResponse (by decide) _
  | unreadable =>
    cases h
    exact statusNe_answered (Int.ofNat_inj.not.mpr (by decide))
  | _ => cases h

theorem statusNe_compileBody (body : Body) : (s.compileBody around body).served.StatusNe 413 := by
  rw [compileBody]
  cases hrefusal : body.refusal? with
  | some response => exact statusNe_refusal? hrefusal
  | none =>
    cases s.broker with
    | none => exact statusNe_ofFailure .notRunning
    | some b =>
      cases hwanted : CompileRequest.ofBody body with
      | error fault => exact statusNe_refusalResponse (by decide) _
      | ok wanted => exact statusNe_ofEnding _

theorem statusNe_caught {served : Served} (h : served.StatusNe 413) :
    (caught served).StatusNe 413 := by
  cases served with
  | answered => exact h
  | escaped f => exact statusNe_refusalResponse (by decide) _
  | waiting => exact statusNe_waiting

/-- The refusal of a body for its size: nothing is called, and the broker stays as it is. -/
def refused (s : Service) : Exchange := { served := .answered tooLarge, broker := s.broker }

section Compile

variable (hmethod : r.method = Route.compile.method)

include hmethod

theorem handle_of_statesMoreThan (h : r.StatesMoreThan s.maxRequestBytes) :
    s.handle around r = s.refused := by
  have hhead : r.method ≠ "HEAD" := by
    rw [hmethod]
    decide
  have hlength := refuseLength_eq_tooLarge_iff.mpr h
  simp only [handle, serveLimited, hlength, refused, Served.map, withoutBody, hhead, if_false]

theorem statusNe_handle (hpath : r.path = Route.compile.path)
    (h : ¬ r.StatesMoreThan s.maxRequestBytes) : (s.handle around r).served.StatusNe 413 := by
  rw [handle_compile hmethod hpath]
  apply statusNe_caught
  cases hlength : refuseLength s.maxRequestBytes r with
  | some served => exact statusNe_refuseLength h hlength
  | none => exact (statusNe_compileBody _).map _

theorem handle_eq_refused_iff (hpath : r.path = Route.compile.path) :
    s.handle around r = s.refused ↔ r.StatesMoreThan s.maxRequestBytes := by
  refine ⟨fun h => ?_, handle_of_statesMoreThan hmethod⟩
  by_contra hnot
  have hserved : (s.handle around r).served = .answered tooLarge := by rw [h, refused]
  exact statusNe_handle hmethod hpath hnot tooLarge hserved rfl

end Compile

theorem handle_congr (h : ¬ r.StatesMoreThan s.maxRequestBytes) {more : Int}
    (hle : s.maxRequestBytes ≤ more) :
    { s with maxRequestBytes := more }.handle around r = s.handle around r := by
  have hserve : { s with maxRequestBytes := more }.serveCrossOrigin around r =
      s.serveCrossOrigin around r := rfl
  have hlimited : { s with maxRequestBytes := more }.serveLimited around r =
      s.serveLimited around r := by
    simp only [serveLimited, refuseLength_congr h hle, hserve]
  rw [handle, hlimited, handle]

/-- A body that is too long is refused exactly if the request says that it is. One that is not,
by a request that states its true length, fares as it would without the limit. -/
theorem handle_compile_oversized_iff (around : Surroundings σ) (s : Service) (r : Request)
    (hmethod : r.method = Route.compile.method) (hpath : r.path = Route.compile.path) :
    ((s.maxRequestBytes < r.body.length → s.handle around r = s.refused) ↔
      (r.body.length ≤ s.maxRequestBytes ∨ r.StatesMoreThan s.maxRequestBytes)) ∧
    (s.handle around r = s.refused ↔ r.StatesMoreThan s.maxRequestBytes) ∧
    ∀ field, r.header? "content-length" = some field → WritesNumber field r.body.length →
      r.body.length ≤ s.maxRequestBytes →
        (s.handle around r).served.StatusNe 413 ∧
        ∀ more, s.maxRequestBytes ≤ more →
          { s with maxRequestBytes := more }.handle around r = s.handle around r := by
  have hrefused : s.handle around r = s.refused ↔ r.StatesMoreThan s.maxRequestBytes :=
    handle_eq_refused_iff hmethod hpath
  refine ⟨?_, hrefused, fun field hfield hwrites hle => ?_⟩
  · rw [hrefused]
    by_cases hlt : s.maxRequestBytes < r.body.length
    · have hnot : ¬ (r.body.length : Int) ≤ s.maxRequestBytes := by omega
      simp [hlt, hnot]
    · have hle : (r.body.length : Int) ≤ s.maxRequestBytes := by omega
      simp [hlt, hle]
  · have hstates : ¬ r.StatesMoreThan s.maxRequestBytes := by
      rintro ⟨other, n, hother, hn, -, hlt⟩
      obtain rfl := Option.some.inj (hfield.symm.trans hother)
      have hvalue : n = r.body.length := hn.value.symm.trans hwrites.value
      omega
    exact ⟨statusNe_handle hmethod hpath hstates, fun more => handle_congr hstates⟩

/-- A request to compile with the given fields for its length. -/
def compileRequest (lengths : List String) : Request where
  method := "POST"
  path := "/v1/compile"
  headers := ("content-type", jsonType) :: lengths.map ("Content-Length", ·)
  body := Text.utf8 "\x7b\"version\": \"0.8.20\"\x7d"

def limited (limit : Int) : Service := { emptyService with maxRequestBytes := limit }

/-- Of two fields for the length the first counts, whatever zeros it begins with. -/
theorem handle_two_lengths :
    (compileRequest ["0021", "1"]).StatesMoreThan 20 ∧
    (limited 20).handle emptySurroundings (compileRequest ["0021", "1"]) = (limited 20).refused ∧
    ((limited 21).handle emptySurroundings (compileRequest ["0021", "1"])).served.StatusNe 413 := by
  have hwrites : WritesNumber "0021" (compileRequest ["0021", "1"]).body.length :=
    ⟨by decide, List.all_eq_true.mp (by decide), by decide +kernel⟩
  have hfield : (compileRequest ["0021", "1"]).header? "content-length" = some "0021" := by
    decide +kernel
  have hlength : (compileRequest ["0021", "1"]).body.length = 21 := by decide +kernel
  obtain ⟨-, hrefused, -⟩ := handle_compile_oversized_iff emptySurroundings (limited 20)
    (compileRequest ["0021", "1"]) rfl rfl
  obtain ⟨-, -, hserved⟩ := handle_compile_oversized_iff emptySurroundings (limited 21)
    (compileRequest ["0021", "1"]) rfl rfl
  have hstates : (compileRequest ["0021", "1"]).StatesMoreThan 20 :=
    ⟨"0021", _, hfield, hwrites, by decide, by rw [hlength]; decide⟩
  refine ⟨hstates, hrefused.mpr hstates, (hserved "0021" hfield hwrites ?_).1⟩
  rw [hlength]
  decide

/-- The broker is asked for a body longer than the limit if its length is understated. -/
theorem handle_understated_not_refused :
    10 < (compileRequest ["1"]).body.length ∧
    ((limited 10).handle emptySurroundings (compileRequest ["1"])).served = .answered
      (withHeaders [("vary", "Origin")] (refusalResponse 400 "invalid version")) ∧
    (limited 10).handle emptySurroundings (compileRequest ["1"]) ≠ (limited 10).refused := by
  have hserved : ((limited 10).handle emptySurroundings (compileRequest ["1"])).served = .answered
      (withHeaders [("vary", "Origin")] (refusalResponse 400 "invalid version")) := by
    decide +kernel
  refine ⟨by decide +kernel, hserved, fun he => ?_⟩
  rw [he] at hserved
  exact absurd hserved (by decide +kernel)

end Service

end SolcDispatch.Http
