import SolcDispatch.Http.Service
import SolcDispatch.Proofs.Broker.Result
import SolcDispatch.Proofs.Text.Utf8

/-! The envelope in which compilations are answered, and the only bodies that are answered
without it: those whose text cannot be decoded, and those with a number of too many digits. -/

namespace SolcDispatch.Http

/-- A result with status 200, or an error with another status. -/
def InEnvelope (r : Response) : Prop :=
  ∃ headers,
    (∃ members, r = withHeaders headers (jsonResponse 200 (success (.obj members)))) ∨
    (∃ status error, status ≠ 200 ∧ r = withHeaders headers (refusalResponse status error))

/-- What is answered without the envelope. -/
def IsDetail (r : Response) : Prop :=
  ∃ headers status text, r = withHeaders headers (detailResponse status text)

theorem withHeaders_withHeaders (headers more : Headers) (r : Response) :
    withHeaders more (withHeaders headers r) = withHeaders (headers ++ more) r := by
  simp [withHeaders]

theorem withHeaders_nil (r : Response) : withHeaders [] r = r := by
  simp [withHeaders]

theorem inEnvelope_success {result : Json} (h : result.isObject) :
    InEnvelope (jsonResponse 200 (success result)) := by
  cases result with
  | obj members => exact ⟨[], .inl ⟨members, (withHeaders_nil _).symm⟩⟩
  | _ => cases h

theorem inEnvelope_refusal {status : Nat} (h : status ≠ 200) (error : String) :
    InEnvelope (refusalResponse status error) :=
  ⟨[], .inr ⟨status, error, h, (withHeaders_nil _).symm⟩⟩

theorem InEnvelope.withHeaders {r : Response} (h : InEnvelope r) (more : Headers) :
    InEnvelope (withHeaders more r) := by
  obtain ⟨headers, ⟨members, rfl⟩ | ⟨status, error, hstatus, rfl⟩⟩ := h
  · exact ⟨headers ++ more, .inl ⟨members, withHeaders_withHeaders _ _ _⟩⟩
  · exact ⟨headers ++ more, .inr ⟨status, error, hstatus, withHeaders_withHeaders _ _ _⟩⟩

theorem body_jsonResponse_inj {first second : Nat} {headers more : Headers} {v w : Json}
    (h : withHeaders headers (jsonResponse first v) = withHeaders more (jsonResponse second w)) :
    Json.printChars Json.compactUnicode v = Json.printChars Json.compactUnicode w := by
  have hbody := congrArg (fun r => Text.decodeUtf8 r.body) h
  simp only [withHeaders, jsonResponse, Text.decodeUtf8_utf8, Json.print] at hbody
  exact String.ofList_injective hbody

/-- The names of the first members differ in their first letters. -/
theorem IsDetail.not_inEnvelope {r : Response} (h : IsDetail r) : ¬ InEnvelope r := by
  obtain ⟨headers, status, text, rfl⟩ := h
  rintro ⟨more, ⟨members, h⟩ | ⟨other, error, -, h⟩⟩
  · have htext := body_jsonResponse_inj h
    simp [success, Json.printChars, Json.printMembers, Json.printString, Json.printCode,
      Json.printChar, TextLike.codes, Text.isHalf, Text.isHighSurrogate, Text.isLowSurrogate]
      at htext
  · have htext := body_jsonResponse_inj h
    simp [refusal, Json.printChars, Json.printMembers, Json.printString, Json.printCode,
      Json.printChar, TextLike.codes, Text.isHalf, Text.isHighSurrogate, Text.isLowSurrogate]
      at htext

/-- Whatever was served is in the envelope. -/
def Served.InEnvelope : Served → Prop
  | .answered r => Http.InEnvelope r
  | _ => True

theorem status?_ne_ok (c : FailureClass) : c.status? ≠ some 200 := by
  cases c <;> decide

theorem inEnvelope_ofFailure (f : Failure) : (ofFailure f).1.InEnvelope := by
  rw [ofFailure]
  cases hstatus : f.failureClass.status? with
  | none => trivial
  | some status =>
    refine inEnvelope_refusal ?_ f.message
    rintro rfl
    exact status?_ne_ok _ hstatus

theorem inEnvelope_ofEnding {ending : Ending}
    (h : ∀ result, ending = .finished (.ok result) → result.isObject) :
    (Service.ofEnding ending).1.InEnvelope := by
  cases ending with
  | cancelled => trivial
  | finished outcome =>
    cases outcome with
    | error f => exact inEnvelope_ofFailure f
    | ok result =>
      rw [Service.ofEnding]
      by_cases hfinite : result.allFinite
      · rw [if_pos hfinite]
        exact inEnvelope_success (h result rfl)
      · rw [if_neg hfinite]
        trivial

theorem ofEnding_eq_waiting {ending : Ending} :
    (Service.ofEnding ending).1 = .waiting ↔ ending = .cancelled := by
  cases ending with
  | cancelled => simp [Service.ofEnding]
  | finished outcome =>
    cases outcome with
    | error f =>
      simp only [Service.ofEnding, ofFailure]
      cases f.failureClass.status? <;> simp
    | ok result =>
      rw [Service.ofEnding]
      by_cases hfinite : result.allFinite <;> simp [hfinite]

namespace Service

variable {σ : Type} {around : Surroundings σ} {s : Service} {r : Request}

/-- The last resort: a failure that escaped is answered all the same. -/
def caught : Served → Served
  | .escaped f => .answered (unforeseen f).1
  | served => served

theorem inEnvelope_caught {served : Served} (h : served.InEnvelope) :
    (caught served).InEnvelope := by
  cases served with
  | answered r => exact h
  | escaped f => exact inEnvelope_refusal (by decide) _
  | waiting => trivial

section Compile

variable (hmethod : r.method = Route.compile.method) (hpath : r.path = Route.compile.path)

include hmethod hpath

theorem serve_compile : s.serve around r = s.compileBody around (.ofRequest r) := by
  have hroute : Route.ofPath? Route.compile.path = some .compile := by decide
  rw [serve, hpath, hroute]
  simp only [hmethod, if_true]
  rfl

/-- The way of a request to compile, from the limit on its length to the last resort. -/
theorem handle_compile : (s.handle around r).served = caught
    (match refuseLength s.maxRequestBytes r with
      | some served => served
      | none => (s.compileBody around (.ofRequest r)).served.map
          (CrossOrigin.label s.anyOrigin r)) := by
  have hquestion : CrossOrigin.question? r = none := by
    rw [CrossOrigin.question?, if_neg (by rw [hmethod]; decide)]
  have hbody (response : Response) : withoutBody r response = response := by
    rw [withoutBody, if_neg (by rw [hmethod]; decide)]
  rw [handle, serveLimited, serveCrossOrigin, hquestion, serve_compile hmethod hpath]
  dsimp only
  cases hlength : refuseLength s.maxRequestBytes r with
  | some served => cases served <;> simp [Served.map, caught, hbody]
  | none =>
    dsimp only
    cases (s.compileBody around (.ofRequest r)).served <;> simp [Served.map, caught, hbody]

end Compile

theorem inEnvelope_refuseLength {limit : Int} {served : Served}
    (h : refuseLength limit r = some served) : served.InEnvelope ∧ served ≠ .waiting := by
  rw [refuseLength] at h
  split at h
  · cases h
    exact ⟨trivial, Served.noConfusion⟩
  · split at h
    · cases h
      exact ⟨inEnvelope_refusal (by decide) _, Served.noConfusion⟩
    · cases h
  · cases h

theorem inEnvelope_faulty (faults : List RequestFault) : InEnvelope (faulty faults) :=
  inEnvelope_refusal (by decide) _

theorem inEnvelope_compileBody {body : Body} (h : body ≠ .unreadable) :
    (s.compileBody around body).served.InEnvelope := by
  rw [compileBody]
  cases hrefusal : body.refusal? with
  | some response =>
    cases body with
    | malformed offset =>
      cases hrefusal
      exact inEnvelope_faulty _
    | unreadable => exact absurd rfl h
    | _ => cases hrefusal
  | none =>
    cases s.broker with
    | none => exact inEnvelope_ofFailure .notRunning
    | some b =>
      dsimp only
      split
      · exact inEnvelope_faulty _
      · exact inEnvelope_ofEnding fun _ hresult => Broker.isObject_of_compile hresult

/-- Only a compilation that was cancelled is not answered. -/
theorem compileBody_eq_waiting {body : Body} :
    (s.compileBody around body).served = .waiting ↔ ∃ b wanted, s.broker = some b ∧
      CompileRequest.ofBody body = .ok wanted ∧
      (b.compile around false wanted.version wanted.input).ending = .cancelled := by
  rw [compileBody]
  cases hrefusal : body.refusal? with
  | some response =>
    have hfault : CompileRequest.ofBody body = .error notAnObject := by
      cases body <;> first | rfl | cases hrefusal
    simp [answer, hfault]
  | none =>
    cases s.broker with
    | none => simp [fail, ofFailure, Failure.failureClass, FailureClass.status?]
    | some b =>
      cases hwanted : CompileRequest.ofBody body with
      | error fault => simp [answer]
      | ok wanted => simp [ofEnding_eq_waiting]

/-- A body that holds no request, or a request whose input is no document. -/
def IsMalformed (body : Body) : Prop :=
  match CompileRequest.ofBody body with
  | .error _ => True
  | .ok wanted => ∃ violations, StandardInput.parse wanted.input = .error violations

theorem compile_of_violations (around : Surroundings σ) (b : Broker) (version : String)
    {input : Json} {violations : List String}
    (h : StandardInput.parse input = .error violations) :
    ∃ f, (b.compile around false version input).ending = .finished (.error f) ∧
      f.failureClass.status? = some 400 := by
  unfold Broker.compile Broker.admission
  by_cases hknown : b.known.exists? version
  · rw [h]
    exact ⟨.invalidInput violations, by simp [hknown], rfl⟩
  · exact ⟨.unknownVersion, by simp [hknown], rfl⟩

theorem compileBody_malformed {body : Body} {b : Broker} (hb : s.broker = some b)
    (h : IsMalformed body) :
    ∃ response, (s.compileBody around body).served = .answered response ∧
      response.status = 400 := by
  rw [compileBody]
  cases hrefusal : body.refusal? with
  | some response =>
    refine ⟨response, rfl, ?_⟩
    cases body <;> cases hrefusal <;> rfl
  | none =>
    rw [hb]
    rw [IsMalformed] at h
    cases hwanted : CompileRequest.ofBody body with
    | error fault => exact ⟨_, rfl, rfl⟩
    | ok wanted =>
      rw [hwanted] at h
      obtain ⟨violations, hinput⟩ := h
      obtain ⟨f, hending, hstatus⟩ := compile_of_violations around b wanted.version hinput
      refine ⟨refusalResponse 400 f.message, ?_, rfl⟩
      simp [hending, ofEnding, ofFailure, hstatus]

theorem inEnvelope_caught_label {served : Served} (h : served.InEnvelope) :
    (caught (served.map (CrossOrigin.label s.anyOrigin r))).InEnvelope := by
  cases served with
  | answered response => exact h.withHeaders _
  | escaped f => exact inEnvelope_refusal (by decide) _
  | waiting => trivial

/-- Every answer is in the envelope but that to a body that cannot be read. A request is
left without an answer only when its compilation is. -/
theorem handle_compile_inEnvelope_iff (around : Surroundings σ) (s : Service) (r : Request)
    (hmethod : r.method = Route.compile.method) (hpath : r.path = Route.compile.path) :
    (∀ response, (s.handle around r).served = .answered response →
      (InEnvelope response ↔
        ¬ (refuseLength s.maxRequestBytes r = none ∧ Body.ofRequest r = .unreadable))) ∧
    (∀ f, (s.handle around r).served ≠ .escaped f) ∧
    ((s.handle around r).served = .waiting ↔ refuseLength s.maxRequestBytes r = none ∧
      ∃ b wanted, s.broker = some b ∧ CompileRequest.ofBody (.ofRequest r) = .ok wanted ∧
        (b.compile around false wanted.version wanted.input).ending = .cancelled) ∧
    (refuseLength s.maxRequestBytes r = none → s.broker.isSome →
      IsMalformed (.ofRequest r) → ∃ response,
        (s.handle around r).served = .answered response ∧ response.status = 400) := by
  rw [handle_compile hmethod hpath]
  cases hlength : refuseLength s.maxRequestBytes r with
  | some served =>
    obtain ⟨henvelope, hwaiting⟩ := inEnvelope_refuseLength hlength
    have hcaught := inEnvelope_caught henvelope
    refine ⟨fun response hresponse => ?_, ?_, ?_, fun h => nomatch h⟩
    · dsimp only at hresponse
      rw [hresponse] at hcaught
      exact iff_of_true hcaught (by simp)
    · cases served <;> simp [caught]
    · cases served <;> simp_all [caught]
  | none =>
    dsimp only
    refine ⟨fun response hresponse => ?_, ?_, ?_, fun _ hb hmalformed => ?_⟩
    · by_cases hbody : Body.ofRequest r = .unreadable
      · have hdetail : IsDetail response := by
          rw [hbody] at hresponse
          cases hresponse
          exact ⟨_, _, _, rfl⟩
        exact iff_of_false hdetail.not_inEnvelope (by simp [hbody])
      · have hcaught : (caught ((s.compileBody around (.ofRequest r)).served.map
            (CrossOrigin.label s.anyOrigin r))).InEnvelope :=
          inEnvelope_caught_label (inEnvelope_compileBody hbody)
        rw [hresponse] at hcaught
        exact iff_of_true hcaught (by simp [hbody])
    · intro f
      cases (s.compileBody around (.ofRequest r)).served <;> simp [caught, Served.map]
    · rw [← compileBody_eq_waiting]
      cases (s.compileBody around (.ofRequest r)).served <;> simp [caught, Served.map]
    · obtain ⟨b, hb⟩ := Option.isSome_iff_exists.mp hb
      obtain ⟨response, hserved, hstatus⟩ : ∃ response,
          (s.compileBody around (.ofRequest r)).served = .answered response ∧
            response.status = 400 := compileBody_malformed hb hmalformed
      rw [hserved]
      exact ⟨_, rfl, hstatus⟩

/-- Surroundings in which the depot has nothing. -/
def emptySurroundings : Surroundings Loader.Rehearsal :=
  { depot := [], followsRedirections := false, loader := Loader.rehearsals }

/-- A service whose broker knows no releases. -/
def emptyService : Service :=
  { maxRequestBytes := 1000
    broker := some {
      cache := {
        root := .ofString "/builds"
        source := { baseUrl := "", platform := "linux-amd64", floor := ⟨0, 4, 11, none, none⟩ } }
      traces := { capacity := 1 }
      timeout := .finite false 60 0 } }

def jsonRequest (body : Text.Bytes) : Request :=
  { method := "POST", path := "/v1/compile", headers := [("content-type", jsonType)], body }

theorem handle_truncated_inEnvelope : ∃ response,
    (emptyService.handle emptySurroundings (jsonRequest (Text.utf8 "\x7b"))).served =
      .answered response ∧ response.status = 400 ∧ InEnvelope response := by
  obtain ⟨henvelope, -, -, hmalformed⟩ := handle_compile_inEnvelope_iff emptySurroundings
    emptyService (jsonRequest (Text.utf8 "\x7b")) rfl rfl
  obtain ⟨response, hserved, hstatus⟩ := hmalformed rfl rfl trivial
  refine ⟨response, hserved, hstatus, (henvelope response hserved).mpr ?_⟩
  rintro ⟨-, hbody⟩
  cases hbody

/-- The byte is not the beginning of any character. -/
theorem handle_undecodable_not_inEnvelope : ∃ response,
    (emptyService.handle emptySurroundings (jsonRequest [0xFF])).served = .answered response ∧
      response.status = 400 ∧ IsDetail response ∧ ¬ InEnvelope response := by
  have hbody : Body.ofRequest (jsonRequest [0xFF]) = .unreadable := rfl
  have hserved : (emptyService.compileBody emptySurroundings .unreadable).served = .answered
      (detailResponse 400 "There was an error parsing the body") := rfl
  rw [handle_compile rfl rfl, hbody, hserved]
  refine ⟨_, rfl, rfl, ?_⟩
  have hdetail : IsDetail (CrossOrigin.label emptyService.anyOrigin (jsonRequest [0xFF])
      (detailResponse 400 "There was an error parsing the body")) := ⟨_, _, _, rfl⟩
  exact ⟨hdetail, hdetail.not_inEnvelope⟩

end Service

end SolcDispatch.Http
