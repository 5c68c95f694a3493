import SolcDispatch.Client
import SolcDispatch.Proofs.Http.Envelope
import SolcDispatch.Proofs.Json.Bytes

/-! A client gets from the service what the broker behind it makes of the same document. -/

namespace SolcDispatch

namespace Http

theorem lengthOf_toString {n : Nat} (hn : n < 10 ^ Json.maxDigits) :
    lengthOf (toString n) = .ok (some n) := by
  have hdigits : (toString n).toList = Nat.toDigits 10 n := by
    rw [Nat.toString_eq_repr, Nat.toList_repr]
  have hdigit {c : Char} (hc : c ∈ Nat.toDigits 10 n) : c.isDigit := by
    rw [← Json.isDigit_iff]
    exact Json.isDigit_of_mem_toDigits hc
  have hall : (Nat.toDigits 10 n).all (fun c => c.isDigit || isRaisedDigit c) := by
    rw [List.all_eq_true]
    intro c hc
    simp [hdigit hc]
  have hraised : (Nat.toDigits 10 n).any isRaisedDigit = false := by
    rw [List.any_eq_false]
    intro c hc hraised
    have := hdigit hc
    simp only [isRaisedDigit, Bool.or_eq_true, beq_iff_eq] at hraised
    rcases hraised with (rfl | rfl) | rfl <;> exact absurd this (by decide)
  have hlength : ¬ Json.maxDigits < (Nat.toDigits 10 n).length :=
    Nat.not_lt.mpr ((Nat.length_toDigits_le_iff (by decide) (by decide)).mpr hn)
  rw [lengthOf, hdigits]
  simp [hall, hraised, hlength, Json.natOfDigits_toDigits]

end Http

namespace Client

open Http

variable {host version : String} {input : Json}

/-- What a client asks for. -/
def question (version : String) (input : Json) : Json :=
  .obj [("version", .str version), ("input", input)]

/-- The bytes that a client sends. -/
def sentBytes (version : String) (input : Json) : Text.Bytes :=
  Text.utf8 (Json.print Json.compactUnicode (question version input))

/-- A document compiled with a version by a client of a service; nothing as long as there is
no answer. -/
def compile {σ : Type} (around : Surroundings σ) (s : Service) (host version : String)
    (input : Json) : Except Failure (Option (Except Unavailable Json)) :=
  (request host version input).map fun r => outcome (fetched (s.handle around r).served)

def requestOf (host version : String) (input : Json) : Request where
  method := Route.compile.method
  path := Address.path (url host)
  headers := [("content-type", jsonType),
    ("content-length", toString (sentBytes version input).length)]
  body := sentBytes version input

theorem request_eq (h : input.allFinite) :
    request host version input = .ok (requestOf host version input) := by
  rw [request, bodyText, if_pos h]
  rfl

/-- A request of a client with its document. -/
structure Asks (r : Request) (version : String) (input : Json) : Prop where
  method : r.method = Route.compile.method
  path : r.path = Route.compile.path
  type : r.header? "content-type" = some jsonType
  length : r.header? "content-length" = some (toString r.body.length)
  body : r.body = sentBytes version input

theorem asks_requestOf (hhost : Address.path (url host) = Route.compile.path) :
    Asks (requestOf host version input) version input where
  method := rfl
  path := hhost
  type := by simp [requestOf, Request.header?, Headers.get?]
  length := by
    have hne : (Headers.lower "content-type" == Headers.lower "content-length") = false := by
      decide
    simp [requestOf, Request.header?, Headers.get?, hne]
  body := by rw [requestOf]

variable {r : Request}

theorem Asks.ofRequest (h : Asks r version input) (hinput : input.WellFormed) :
    Body.ofRequest r = .value (question version input) := by
  have hread : Json.parseBytes? r.body = some (.ok (question version input)) := by
    rw [h.body, sentBytes, question]
    exact Json.parseBytes?_print Json.isPlain_compactUnicode
      (by simp [Json.WellFormed, Json.WellFormedMembers, hinput])
  have hbody : r.body.isEmpty = false := by
    cases hempty : r.body with
    | nil =>
      rw [hempty] at hread
      cases hread
    | cons byte rest => rfl
  have htype : isJsonType jsonType := by decide
  simp [Body.ofRequest, hbody, h.type, htype, hread]

theorem Asks.refuseLength (h : Asks r version input) (hdigits : r.body.length < 10 ^ Json.maxDigits)
    {limit : Int} (hlimit : (r.body.length : Int) ≤ limit) : refuseLength limit r = none := by
  rw [Http.refuseLength, statedLength, h.length]
  simp only [lengthOf_toString hdigits]
  exact if_neg (by omega)

variable {σ : Type} {around : Surroundings σ} {s : Service} {b : Broker}

/-- The service compiles the document that the client sent, with the version it sent. -/
theorem Asks.compileBody (h : Asks r version input) (hinput : input.WellFormed)
    (hb : s.broker = some b) : (s.compileBody around (.ofRequest r)).served =
      (Service.ofEnding (b.compile around false version input).ending).1 := by
  rw [h.ofRequest hinput, Service.compileBody, hb]
  rfl

theorem read_label (anyOrigin : Bool) (r : Request) (response : Response) :
    read (CrossOrigin.label anyOrigin r response) = read response := rfl

theorem envelope?_jsonResponse (status : Nat) {members : Json.Members}
    (h : (Json.obj members).WellFormed) :
    envelope? (jsonResponse status (.obj members)) = some (.obj members) := by
  rw [envelope?, jsonResponse, Json.parseBytes?_print Json.isPlain_compactUnicode h]
  rfl

theorem read_success {result : Json} (hobject : result.isObject) (hresult : result.WellFormed) :
    read (jsonResponse 200 (success result)) = .ok result := by
  have henvelope : (success result).WellFormed := by
    simp [success, Json.WellFormed, Json.WellFormedMembers, hresult]
  rw [success] at henvelope ⊢
  rw [read, envelope?_jsonResponse 200 henvelope]
  cases result with
  | obj members => cases members <;> rfl
  | _ => cases hobject

theorem read_refusal {status : Nat} (hstatus : status ≠ 200) (error : String) :
    read (refusalResponse status error) = .error {
      message := if error = "" then s!"compile service returned {status}" else error
      status := some status } := by
  have henvelope : (refusal error).WellFormed := by
    simp [refusal, Json.WellFormed, Json.WellFormedMembers]
  have hother : ((jsonResponse status (refusal error)).status = 200) = False := by
    simp only [jsonResponse, eq_iff_iff, iff_false]
    omega
  rw [refusalResponse]
  rw [refusal] at henvelope hother ⊢
  rw [read, envelope?_jsonResponse status henvelope]
  simp only [hother]
  by_cases herror : error = ""
  · subst herror
    rfl
  · have hcodes : TextLike.codes error ≠ [] := by simpa [TextLike.codes] using herror
    simp [errorOf, Json.getD, Json.get?, Assoc.get?, Json.truthy, hcodes, herror, Json.plain,
      TextLike.toString, Json.ofList_codes]
    rfl

/-- The answer reports how a compilation ended: its result, or the status and the text of a
failure that the service foresees. -/
def Reports (ending : Ending) (answer : Option (Except Unavailable Json)) : Prop :=
  (∀ result, answer = some (.ok result) ↔ ending = .finished (.ok result)) ∧
  (∀ f status, ending = .finished (.error f) → f.failureClass.status? = some status →
    answer = some (.error {
      message := if f.message = "" then s!"compile service returned {status}" else f.message
      status := some status }))

theorem reports_refusal {f : Failure} {status : Nat} (hstatus : status ≠ 200) {error : String}
    (h : ∀ foreseen, f.failureClass.status? = some foreseen →
      foreseen = status ∧ f.message = error) :
    Reports (.finished (.error f)) (some (read (refusalResponse status error))) := by
  rw [read_refusal hstatus]
  refine ⟨fun result => ⟨fun h => (nomatch h), fun h => (nomatch h)⟩, ?_⟩
  rintro _ foreseen ⟨⟩ hforeseen
  obtain ⟨rfl, rfl⟩ := h foreseen hforeseen
  rfl

/-- The service tells the client how the compilation ended. -/
theorem reports_ofEnding {ending : Ending} (anyOrigin : Bool) (r : Request)
    (hresult : ∀ result, ending = .finished (.ok result) →
      result.isObject ∧ result.WellFormed ∧ result.allFinite) :
    Reports ending (outcome (fetched (Service.caught
      ((Service.ofEnding ending).1.map (CrossOrigin.label anyOrigin r))))) := by
  cases ending with
  | cancelled =>
    refine ⟨fun result => ⟨fun h => ?_, fun h => ?_⟩, fun f status h => ?_⟩
    · cases h
    · cases h
    · cases h
  | finished found =>
    cases found with
    | ok result =>
      obtain ⟨hobject, hwellFormed, hfinite⟩ := hresult result rfl
      rw [Service.ofEnding, if_pos hfinite]
      simp only [Served.map, Service.caught, fetched, outcome, read_label,
        read_success hobject hwellFormed]
      refine ⟨fun other => ?_, fun f status h => ?_⟩
      · simp only [Option.some.injEq, Except.ok.injEq, Ending.finished.injEq]
      · cases h
    | error f =>
      rw [Service.ofEnding, ofFailure]
      cases hstatus : f.failureClass.status? with
      | none =>
        simp only [Served.map, Service.caught, fetched, outcome, unforeseen]
        refine reports_refusal (by decide) fun foreseen hforeseen => ?_
        rw [hstatus] at hforeseen
        cases hforeseen
      | some status =>
        simp only [Served.map, Service.caught, fetched, outcome, read_label]
        refine reports_refusal ?_ fun foreseen hforeseen => ?_
        · rintro rfl
          exact status?_ne_ok _ hstatus
        · rw [hstatus] at hforeseen
          cases hforeseen
          exact ⟨rfl, rfl⟩

theorem compile_reports (around : Surroundings σ) (s : Service) (hb : s.broker = some b)
    (hhost : Address.path (url host) = Route.compile.path) (hinput : input.WellFormed)
    (hfinite : input.allFinite)
    (hdigits : (sentBytes version input).length < 10 ^ Json.maxDigits)
    (hlimit : ((sentBytes version input).length : Int) ≤ s.maxRequestBytes)
    (hresult : ∀ result, (b.compile around false version input).ending = .finished (.ok result) →
      result.WellFormed ∧ result.allFinite) :
    ∃ answer, compile around s host version input = .ok answer ∧
      Reports (b.compile around false version input).ending answer := by
  have hasks : Asks (requestOf host version input) version input := asks_requestOf hhost
  have hserved : ((s.handle around (requestOf host version input)).served) =
      Service.caught ((Service.ofEnding (b.compile around false version input).ending).1.map
        (CrossOrigin.label s.anyOrigin (requestOf host version input))) := by
    rw [Service.handle_compile hasks.method hasks.path,
      hasks.refuseLength (hasks.body ▸ hdigits) (hasks.body ▸ hlimit),
      hasks.compileBody hinput hb]
  have hrun : compile around s host version input = .ok (outcome (fetched
      (s.handle around (requestOf host version input)).served)) := by
    rw [compile, request_eq hfinite]
    rfl
  refine ⟨_, hrun, ?_⟩
  rw [hserved]
  exact reports_ofEnding _ _ fun result h => ⟨Broker.isObject_of_compile h, hresult result h⟩

/-- Surroundings in which every build prints the same. -/
def printing (text : String) : Surroundings Unit where
  depot := []
  followsRedirections := false
  loader := {
    load := fun _ _ => .ok (.modern, ())
    answer := fun _ s => (.ok text, s)
    diagnostics := fun _ => "" }

def build : FilePath := ⟨"/", ["builds", "soljson-v0.8.20+commit.a1b79de6.js"]⟩

/-- A broker with one build in its cache. -/
def stocked : Broker where
  known := { scripted := ["v0.8.20+commit.a1b79de6"], loaded := true }
  cache := {
    root := ⟨"/", ["builds"]⟩
    source := { baseUrl := "", platform := "linux-amd64", floor := ⟨0, 6, 0, none, none⟩ }
    files := [(build, .file [] 0o600)] }
  traces := { capacity := 1 }
  timeout := .finite false 60 0

theorem readOutput_print {members : Json.Members} (h : (Json.obj members).WellFormed) :
    readOutput (Json.print Json.compact (.obj members)) "" = .ok (.obj members) := by
  have hblank : Text.isAllBlank (Json.print Json.compact (.obj members)) = false := by
    rw [Text.isAllBlank, Json.print, String.toList_ofList, Json.printChars]
    rfl
  rw [readOutput, hblank, Json.parse_print Json.isPlain_compact h]
  rfl

theorem stocked_compile {members : Json.Members} (h : (Json.obj members).WellFormed) :
    (stocked.compile (printing (Json.print Json.compact (.obj members))) false
      "v0.8.20+commit.a1b79de6" (.obj [("sources", .obj [])])).ending =
        .finished (.ok (.obj members)) := by
  have hadmission : stocked.admission "v0.8.20+commit.a1b79de6" (.obj [("sources", .obj [])]) =
      .ok ⟨"v0.8.20+commit.a1b79de6", .scripted, ⟨"Solidity", [], [], []⟩⟩ := rfl
  have hacquire (around : Surroundings Unit) : stocked.acquire around "v0.8.20+commit.a1b79de6" =
      (some (.ok build), [], stocked) := rfl
  have hpayload : StandardInput.payloadText ⟨"Solidity", [], [], []⟩ = .ok (Json.text (.obj
      [("language", .str "Solidity"), ("sources", .obj []), ("settings", .obj [])])) := rfl
  have hrun (interpreter : Interpreter Unit) (hanswer : ∀ c s, interpreter.answer c s =
      (.ok (Json.print Json.compact (.obj members)), s)) :
      (Scripted.compileModern interpreter ⟨"Solidity", [], [], []⟩ ⟨(), []⟩).1 =
        .ok (.obj members) := by
    rw [Scripted.compileModern_apply hpayload, hanswer]
    dsimp only
    rw [readOutput_print h]
    rfl
  unfold Broker.compile
  simp only [hadmission]
  unfold Broker.invoke
  simp only [hacquire, Invocation.run, Invocation.ofScripted, printing, Loader.interpreter]
  rw [Scripted.compile_of_modern rfl]
  exact congrArg (Broker.endingOf _ false)
    (hrun ⟨.modern, fun _ s => (.ok (Json.print Json.compact (.obj members)), s)⟩ fun _ _ => rfl)

theorem compile_reports_null :
    compile (printing (Json.print Json.compact (.obj [("contracts", .null)])))
      { maxRequestBytes := 1000, broker := some stocked } "http://broker"
      "v0.8.20+commit.a1b79de6" (.obj [("sources", .obj [])]) =
        .ok (some (.ok (.obj [("contracts", .null)]))) := by
  have hwellFormed : (Json.obj [("contracts", .null)]).WellFormed := by
    simp [Json.WellFormed, Json.WellFormedMembers]
  have hending := stocked_compile hwellFormed
  have hhost : Address.path (url "http://broker") = Route.compile.path := by decide +kernel
  have hlength : (sentBytes "v0.8.20+commit.a1b79de6" (.obj [("sources", .obj [])])).length =
      60 := by
    decide +kernel
  have hdigits : (sentBytes "v0.8.20+commit.a1b79de6" (.obj [("sources", .obj [])])).length <
      10 ^ Json.maxDigits := by
    rw [hlength]
    exact Nat.lt_of_lt_of_le (show 60 < 10 ^ 2 by decide)
      (Nat.pow_le_pow_right (by decide) (by decide))
  have hlimit : ((sentBytes "v0.8.20+commit.a1b79de6" (.obj [("sources", .obj [])])).length : Int) ≤
      1000 := by
    rw [hlength]
    decide
  obtain ⟨answer, hanswer, hresult, -⟩ := compile_reports
    (printing (Json.print Json.compact (.obj [("contracts", .null)])))
    { maxRequestBytes := 1000, broker := some stocked } rfl hhost
    (by simp [Json.WellFormed, Json.WellFormedMembers]) rfl hdigits hlimit fun result h => by
      rw [hending] at h
      cases h
      exact ⟨hwellFormed, rfl⟩
  rw [hanswer, (hresult _).mpr hending]

end Client

end SolcDispatch
