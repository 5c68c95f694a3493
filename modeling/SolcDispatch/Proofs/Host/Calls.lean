import SolcDispatch.Host.Connection
import SolcDispatch.Proofs.Host.Lines

/-! Calls over a connection. Each call sends one line that the host reads as the request, and
ends with the line that the host says next. -/

namespace SolcDispatch

/-- Whether a value is the given number; the truth values are no numbers. -/
def Json.isNumeral {τ : Type} (value : Json τ) (n : Nat) : Bool :=
  match value with
  | .bool _ => false
  | value => value.isNumber n

theorem Json.isNumber_succ_iff {τ : Type} {value : Json τ} {n : Nat} :
    value.isNumber (n + 1) ↔ value.isNumeral (n + 1) ∨ n = 0 ∧ value = .bool true := by
  cases value with
  | bool b =>
    cases b with
    | false => simp [isNumber, isNumeral]
    | true =>
      simp only [isNumber, isNumeral, if_true, beq_iff_eq, Bool.false_eq_true, false_or, and_true]
      omega
  | _ => simp [isNumeral]

namespace Wire

section Requests

variable {τ : Type} [TextLike τ] {id : Nat} {call : Call τ} {members : Json.Members τ}

theorem isShown_request {c : Char} (h : c ∈ (request id call).text.toList) :
    Json.isShown true c := by
  rw [Json.text, Json.print, String.toList_ofList] at h
  exact Json.isShown_of_mem_printChars Json.isShown_spaced (.inl rfl) h

theorem sent_eq (hfloat : (Json.obj members).floatFree) : Host.sent (.obj members) =
    Text.utf8 (Json.print Json.compactUnicode (.obj members)) ++ [0x0A] := by
  rw [Host.sent, Json.print, Json.printChars_script hfloat, Json.print]

theorem newline_notMem_print (hfloat : (Json.obj members).floatFree) :
    0x0A ∉ Text.utf8 (Json.print Json.compactUnicode (.obj members)) :=
  Json.newline_notMem_print Json.isShown_compactUnicode (.inl hfloat)

variable [Json.LawfulTextLike τ]

theorem wellFormed_request (h : id < 10 ^ Json.maxDigits) : (request id call).WellFormed := by
  simp only [request, Json.ofNat, Json.WellFormed, Json.WellFormedMembers, List.map_cons,
    List.map_nil, List.nodup_cons, List.mem_cons, List.not_mem_nil, or_false, Json.ofString_inj]
  refine ⟨by simp, ?_, trivial, trivial, trivial, trivial⟩
  rwa [Int.natAbs_natCast]

variable [DecidableEq τ]

theorem parse_request (h : id < 10 ^ Json.maxDigits) :
    Json.parse (request id call).text τ = .ok (request id call) :=
  Json.parse_print Json.isPlain_spaced (wellFormed_request h)

theorem ofLine_sent (h : (Json.obj members).WellFormed) (hfloat : (Json.obj members).floatFree) :
    ofLine (Host.sent (.obj members)) τ = .ok (.obj members) := by
  rw [sent_eq hfloat, ofLine, Json.parseBytes?_line Json.isPlain_compactUnicode h]
  rfl

end Requests

variable {τ : Type} [DecidableEq τ] [TextLike τ] {id : Nat} {reply : Json τ} {output : τ}

/-- A reply that carries the number of a call, says that all went well and has an output. -/
structure Answers (id : Nat) (reply : Json τ) (output : τ) : Prop where
  id : (reply.getD (TextLike.ofString "id")).isNumeral id
  ok : (reply.getD (TextLike.ofString "ok")).truthy
  output : reply.get? (TextLike.ofString "output") = some (.str output)

/-- A reply that would answer a call if `true` were its number. -/
structure Mistakable (reply : Json τ) (output : τ) : Prop where
  id : reply.getD (TextLike.ofString "id") = .bool true
  ok : (reply.getD (TextLike.ofString "ok")).truthy
  output : reply.get? (TextLike.ofString "output") = some (.str output)

theorem outputOf_eq_ok_iff : outputOf id reply = .ok output ↔
    (reply.getD (TextLike.ofString "id")).isNumber id ∧
      (reply.getD (TextLike.ofString "ok")).truthy ∧
      reply.get? (TextLike.ofString "output") = some (.str output) := by
  unfold outputOf
  dsimp only
  cases (reply.getD (TextLike.ofString "id")).isNumber id with
  | false => simp
  | true =>
    cases (reply.getD (TextLike.ofString "ok")).truthy with
    | false => simp
    | true =>
      simp only [Bool.not_true, Bool.false_eq_true, if_false, true_and]
      split
      · rename_i hget
        simp [hget]
      · rename_i hget
        simp only [reduceCtorEq, false_iff]
        exact hget output

/-- The number one is the only one for which `true` is taken. -/
theorem outputOf_succ_iff : outputOf (id + 1) reply = .ok output ↔
    Answers (id + 1) reply output ∨ id = 0 ∧ Mistakable reply output := by
  rw [outputOf_eq_ok_iff, Json.isNumber_succ_iff]
  constructor
  · rintro ⟨hid | ⟨hzero, hid⟩, hok, houtput⟩
    · exact .inl ⟨hid, hok, houtput⟩
    · exact .inr ⟨hzero, hid, hok, houtput⟩
  · rintro (⟨hid, hok, houtput⟩ | ⟨hzero, hid, hok, houtput⟩)
    · exact ⟨.inl hid, hok, houtput⟩
    · exact ⟨.inr ⟨hzero, hid⟩, hok, houtput⟩

end Wire

namespace Connection

variable {τ : Type} [TextLike τ]

/-- The texts of requests whose numbers follow a number. -/
def requestTexts (last : Nat) (calls : List (Call τ)) : List String :=
  calls.mapIdx fun k request => (Wire.request (last + k + 1) request).text

theorem requestTexts_cons (last : Nat) (request : Call τ) (calls : List (Call τ)) :
    requestTexts last (request :: calls) =
      (Wire.request (last + 1) request).text :: requestTexts (last + 1) calls := by
  rw [requestTexts, List.mapIdx_cons, requestTexts]
  simp only [Nat.add_zero, Nat.add_right_comm, Nat.add_assoc]

theorem isShown_requestTexts {last : Nat} {calls : List (Call τ)} {text : String}
    (h : text ∈ requestTexts last calls) : ∀ c ∈ text.toList, Json.isShown true c := by
  obtain ⟨k, hk, rfl⟩ := List.mem_mapIdx.mp h
  exact fun c hc => Wire.isShown_request hc

variable [DecidableEq τ] {c : Connection} {request : Call τ}

/-- Make calls one after another. -/
def callAll (calls : List (Call τ)) (c : Connection) : Connection :=
  calls.foldl (fun c request => (call request c).2) c

/-- A connection whose host is still sent what is written. -/
structure IsOpen (c : Connection) : Prop where
  notClosed : c.process.inputClosed = false
  notKilled : c.process.killed = false

theorem readLine_frame (p : Process) : ∃ bytesRead, p.readLine.2 = { p with bytesRead } := by
  unfold Process.readLine
  dsimp only
  split
  · exact ⟨_, rfl⟩
  split
  · exact ⟨_, rfl⟩
  · split
    · split
      · exact ⟨p.bytesRead, rfl⟩
      · exact ⟨_, rfl⟩
    · exact ⟨p.bytesRead, rfl⟩

theorem receive_frame (τ : Type) [DecidableEq τ] [TextLike τ] (c : Connection) : ∃ bytesRead lost,
    (c.receive τ).2 = { c with process := { c.process with bytesRead }, lost } := by
  obtain ⟨bytesRead, hframe⟩ := readLine_frame c.process
  unfold receive
  split
  · rename_i hread
    rw [hread] at hframe
    exact ⟨bytesRead, c.lost, by rw [← hframe]⟩
  · rename_i hread
    rw [hread] at hframe
    exact ⟨bytesRead, c.lost, by rw [← hframe]⟩
  · rename_i hread
    rw [hread] at hframe
    exact ⟨bytesRead, true, by rw [← hframe]⟩
  · rename_i hread
    rw [hread] at hframe
    exact ⟨bytesRead, c.lost, by rw [← hframe]⟩

/-- What a call changes: the line that it sends is written, and some of the output is read. -/
theorem call_frame (request : Call τ) (c : Connection) : ∃ bytesRead lost,
    (call request c).2 =
      { process := { c.process.send (Wire.requestLine (c.lastId + 1) request) with bytesRead }
        lastId := c.lastId + 1, lost } := by
  unfold call
  dsimp only
  split
  · exact ⟨_, _, rfl⟩
  · obtain ⟨bytesRead, lost, hframe⟩ := receive_frame τ { c with
      lastId := c.lastId + 1
      process := c.process.send (Wire.requestLine (c.lastId + 1) request) }
    split
    · rename_i hread
      rw [hread] at hframe
      exact ⟨bytesRead, lost, hframe⟩
    · rename_i hread
      rw [hread] at hframe
      exact ⟨bytesRead, lost, hframe⟩

theorem send_of_isOpen (h : c.IsOpen) (bytes : Text.Bytes) :
    c.process.send bytes = { c.process with input := c.process.input ++ bytes } := by
  unfold Process.send
  rw [if_neg (by simp [h.notClosed, h.notKilled])]

theorem call_of_isOpen (h : c.IsOpen) (request : Call τ) :
    (call request c).2.process.input =
        c.process.input ++ Wire.requestLine (c.lastId + 1) request ∧
      (call request c).2.lastId = c.lastId + 1 ∧ (call request c).2.IsOpen := by
  obtain ⟨bytesRead, lost, hcall⟩ := call_frame request c
  rw [hcall, send_of_isOpen h]
  exact ⟨rfl, rfl, h.notClosed, h.notKilled⟩

/-- Calls write their requests, each on a line, and count on. -/
theorem callAll_of_isOpen (h : c.IsOpen) (calls : List (Call τ)) :
    (callAll calls c).process.input =
        c.process.input ++ lineBytes (requestTexts c.lastId calls) ∧
      (callAll calls c).lastId = c.lastId + calls.length ∧ (callAll calls c).IsOpen := by
  induction calls generalizing c with
  | nil => exact ⟨(List.append_nil _).symm, rfl, h⟩
  | cons request calls ih =>
    obtain ⟨hinput, hid, hopen⟩ := call_of_isOpen h request
    obtain ⟨hinputs, hids, hopens⟩ := ih hopen
    refine ⟨?_, ?_, hopens⟩
    · rw [callAll, List.foldl_cons, ← callAll, hinputs, hinput, hid, requestTexts_cons,
        lineBytes_cons, List.append_assoc]
      rfl
    · rw [callAll, List.foldl_cons, ← callAll, hids, hid, List.length_cons]
      omega

theorem parse_requestTexts [Json.LawfulTextLike τ] {last : Nat} {calls : List (Call τ)}
    (h : last + calls.length < 10 ^ Json.maxDigits) :
    (requestTexts last calls).map (fun text => Json.parse text τ) =
      calls.mapIdx fun k request => .ok (Wire.request (last + k + 1) request) := by
  induction calls generalizing last with
  | nil => rfl
  | cons request calls ih =>
    rw [List.length_cons] at h
    rw [requestTexts_cons, List.map_cons, Wire.parse_request (by omega), ih (by omega),
      List.mapIdx_cons]
    simp only [Nat.add_zero, Nat.add_right_comm, Nat.add_assoc]

/-- The host is opened with nothing written yet. -/
theorem of_open {program : Program} {surplus : Nat → Nat} {artifact : String}
    {capability : Capability} (h : «open» artifact { program, surplus } = (.ok capability, c)) :
    c.IsOpen ∧ c.process.input = [] ∧ c.lastId = 0 := by
  obtain ⟨bytesRead, lost, hframe⟩ := receive_frame String { process := { program, surplus } }
  unfold «open» at h
  dsimp only at h
  split at h
  · cases h
  · rename_i hello received hreceive
    rw [hreceive] at hframe
    dsimp only at hframe
    split at h
    · obtain ⟨-, rfl⟩ := Prod.mk.inj h
      rw [hframe]
      exact ⟨⟨rfl, rfl⟩, rfl, rfl⟩
    · obtain ⟨hfault, -⟩ := Prod.mk.inj h
      cases hfault

/-- The line that the host says next, once it is sent a request; a lost host says none. -/
def HearsLine (request : Call τ) (c : Connection) (line : Text.Bytes) : Prop :=
  c.lost = false ∧ ∃ process,
    (c.process.send (Wire.requestLine (c.lastId + 1) request)).readLine = (.line line, process)

def Hears (request : Call τ) (c : Connection) (message : Json τ) : Prop :=
  ∃ line, HearsLine request c line ∧ Wire.ofLine line τ = .ok message

variable {line : Text.Bytes} {message other : Json τ} {output : τ}

theorem Hears.unique (h : Hears request c message) (hother : Hears request c other) :
    message = other := by
  obtain ⟨line, ⟨-, process, hread⟩, hmessage⟩ := h
  obtain ⟨again, ⟨-, rest, hagain⟩, hother⟩ := hother
  rw [hread] at hagain
  cases hagain
  rw [hmessage] at hother
  exact Except.ok.inj hother

theorem call_of_hearsLine (h : HearsLine request c line) : (call request c).1 =
    ((Wire.ofLine line τ).bind (Wire.outputOf (c.lastId + 1))).mapError .failed := by
  obtain ⟨hlost, process, hread⟩ := h
  simp only [call, hlost, Bool.false_eq_true, if_false, receive, hread]
  cases Wire.ofLine line τ <;> rfl

theorem exists_hearsLine (h : (call request c).1 = .ok output) :
    ∃ line, HearsLine request c line := by
  unfold call at h
  dsimp only at h
  split at h
  · cases h
  · rename_i hlost
    unfold receive at h
    dsimp only at h
    cases hread : (c.process.send (Wire.requestLine (c.lastId + 1) request)).readLine with
    | mk said process =>
      rw [hread] at h
      cases said with
      | line bytes => exact ⟨bytes, by simpa using hlost, process, hread⟩
      | overrun whole => cases h
      | ended => cases h
      | silence => cases h

theorem call_eq_ok_iff : (call request c).1 = .ok output ↔
    ∃ reply, Hears request c reply ∧ Wire.outputOf (c.lastId + 1) reply = .ok output := by
  constructor
  · intro h
    obtain ⟨line, hline⟩ := exists_hearsLine h
    rw [call_of_hearsLine hline] at h
    cases hread : Wire.ofLine line τ with
    | error failure =>
      rw [hread] at h
      cases h
    | ok reply =>
      rw [hread] at h
      refine ⟨reply, ⟨line, hline, hread⟩, ?_⟩
      cases houtput : Wire.outputOf (c.lastId + 1) reply with
      | error failure =>
        rw [Except.bind, houtput] at h
        cases h
      | ok text =>
        rw [Except.bind, houtput] at h
        cases h
        rfl
  · rintro ⟨reply, ⟨line, hline, hread⟩, houtput⟩
    rw [call_of_hearsLine hline, hread, Except.bind, houtput]
    rfl

/-- A line ends the call that it is said to. -/
theorem call_ends_of_hearsLine (h : HearsLine request c line) :
    (∃ output, (call request c).1 = .ok output) ∨
      ∃ failure, (call request c).1 = .error (.failed failure) := by
  rw [call_of_hearsLine h]
  cases (Wire.ofLine line τ).bind (Wire.outputOf (c.lastId + 1)) with
  | ok output => exact .inl ⟨output, rfl⟩
  | error failure => exact .inr ⟨failure, rfl⟩

section Sent

variable {members : Json.Members τ} {rest : Text.Bytes}

theorem hears_sent [Json.LawfulTextLike τ] (h : (Json.obj members).WellFormed)
    (hfloat : (Json.obj members).floatFree) (hlost : c.lost = false)
    (hshort : (Host.sent (.obj members)).length ≤ Process.maxLine + 1)
    (hunread : (c.process.send (Wire.requestLine (c.lastId + 1) request)).unread =
      Host.sent (.obj members) ++ rest) : Hears request c (.obj members) := by
  have hread := Wire.ofLine_sent h hfloat
  rw [Wire.sent_eq hfloat] at hread hunread hshort
  rw [List.append_assoc, List.singleton_append] at hunread
  rw [List.length_append, List.length_singleton] at hshort
  exact ⟨_, ⟨hlost, _, Process.readLine_of_unread hunread (Wire.newline_notMem_print hfloat)
    (Nat.le_of_succ_le_succ hshort)⟩, hread⟩

end Sent

/-- A line that is too long is an error of the call that it is said to. -/
theorem call_of_long {rest : Text.Bytes} (hlost : c.lost = false) (hline : 0x0A ∉ line)
    (hlong : Process.maxLine < line.length)
    (hunread : (c.process.send (Wire.requestLine (c.lastId + 1) request)).unread = line ++ rest) :
    ∃ whole, (call request c).1 = .error (.failed (.lineTooLong whole)) := by
  obtain ⟨whole, bytesRead, hread⟩ := Process.readLine_of_long hunread hline hlong
  refine ⟨whole, ?_⟩
  simp only [call, hlost, Bool.false_eq_true, if_false, receive, hread]

/-- What is written for calls: for each a line of printable ASCII characters, which a host gets
by itself and reads as the numbered call. -/
structure Written (calls : List (Call τ)) (input : Text.Bytes) (texts : List String) : Prop where
  lines : input = lineBytes texts
  shown : ∀ text ∈ texts, ∀ byte ∈ Text.utf8 text, 0x20 ≤ byte.toNat ∧ byte.toNat < 0x7F
  split : ∀ ended, Host.linesOf input ended = texts
  decoded : texts.map (fun text => Json.parse text τ) =
    calls.mapIdx fun k request => .ok (Wire.request (k + 1) request)

theorem written_requestTexts [Json.LawfulTextLike τ] {calls : List (Call τ)}
    (h : calls.length < 10 ^ Json.maxDigits) :
    Written calls (lineBytes (requestTexts 0 calls)) (requestTexts 0 calls) where
  lines := rfl
  shown text htext byte hbyte := by
    obtain ⟨c, hc, hcases⟩ := Json.mem_utf8 hbyte
    have hshown := isShown_requestTexts htext c hc
    simp only [Json.isShown, Bool.not_true, Bool.false_or, Bool.and_eq_true, decide_eq_true_eq]
      at hshown
    omega
  split := Host.linesOf_lineBytes fun text htext => isShown_requestTexts htext
  decoded := by
    rw [parse_requestTexts (by omega)]
    simp only [Nat.zero_add]

theorem calls_keep_protocol [Json.LawfulTextLike τ] {program : Program} {surplus : Nat → Nat}
    {artifact : String} {capability : Capability}
    (hopen : «open» artifact { program, surplus } = (.ok capability, c))
    (calls : List (Call τ)) (hcount : calls.length < 10 ^ Json.maxDigits) (next : Call τ) :
    let after := callAll calls c
    let number := calls.length + 1
    (∃ texts, Written calls after.process.input texts) ∧
    (∀ members rest, (Json.obj members).WellFormed → (Json.obj members).floatFree →
      after.lost = false → (Host.sent (.obj members)).length ≤ Process.maxLine + 1 →
      (after.process.send (Wire.requestLine number next)).unread =
        Host.sent (.obj members) ++ rest → Hears next after (.obj members)) ∧
    (∀ line rest, after.lost = false → 0x0A ∉ line → Process.maxLine < line.length →
      (after.process.send (Wire.requestLine number next)).unread = line ++ rest →
      ∃ whole, (call next after).1 = .error (.failed (.lineTooLong whole))) ∧
    (∀ line, HearsLine next after line → (∃ output, (call next after).1 = .ok output) ∨
      ∃ failure, (call next after).1 = .error (.failed failure)) ∧
    ((∀ output, (call next after).1 = .ok output ↔
        ∃ reply, Hears next after reply ∧ Wire.Answers number reply output) ↔
      ¬ (calls = [] ∧ ∃ reply output, Hears next after reply ∧ Wire.Mistakable reply output)) := by
  intro after number
  obtain ⟨hisOpen, hinput, hzero⟩ := of_open hopen
  obtain ⟨hwritten, hid, -⟩ := callAll_of_isOpen hisOpen calls
  rw [hinput, hzero, List.nil_append] at hwritten
  rw [hzero, Nat.zero_add] at hid
  have hcall (output : τ) : (call next after).1 = .ok output ↔ ∃ reply, Hears next after reply ∧
      (Wire.Answers number reply output ∨ calls = [] ∧ Wire.Mistakable reply output) := by
    rw [call_eq_ok_iff, hid]
    simp only [Wire.outputOf_succ_iff, List.length_eq_zero_iff, number]
  have hnumber : number = after.lastId + 1 := congrArg (· + 1) hid.symm
  refine ⟨⟨_, hwritten ▸ written_requestTexts hcount⟩, ?_, ?_,
    fun line => call_ends_of_hearsLine, ?_⟩
  · intro members rest hmembers hfloat hlost hshort hunread
    rw [hnumber] at hunread
    exact hears_sent hmembers hfloat hlost hshort hunread
  · intro line rest hlost hline hlong hunread
    rw [hnumber] at hunread
    exact call_of_long hlost hline hlong hunread
  constructor
  · rintro hiff ⟨hnil, reply, output, hears, hmistakable⟩
    obtain ⟨answer, hanswer, hanswers⟩ :=
      (hiff output).mp ((hcall output).mpr ⟨reply, hears, .inr ⟨hnil, hmistakable⟩⟩)
    have hid := hanswers.id
    rw [hanswer.unique hears, hmistakable.id] at hid
    cases hid
  · intro hnot output
    rw [hcall]
    constructor
    · rintro ⟨reply, hears, hanswers | ⟨hnil, hmistakable⟩⟩
      · exact ⟨reply, hears, hanswers⟩
      · exact absurd ⟨hnil, reply, output, hears, hmistakable⟩ hnot
    · rintro ⟨reply, hears, hanswers⟩
      exact ⟨reply, hears, .inl hanswers⟩

/-- A host that says its messages whatever it is sent. -/
def reciting (messages : List Json) : Program :=
  fun _ _ => { stdout := messages.flatMap Host.sent, standing := .waiting }

/-- The announcement of a build that takes standard documents. -/
def announced : Json.Members := [("ready", .bool true), ("entrypoints", .arr [.str "standard"])]

/-- A connection to a reciting host that has announced its build. -/
def recited (reply : Json) : Connection :=
  { process := { program := reciting [.obj announced, reply]
                 bytesRead := (Host.sent (.obj announced)).length } }

theorem open_reciting (artifact : String) (reply : Json) :
    «open» artifact { program := reciting [.obj announced, reply] } =
      (.ok .modern, recited reply) := by
  have hfloat : (Json.obj announced).floatFree := rfl
  have hread : Wire.ofLine (Host.sent (.obj announced)) = .ok (.obj announced) :=
    Wire.ofLine_sent (by simp [announced, Json.WellFormed, Json.WellFormedMembers,
      Json.WellFormedItems]) hfloat
  have hunread : ({ program := reciting [.obj announced, reply] } : Process).unread =
      Text.utf8 (Json.print Json.compactUnicode (.obj announced)) ++ 0x0A :: Host.sent reply := by
    change (reciting [.obj announced, reply] [] false).stdout.drop 0 = _
    simp [reciting, Wire.sent_eq hfloat]
  have hshort : (Text.utf8 (Json.print Json.compactUnicode (.obj announced))).length ≤
      Process.maxLine := by decide +kernel
  have hline := Process.readLine_of_unread hunread (Wire.newline_notMem_print hfloat) hshort
  have hlength : (Text.utf8 (Json.print Json.compactUnicode (.obj announced))).length + 1 =
      (Host.sent (.obj announced)).length := by
    rw [Wire.sent_eq hfloat, List.length_append, List.length_singleton]
  rw [← Wire.sent_eq hfloat, hlength, Nat.zero_add] at hline
  unfold «open» receive
  dsimp only
  rw [hline]
  dsimp only
  rw [hread]
  rfl

theorem unread_recited (reply : Json) (bytes : Text.Bytes) :
    ((recited reply).process.send bytes).unread = Host.sent reply ++ [] := by
  change (reciting [.obj announced, reply] ([] ++ bytes) false).stdout.drop
    (Host.sent (.obj announced)).length = _
  simp [reciting]

theorem calls_keep_protocol_recited :
    let reply : Json := .obj [("id", .int 1), ("ok", .bool true), ("output", .str "\u2028")]
    «open» "soljson.js" { program := reciting [.obj announced, reply] } =
        (.ok .modern, recited reply) ∧
      ([] : List Call).length < 10 ^ Json.maxDigits ∧
      (call ⟨"standard", "\n", true⟩ (recited reply)).1 = .ok "\u2028" := by
  intro reply
  have hopen := open_reciting "soljson.js" reply
  have hcount : ([] : List Call).length < 10 ^ Json.maxDigits := Nat.pow_pos (by decide)
  obtain ⟨-, hsaid, -, -, hiff⟩ := calls_keep_protocol hopen [] hcount ⟨"standard", "\n", true⟩
  have hone : (1 : Int).natAbs < 10 ^ Json.maxDigits := Nat.one_lt_pow (by decide) (by decide)
  have hshort : (Host.sent reply).length ≤ Process.maxLine + 1 := by decide +kernel
  have hears := hsaid _ [] (by simpa [Json.WellFormed, Json.WellFormedMembers] using hone) rfl
    rfl hshort (unread_recited reply _)
  refine ⟨hopen, hcount, (hiff.mpr ?_ "\u2028").mpr ⟨reply, hears, rfl, rfl, rfl⟩⟩
  rintro ⟨-, other, output, hother, hmistakable⟩
  have hid := hmistakable.id
  rw [hother.unique hears] at hid
  cases hid

/-- The first call takes `true` for its number. -/
theorem call_takes_true_for_number :
    let reply : Json := .obj [("id", .bool true), ("ok", .bool true), ("output", .str "x")]
    let request : Call := ⟨"standard", "\x7b\x7d", false⟩
    «open» "soljson.js" { program := reciting [.obj announced, reply] } =
        (.ok .modern, recited reply) ∧
      (call request (recited reply)).1 = .ok "x" ∧
      ¬ ∃ heard, Hears request (recited reply) heard ∧ Wire.Answers 1 heard "x" := by
  intro reply request
  have hears : Hears request (recited reply) reply :=
    hears_sent (by simp [Json.WellFormed, Json.WellFormedMembers]) rfl rfl (by decide +kernel)
      (unread_recited reply _)
  refine ⟨open_reciting "soljson.js" reply, call_eq_ok_iff.mpr ⟨reply, hears, rfl⟩, ?_⟩
  rintro ⟨heard, hheard, hanswers⟩
  have hid := hanswers.id
  rw [hheard.unique hears] at hid
  cases hid

end Connection

end SolcDispatch
