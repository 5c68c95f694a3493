import SolcDispatch.Proofs.Assoc
import SolcDispatch.Proofs.Host.Lines

/-! The answers of a host. A line that does not trip the host gets one reply, which carries the
id of the request and tells of success only where an announced entrypoint has returned; the host
answers every line of its input exactly when none of them trips it. -/

namespace SolcDispatch

open Script (Value)

/-- Values that have no text: objects with a member in the place of what makes their text, and
arrays with such an item. -/
inductive Script.Value.Textless : Value → Prop
  | object {members : List (Wide × Value)} (h : Assoc.hasKey members "toString") :
      Textless (.object members)
  | array {items : List Value} {item : Value} (hmem : item ∈ items) (h : Textless item) :
      Textless (.array items)

theorem Script.Value.plainText?_eq_none_iff {value : Value} :
    value.plainText? = none ↔ value.Textless := by
  induction value using Value.plainText?.induct (motive_2 := fun items =>
    Value.plainTexts? items = none ↔ ∃ item ∈ items, item.Textless) with
  | case1 members hkey =>
    rw [Value.plainText?, if_pos hkey]
    exact ⟨fun _ => .object hkey, fun _ => rfl⟩
  | case2 members hkey =>
    rw [Value.plainText?, if_neg hkey]
    constructor
    · intro h
      cases h
    · rintro ⟨h⟩
      exact absurd h hkey
  | case3 items ih =>
    rw [Value.plainText?, Option.map_eq_none_iff, ih]
    constructor
    · rintro ⟨item, hmem, h⟩
      exact .array hmem h
    · intro h
      cases h with
      | array hmem h => exact ⟨_, hmem, h⟩
  | case4 value hobject harray =>
    rw [Value.plainText?.eq_3 _ hobject harray]
    constructor
    · intro h
      cases h
    · intro h
      cases h with
      | object h => exact (hobject _ rfl).elim
      | array hmem h => exact (harray _ rfl).elim
  | case5 => simp [Value.plainTexts?]
  | case6 rest ih =>
    have hno : ¬ Value.undefined.Textless := nofun
    rw [Value.plainTexts?, Option.map_eq_none_iff, ih, List.exists_mem_cons_iff, or_iff_right hno]
  | case7 rest ih =>
    have hno : ¬ Value.null.Textless := nofun
    rw [Value.plainTexts?, Option.map_eq_none_iff, ih, List.exists_mem_cons_iff, or_iff_right hno]
  | case8 item rest hundefined hnull ih ihRest =>
    rw [Value.plainTexts?.eq_4 _ _ hundefined hnull, List.exists_mem_cons_iff, ← ih, ← ihRest]
    cases item.plainText? with
    | none => simp
    | some text => cases Value.plainTexts? rest <;> simp

namespace Host

section Messages

theorem get?_message {members : List (Wide × Value)} (h : (members.map Prod.fst).Nodup)
    (name : Wide) :
    (message members).get? name = (Assoc.get? members name).bind Value.toJson? := by
  rw [message, Json.get?]
  induction members with
  | nil => rfl
  | cons first rest ih =>
    obtain ⟨key, value⟩ := first
    obtain ⟨hnew, hrest⟩ := List.nodup_cons.mp h
    have ih := ih hrest
    rw [List.filterMap_cons]
    dsimp only
    by_cases hkey : key = name
    · subst hkey
      rw [Assoc.get?_cons_self, Option.bind_some]
      cases value.toJson? with
      | some json => exact Assoc.get?_cons_self
      | none =>
        -- The member is left out, and no later one has its name.
        rw [Assoc.get?_of_notMem hnew] at ih
        exact ih
    · rw [Assoc.get?_cons_ne (Ne.symm hkey), ← ih]
      cases value.toJson? with
      | some json => exact Assoc.get?_cons_ne (Ne.symm hkey)
      | none => rfl

variable {id output : Value} {error : Wide}

theorem get?_success (name : Wide) : (success id output).get? name =
    (Assoc.get? (κ := Wide) [("id", id), ("ok", .bool true), ("output", output)] name).bind
      Value.toJson? := by
  refine get?_message ?_ name
  change (["id", "ok", "output"] : List Wide).Nodup
  decide

theorem get?_refusal (name : Wide) : (refusal id error).get? name =
    (Assoc.get? (κ := Wide) [("id", id), ("ok", .bool false), ("error", .text error)] name).bind
      Value.toJson? := by
  refine get?_message ?_ name
  change (["id", "ok", "error"] : List Wide).Nodup
  decide

end Messages

variable {σ : Type}

/-- What a reply to a line has to carry as its id. -/
def idOf (line : String) : Option (Json Wide) :=
  match Script.readJson? line with
  | none => some .null
  | some request => (memberOf request "id").toJson?

inductive Returns (build : Build σ) (line : String) (s : σ) (output : Value) : Prop
  | intro {request : Value} {name : Wide} {after : σ}
      (hread : Script.readJson? line = some request) (hcommand : memberOf request "cmd" = .text name)
      (hannounced : name ∈ build.entrypoints)
      (hcall : build.call name (memberOf request "input") (memberOf request "optimize") s =
        (.ok output, after))

/-- A reply that carries the id of a line's request, and tells of success where an announced
entrypoint has returned and nowhere else. -/
structure IsOwed (build : Build σ) (line : String) (s : σ) (reply : Json Wide) : Prop where
  id : reply.get? "id" = idOf line
  ok : (∃ output, Returns build line s output ∧ reply.get? "ok" = some (.bool true) ∧
      reply.get? "output" = output.toJson?) ∨
    (∀ output, ¬ Returns build line s output) ∧ reply.get? "ok" = some (.bool false)

/-- Names under which every object has a function that returns something. -/
def Inherits (name : Wide) (input : Value) : Prop :=
  name = "constructor" ∨ name = "toString" ∨ name = "isPrototypeOf" ∧ Script.isPrimitive input

/-- The lines that trip a host: the host breaks down over them, or answers them with something
that is no entrypoint. -/
inductive Trips (build : Build σ) (line : String) (s : σ) : Prop
  | null (hread : Script.readJson? line = some .null)
  | textless {request : Value} (hread : Script.readJson? line = some request)
      (hcommand : (memberOf request "cmd").Textless)
  | inherits {request : Value} {name : Wide} (hread : Script.readJson? line = some request)
      (hcommand : (memberOf request "cmd").plainText? = some name)
      (hnew : name ∉ build.entrypoints) (h : Inherits name (memberOf request "input"))
  | coerced {request output : Value} {name : Wide} {after : σ}
      (hread : Script.readJson? line = some request)
      (hcommand : (memberOf request "cmd").plainText? = some name)
      (hannounced : name ∈ build.entrypoints) (hother : memberOf request "cmd" ≠ .text name)
      (hcall : build.call name (memberOf request "input") (memberOf request "optimize") s =
        (.ok output, after))
  | untold {request thrown again : Value} {name : Wide} {after last : σ}
      (hread : Script.readJson? line = some request)
      (hcommand : (memberOf request "cmd").plainText? = some name)
      (hannounced : name ∈ build.entrypoints)
      (hcall : build.call name (memberOf request "input") (memberOf request "optimize") s =
        (.error thrown, after))
      (hcomplaint : build.complaint thrown after = (.error again, last))

variable {build : Build σ} {line : String} {s after : σ} {request : Value} {name : Wide}

theorem inherits_iff {input : Value} :
    Inherits name input ↔ ∃ output, inherited? name input = some (.ok output) := by
  constructor
  · rintro (rfl | rfl | ⟨rfl, hprimitive⟩)
    · exact ⟨_, rfl⟩
    · exact ⟨_, rfl⟩
    · exact ⟨_, if_pos hprimitive⟩
  · rintro ⟨output, h⟩
    unfold inherited? at h
    split at h
    · rename_i hname
      exact .inl hname
    · split at h
      · rename_i hname
        exact .inr (.inl hname)
      · split at h
        · rename_i hboth
          rw [Bool.and_eq_true, decide_eq_true_eq] at hboth
          exact .inr (.inr hboth)
        · obtain ⟨text, -, htext⟩ := Option.map_eq_some_iff.mp h
          cases htext

theorem answer_of_read (h : Script.readJson? line = some request) (hnull : request ≠ .null) :
    answer build line s = reply build request s := by
  unfold answer
  rw [h]
  split
  · rename_i heq
    cases heq
  · rename_i heq
    exact (hnull (Option.some.inj heq)).elim
  · rename_i heq
    rw [Option.some.inj heq]

theorem reply_of_answer {message : Json Wide} (hread : Script.readJson? line = some request)
    (h : answer build line s = (.ok message, after)) :
    reply build request s = (.ok message, after) := by
  by_cases hnull : request = .null
  · subst hnull
    rw [answer, hread] at h
    cases h
  · rwa [answer_of_read hread hnull] at h

theorem reply_of_announced (hcommand : (memberOf request "cmd").plainText? = some name)
    (hannounced : name ∈ build.entrypoints) :
    reply build request s =
      outcome build (memberOf request "id")
        (build.call name (memberOf request "input") (memberOf request "optimize") s).1
        (build.call name (memberOf request "input") (memberOf request "optimize") s).2 := by
  simp only [reply, hcommand, List.contains_iff_mem.mpr hannounced, if_true]

theorem reply_of_new (hcommand : (memberOf request "cmd").plainText? = some name)
    (hnew : name ∉ build.entrypoints) :
    reply build request s =
      (.ok (unannounced (memberOf request "id") name (memberOf request "input")), s) := by
  have hcontains : build.entrypoints.contains name = false := by simpa using hnew
  simp only [reply, hcommand, hcontains, Bool.false_eq_true, if_false]

theorem Returns.call {output : Value} (h : Returns build line s output)
    (hread : Script.readJson? line = some request)
    (hcommand : (memberOf request "cmd").plainText? = some name) :
    memberOf request "cmd" = .text name ∧ name ∈ build.entrypoints ∧
      ∃ after, build.call name (memberOf request "input") (memberOf request "optimize") s =
        (.ok output, after) := by
  obtain ⟨hagain, htext, hannounced, hcall⟩ := h
  obtain rfl := Option.some.inj (hread.symm.trans hagain)
  rw [htext] at hcommand
  obtain rfl := Option.some.inj hcommand
  exact ⟨htext, hannounced, _, hcall⟩

theorem isOwed_refusal {error : Wide} (hread : Script.readJson? line = some request)
    (h : ∀ output, ¬ Returns build line s output) :
    IsOwed build line s (refusal (memberOf request "id") error) where
  id := by rw [idOf, hread, get?_refusal]; rfl
  ok := .inr ⟨h, get?_refusal "ok"⟩

theorem exists_isOwed_of_announced (hread : Script.readJson? line = some request)
    (hcommand : (memberOf request "cmd").plainText? = some name)
    (hannounced : name ∈ build.entrypoints) (h : ¬ Trips build line s) :
    ∃ message after, reply build request s = (.ok message, after) ∧
      IsOwed build line s message := by
  rw [reply_of_announced hcommand hannounced]
  cases hcall : build.call name (memberOf request "input") (memberOf request "optimize") s with
  | mk result after =>
    cases result with
    | ok output =>
      have hname : memberOf request "cmd" = .text name := by
        by_contra hother
        exact h (.coerced hread hcommand hannounced hother hcall)
      refine ⟨_, after, rfl, ?_, .inl ⟨output, ⟨hread, hname, hannounced, hcall⟩, ?_, ?_⟩⟩
      · rw [idOf, hread, get?_success]
        rfl
      · exact get?_success "ok"
      · exact get?_success "output"
    | error thrown =>
      have hno (output : Value) : ¬ Returns build line s output := by
        intro hreturns
        obtain ⟨-, -, last, hagain⟩ := hreturns.call hread hcommand
        rw [hcall] at hagain
        cases hagain
      rw [outcome]
      cases hcomplaint : build.complaint thrown after with
      | mk told last =>
        cases told with
        | ok text => exact ⟨_, last, rfl, isOwed_refusal hread hno⟩
        | error again => exact (h (.untold hread hcommand hannounced hcall hcomplaint)).elim

theorem isOwed_unannounced (hread : Script.readJson? line = some request)
    (hcommand : (memberOf request "cmd").plainText? = some name)
    (hnew : name ∉ build.entrypoints) (h : ¬ Inherits name (memberOf request "input")) :
    IsOwed build line s (unannounced (memberOf request "id") name (memberOf request "input")) := by
  have hno (output : Value) : ¬ Returns build line s output :=
    fun hreturns => hnew (hreturns.call hread hcommand).2.1
  unfold unannounced
  split
  · rename_i output hinherited
    exact (h (inherits_iff.mpr ⟨output, hinherited⟩)).elim
  · exact isOwed_refusal hread hno
  · exact isOwed_refusal hread hno

theorem exists_isOwed (h : ¬ Trips build line s) :
    ∃ message after, answer build line s = (.ok message, after) ∧
      IsOwed build line s message := by
  cases hread : Script.readJson? line with
  | none =>
    have hno (output : Value) : ¬ Returns build line s output := by
      rintro ⟨hagain, -, -, -⟩
      rw [hread] at hagain
      cases hagain
    refine ⟨malformed, s, by rw [answer, hread], ?_, .inr ⟨hno, get?_refusal "ok"⟩⟩
    rw [idOf, hread, malformed, get?_refusal]
    rfl
  | some request =>
    have hnull : request ≠ .null := by
      rintro rfl
      exact h (.null hread)
    rw [answer_of_read hread hnull]
    cases hcommand : (memberOf request "cmd").plainText? with
    | none => exact (h (.textless hread (Value.plainText?_eq_none_iff.mp hcommand))).elim
    | some name =>
      by_cases hannounced : name ∈ build.entrypoints
      · exact exists_isOwed_of_announced hread hcommand hannounced h
      · have hinherits : ¬ Inherits name (memberOf request "input") :=
          fun hinherits => h (.inherits hread hcommand hannounced hinherits)
        rw [reply_of_new hcommand hannounced]
        exact ⟨_, s, rfl, isOwed_unannounced hread hcommand hannounced hinherits⟩

theorem IsOwed.announced {id output : Value} (h : IsOwed build line s (success id output))
    (hread : Script.readJson? line = some request)
    (hcommand : (memberOf request "cmd").plainText? = some name) :
    memberOf request "cmd" = .text name ∧ name ∈ build.entrypoints := by
  rcases h.ok with ⟨returned, hreturns, -⟩ | ⟨-, hfalse⟩
  · obtain ⟨htext, hannounced, -⟩ := hreturns.call hread hcommand
    exact ⟨htext, hannounced⟩
  · rw [get?_success] at hfalse
    cases hfalse

theorem Trips.not_isOwed (h : Trips build line s) {message : Json Wide}
    (hanswer : answer build line s = (.ok message, after)) : ¬ IsOwed build line s message := by
  intro howed
  cases h with
  | null hread =>
    rw [answer, hread] at hanswer
    cases hanswer
  | textless hread hcommand =>
    have hreply := reply_of_answer hread hanswer
    rw [reply, Value.plainText?_eq_none_iff.mpr hcommand] at hreply
    cases hreply
  | inherits hread hcommand hnew hinherits =>
    obtain ⟨output, hinherited⟩ := inherits_iff.mp hinherits
    have hreply := reply_of_answer hread hanswer
    rw [reply_of_new hcommand hnew, unannounced, hinherited] at hreply
    obtain ⟨rfl⟩ := hreply
    exact hnew (howed.announced hread hcommand).2
  | coerced hread hcommand hannounced hother hcall =>
    have hreply := reply_of_answer hread hanswer
    rw [reply_of_announced hcommand hannounced, hcall] at hreply
    obtain ⟨rfl⟩ := hreply
    exact hother (howed.announced hread hcommand).1
  | untold hread hcommand hannounced hcall hcomplaint =>
    have hreply := reply_of_answer hread hanswer
    rw [reply_of_announced hcommand hannounced, hcall, outcome, hcomplaint] at hreply
    cases hreply

/-- A run of answers, each one owed to its line. -/
inductive Served (build : Build σ) : σ → List String → List (Json Wide) → σ → Prop
  | done (s : σ) : Served build s [] [] s
  | next {s after last : σ} {line : String} {rest : List String} {message : Json Wide}
      {messages : List (Json Wide)} (hanswer : answer build line s = (.ok message, after))
      (howed : IsOwed build line s message) (hrest : Served build after rest messages last) :
      Served build s (line :: rest) (message :: messages) last

/-- Lines of which one trips the host, in the state that the lines before it leave. -/
inductive Tripped (build : Build σ) : σ → List String → Prop
  | here {s : σ} {line : String} (h : Trips build line s) (rest : List String) :
      Tripped build s (line :: rest)
  | later {s after : σ} {line : String} {rest : List String} {message : Json Wide}
      (hanswer : answer build line s = (.ok message, after)) (h : Tripped build after rest) :
      Tripped build s (line :: rest)

theorem exists_served_iff {lines : List String} {s : σ} :
    (∃ messages last, Served build s lines messages last) ↔ ¬ Tripped build s lines := by
  induction lines generalizing s with
  | nil => exact ⟨fun _ => nofun, fun _ => ⟨[], s, .done s⟩⟩
  | cons line rest ih =>
    constructor
    · rintro ⟨messages, last, hserved⟩ htripped
      cases hserved with
      | next hanswer howed hrest =>
        cases htripped with
        | here h => exact h.not_isOwed hanswer howed
        | later hagain h =>
          -- A line is answered in one way, so both go on from the same state.
          obtain ⟨-, rfl⟩ := Prod.mk.inj (hanswer.symm.trans hagain)
          exact ih.mp ⟨_, _, hrest⟩ h
    · intro h
      obtain ⟨message, after, hanswer, howed⟩ := exists_isOwed fun htrips => h (.here htrips rest)
      obtain ⟨messages, last, hrest⟩ := ih.mpr fun htripped => h (.later hanswer htripped)
      exact ⟨message :: messages, last, .next hanswer howed hrest⟩

/-- A line that is not JSON, or a request whose command is a text: an announced entrypoint, or a
name under which objects return nothing. -/
def IsPlain (build : Build σ) (line : String) : Prop :=
  ∀ request, Script.readJson? line = some request → ∃ name,
    memberOf request "cmd" = .text name ∧
      (name ∈ build.entrypoints ∨ ¬ Inherits name (memberOf request "input"))

theorem IsPlain.not_trips (h : IsPlain build line)
    (htold : ∀ thrown s, ∃ text after, build.complaint thrown s = (.ok text, after)) :
    ¬ Trips build line s := by
  intro htrips
  cases htrips with
  | null hread =>
    obtain ⟨name, hname, -⟩ := h .null hread
    cases hname
  | textless hread hcommand =>
    obtain ⟨name, hname, -⟩ := h _ hread
    rw [hname] at hcommand
    cases hcommand
  | inherits hread hcommand hnew hinherits =>
    obtain ⟨name, hname, hplain⟩ := h _ hread
    rw [hname] at hcommand
    obtain rfl := Option.some.inj hcommand
    exact hplain.elim hnew fun hnot => hnot hinherits
  | coerced hread hcommand hannounced hother hcall =>
    obtain ⟨name, hname, -⟩ := h _ hread
    rw [hname] at hcommand
    obtain rfl := Option.some.inj hcommand
    exact hother hname
  | untold hread hcommand hannounced hcall hcomplaint =>
    obtain ⟨text, after, htext⟩ := htold _ _
    rw [htext] at hcomplaint
    cases hcomplaint

/-- Plain lines are all answered, whatever the entrypoints do, if something can be told of
all that they throw. -/
theorem not_tripped_of_isPlain {lines : List String} (h : ∀ line ∈ lines, IsPlain build line)
    (htold : ∀ thrown s, ∃ text after, build.complaint thrown s = (.ok text, after)) :
    ¬ Tripped build s lines := by
  intro htripped
  induction htripped with
  | here htrips rest => exact (h _ List.mem_cons_self).not_trips htold htrips
  | later hanswer htripped ih => exact ih fun line hmem => h line (List.mem_cons_of_mem _ hmem)

theorem Served.answers_eq {lines : List String} {messages : List (Json Wide)} {last : σ}
    (h : Served build s lines messages last) : answers build lines s = ⟨messages, last, none⟩ := by
  induction h with
  | done s => rfl
  | next hanswer howed hrest ih => simp only [answers, hanswer, ih]

theorem Served.length_eq {lines : List String} {messages : List (Json Wide)} {last : σ}
    (h : Served build s lines messages last) : messages.length = lines.length := by
  induction h with
  | done s => rfl
  | next hanswer howed hrest ih => rw [List.length_cons, List.length_cons, ih]

def textOf (m : Json Wide) : Text.Bytes := Text.utf8 (Json.print Json.script m)

theorem splitOn_sent (messages : List (Json Wide)) :
    (messages.flatMap sent).splitOn 0x0A = messages.map textOf ++ [[]] := by
  induction messages with
  | nil => rfl
  | cons m rest ih =>
    have hline : ∀ byte ∈ textOf m, (byte == 0x0A) = false := by
      intro byte hbyte
      rw [beq_eq_false_iff_ne]
      rintro rfl
      exact Json.newline_notMem_print Json.isShown_script (.inr Json.showsFloats_script) hbyte
    have hcut := List.splitOnP_append_cons_of_forall_mem hline 0x0A rfl (rest.flatMap sent)
    rw [List.flatMap_cons, sent, List.append_assoc, List.singleton_append, List.map_cons,
      List.cons_append, ← ih]
    exact hcut

/-- What a host has done that has answered every line of its input: after its first message it
has sent as many lines as it got, and it ends when its input does. -/
structure AnswersAll (build : Build σ) (lines : List String) (ended : Bool) (s : σ)
    (done : Execution) (messages : List (Json Wide)) (last : σ) : Prop where
  served : Served build s lines messages last
  count : messages.length = lines.length
  sent : done.stdout.splitOn 0x0A = textOf (hello build.entrypoints) :: messages.map textOf ++ [[]]
  standing : done.standing = if ended then .exited 0 else .waiting

/-- A build whose one entrypoint returns its input. -/
def echoing : String :=
  "module.exports = \x7b_compileJSON: function()\x7b\x7d, cwrap: function(n)\x7b return " ++
    "function(i,o)\x7b return i; \x7d; \x7d\x7d;"

end Host

end SolcDispatch
