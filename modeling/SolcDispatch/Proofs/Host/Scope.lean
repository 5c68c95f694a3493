import Mathlib.Data.List.TakeWhile
import SolcDispatch.Proofs.Host.Calls

/-! The scope of a host process: it is opened, used and left. A host is stopped wherever the
scope is left, but for one that says it is ready and then names its entrypoints by a value that
can name none: entering fails, and the host goes on. -/

namespace SolcDispatch

namespace Capability

variable {names : List String} {capability : Capability}

def IsServed (advertised : String → Prop) (capability : Capability) : Prop :=
  ∃ name, capability.entrypoint? = some name ∧ advertised name

/-- The first convention whose entrypoint is advertised, or none of them if there is none. -/
def IsPreferred (advertised : String → Prop) (capability : Capability) : Prop :=
  ∃ before after, all = before ++ capability :: after ∧
    (capability.IsServed advertised ∨ capability = unsupported) ∧
    ∀ other ∈ before, ¬ other.IsServed advertised

theorem any_contains_iff :
    capability.entrypoint?.any names.contains = true ↔ capability.IsServed (· ∈ names) := by
  simp [IsServed, Option.any_eq_true]

theorem find?_all (names : List String) :
    all.find? (fun c => c.entrypoint?.any names.contains || c == unsupported) =
      some (ofEntrypoints names) := by
  have hfirst : preference.find? (fun c => c.entrypoint?.any names.contains || c == unsupported) =
      preference.find? fun c => c.entrypoint?.any names.contains := by
    have hne : ∀ c ∈ preference, (c == unsupported) = false := by decide
    rw [← List.head?_filter, ← List.head?_filter]
    exact congrArg List.head? (List.filter_congr fun c hc => by rw [hne c hc, Bool.or_false])
  rw [all, List.find?_append, hfirst, ofEntrypoints]
  cases preference.find? fun c => c.entrypoint?.any names.contains <;> rfl

theorem ofEntrypoints_eq_iff :
    ofEntrypoints names = capability ↔ IsPreferred (· ∈ names) capability := by
  have hserved (c : Capability) :
      (c.entrypoint?.any names.contains || c == unsupported) = true ↔
        c.IsServed (· ∈ names) ∨ c = unsupported := by
    rw [Bool.or_eq_true, any_contains_iff, beq_iff_eq]
  rw [← Option.some_inj, ← find?_all, List.find?_eq_some_iff_append]
  constructor
  · rintro ⟨hfound, before, after, hsplit, hbefore⟩
    refine ⟨before, after, hsplit, (hserved capability).mp hfound, fun other hother hserves => ?_⟩
    have hother := hbefore other hother
    rw [(hserved other).mpr (.inl hserves)] at hother
    cases hother
  · rintro ⟨before, after, hsplit, hfound, hbefore⟩
    refine ⟨(hserved capability).mpr hfound, before, after, hsplit, fun other hother => ?_⟩
    -- the last convention is the only one without an entrypoint
    have hstarts : before <+: preference := by
      have hall : before <+: all := hsplit ▸ List.prefix_append before _
      refine List.prefix_of_prefix_length_le hall (List.prefix_append preference [unsupported]) ?_
      have hlength := congrArg List.length hsplit
      simp only [all, List.length_append, List.length_cons, List.length_nil] at hlength
      omega
    have hne : ∀ c ∈ preference, c ≠ unsupported := by decide
    rw [Bool.not_eq_true', ← Bool.not_eq_true, hserved]
    rintro (hserves | hlast)
    · exact hbefore other hother hserves
    · exact hne other (List.IsPrefix.subset hstarts hother) hlast

end Capability

namespace Wire

/-- What counts as true and can name no entrypoints. -/
inductive NamesNone : Json → Prop
  | bool : NamesNone (.bool true)
  | int {n : Int} : n ≠ 0 → NamesNone (.int n)
  | float {x : Binary64} : x.isZero = false → NamesNone (.float x)
  | items {items : List Json} {item : Json} : item ∈ items → item.isArray ∨ item.isObject →
      NamesNone (.arr items)

/-- The names in a value: texts of a list, characters of a text, keys of an object. -/
inductive Names : Json → String → Prop
  | item {items : List Json} {name : String} : .str name ∈ items → Names (.arr items) name
  | character {text : String} {c : Char} : c ∈ text.toList →
      Names (.str text) (String.singleton c)
  | key {members : Json.Members} {name : String} : name ∈ members.map Prod.fst →
      Names (.obj members) name

def entrypointsOf (value : Json) : Json := if value.truthy then value else .arr []

theorem entrypointNames_cases (value : Json) :
    NamesNone value ∧ Capability.entrypointNames (entrypointsOf value) = .error .internal ∨
    ¬ NamesNone value ∧ ∃ names, Capability.entrypointNames (entrypointsOf value) = .ok names ∧
      ∀ name, name ∈ names ↔ Names value name := by
  unfold entrypointsOf
  cases value with
  | null =>
    refine .inr ⟨nofun, [], rfl, fun name => ?_⟩
    simp only [List.not_mem_nil, false_iff]
    nofun
  | bool b =>
    cases b with
    | true => exact .inl ⟨.bool, rfl⟩
    | false =>
      refine .inr ⟨nofun, [], rfl, fun name => ?_⟩
      simp only [List.not_mem_nil, false_iff]
      nofun
  | int n =>
    by_cases hn : n = 0
    · subst hn
      refine .inr ⟨fun h => ?_, [], rfl, fun name => ?_⟩
      · cases h with
        | int hne => exact hne rfl
      · simp only [List.not_mem_nil, false_iff]
        nofun
    · refine .inl ⟨.int hn, ?_⟩
      rw [if_pos (by simpa [Json.truthy] using hn)]
      rfl
  | float x =>
    cases hx : x.isZero with
    | true =>
      refine .inr ⟨fun h => ?_, [], ?_, fun name => ?_⟩
      · cases h with
        | float hne =>
          rw [hx] at hne
          cases hne
      · rw [if_neg (by simp [Json.truthy, hx])]
        rfl
      · simp only [List.not_mem_nil, false_iff]
        nofun
    | false =>
      refine .inl ⟨.float hx, ?_⟩
      rw [if_pos (by simp [Json.truthy, hx])]
      rfl
  | str text =>
    refine .inr ⟨nofun, text.toList.map String.singleton, ?_, fun name => ?_⟩
    · by_cases htext : text.toList = []
      · simp [Json.truthy, TextLike.codes, htext, Capability.entrypointNames]
      · simp [Json.truthy, TextLike.codes, htext, Capability.entrypointNames]
    · rw [List.mem_map]
      constructor
      · rintro ⟨c, hc, rfl⟩
        exact .character hc
      · rintro ⟨⟩
        rename_i c hc
        exact ⟨c, hc, rfl⟩
  | arr items =>
    have hvalue : (if (Json.arr items).truthy = true then Json.arr items else .arr []) =
        .arr items := by
      cases items <;> rfl
    rw [hvalue]
    by_cases hany : (items.any fun item => item.isArray || item.isObject) = true
    · obtain ⟨item, hitem, hnested⟩ := List.any_eq_true.mp hany
      refine .inl ⟨.items hitem (by simpa using hnested), ?_⟩
      rw [Capability.entrypointNames, if_pos hany]
    · refine .inr ⟨?_, _, by rw [Capability.entrypointNames, if_neg hany], fun name => ?_⟩
      · rintro (_ | _ | _ | ⟨hitem, hnested⟩)
        exact hany (List.any_eq_true.mpr ⟨_, hitem, by simpa using hnested⟩)
      · rw [List.mem_filterMap]
        constructor
        · rintro ⟨item, hitem, hname⟩
          cases item with
          | str text =>
            obtain rfl := Option.some.inj hname
            exact .item hitem
          | _ => cases hname
        · rintro ⟨⟩
          rename_i hitem
          exact ⟨_, hitem, rfl⟩
  | obj members =>
    have hvalue : Capability.entrypointNames
        (if (Json.obj members).truthy = true then Json.obj members else .arr []) =
        .ok (members.map Prod.fst) := by
      cases members <;> rfl
    refine .inr ⟨nofun, _, hvalue, fun name => ⟨.key, ?_⟩⟩
    rintro ⟨⟩
    assumption

theorem capabilityOf_cases (hello : Json) :
    NamesNone (hello.getD "entrypoints") ∧ capabilityOf hello = .error .internal ∨
    ¬ NamesNone (hello.getD "entrypoints") ∧ ∃ preferred, capabilityOf hello = .ok preferred ∧
      ∀ capability, preferred = capability ↔
        Capability.IsPreferred (Names (hello.getD "entrypoints")) capability := by
  have heq : capabilityOf hello = (Capability.entrypointNames
      (entrypointsOf (hello.getD "entrypoints"))).map Capability.ofEntrypoints := rfl
  obtain ⟨hnone, herror⟩ | ⟨hnames, names, hok, hmem⟩ :=
    entrypointNames_cases (hello.getD "entrypoints")
  · exact .inl ⟨hnone, by rw [heq, herror]; rfl⟩
  · have hsame : (fun name => name ∈ names) = Names (hello.getD "entrypoints") :=
      funext fun name => propext (hmem name)
    refine .inr ⟨hnames, .ofEntrypoints names, by rw [heq, hok]; rfl, fun capability => ?_⟩
    rw [← hsame, Capability.ofEntrypoints_eq_iff]

end Wire

namespace Process

/-- The line that a program says first: up to a line feed, or all that it says before it ends. -/
def FirstLine (program : Program) (line : Text.Bytes) : Prop :=
  (∃ text rest, line = text ++ [0x0A] ∧ 0x0A ∉ text ∧ text.length ≤ maxLine ∧
    (program [] false).stdout = line ++ rest) ∨
  0x0A ∉ line ∧ line ≠ [] ∧ line.length ≤ maxLine ∧ (program [] false).stdout = line ∧
    ∃ status, (program [] false).standing = .exited status

variable {program : Program} {surplus : Nat → Nat}

theorem readLine_of_notMem {p : Process} {said : Text.Bytes} (h : p.unread = said)
    (hsaid : 0x0A ∉ said) (hshort : said.length ≤ maxLine) : p.readLine =
      if p.hasExited then
        if said.isEmpty then (.ended, p)
        else (.line said, { p with bytesRead := p.bytesRead + said.length })
      else (.silence, p) := by
  have hall : said.takeWhile (· != 0x0A) = said := by
    simpa using takeWhile_append_of_notMem hsaid []
  simp only [readLine, h, hall, if_neg (Nat.not_lt.mpr hshort), Nat.lt_irrefl, if_false]

theorem hasExited_fresh : ({ program, surplus } : Process).hasExited = true ↔
    ∃ status, (program [] false).standing = .exited status := by
  have hexecution : ({ program, surplus } : Process).execution = program [] false := rfl
  unfold hasExited status?
  rw [if_neg (by simp), hexecution]
  cases (program [] false).standing <;> simp

theorem readLine_fresh_iff (surplus : Nat → Nat) {line : Text.Bytes} :
    ({ program, surplus } : Process).readLine.1 = .line line ↔ FirstLine program line := by
  have hunread : ({ program, surplus } : Process).unread = (program [] false).stdout := rfl
  constructor
  · intro h
    by_cases hfeed : 0x0A ∈ (program [] false).stdout
    · obtain ⟨text, rest, hsaid, htext⟩ := List.eq_append_cons_of_mem hfeed
      rcases Nat.lt_or_ge maxLine text.length with hlong | hshort
      · obtain ⟨whole, bytesRead, hread⟩ := readLine_of_long (hunread.trans hsaid) htext hlong
        rw [hread] at h
        cases h
      · rw [readLine_of_unread (hunread.trans hsaid) htext hshort] at h
        obtain rfl := Line.line.inj h
        refine .inl ⟨text, rest, rfl, htext, hshort, ?_⟩
        rw [hsaid, List.append_assoc, List.singleton_append]
    · rcases Nat.lt_or_ge maxLine (program [] false).stdout.length with hlong | hshort
      · obtain ⟨whole, bytesRead, hread⟩ :=
          readLine_of_long (hunread.trans (List.append_nil _).symm) hfeed hlong
        rw [hread] at h
        cases h
      · rw [readLine_of_notMem hunread hfeed hshort] at h
        by_cases hended : ({ program, surplus } : Process).hasExited = true
        · rw [if_pos hended] at h
          by_cases hempty : (program [] false).stdout.isEmpty = true
          · rw [if_pos hempty] at h
            cases h
          · rw [if_neg hempty] at h
            obtain rfl := Line.line.inj h
            exact .inr ⟨hfeed, by simpa using hempty, hshort, rfl, hasExited_fresh.mp hended⟩
        · rw [if_neg hended] at h
          cases h
  · rintro (⟨text, rest, rfl, htext, hshort, hsaid⟩ | ⟨hline, hne, hshort, hsaid, hended⟩)
    · rw [List.append_assoc, List.singleton_append] at hsaid
      rw [readLine_of_unread (hunread.trans hsaid) htext hshort]
    · rw [readLine_of_notMem (hunread.trans hsaid) hline hshort,
        if_pos (hasExited_fresh.mpr hended), if_neg (by simpa using hne)]

theorem hasExited_kill (p : Process) : p.kill.hasExited = true := by
  by_cases h : p.hasExited = true
  · rw [kill, if_pos h, h]
  · rw [kill, if_neg h]
    rfl

theorem inputClosed_kill (p : Process) : p.kill.inputClosed = p.inputClosed := by
  unfold kill
  split <;> rfl

theorem inputClosed_dismiss (p : Process) (force : Bool) :
    (p.dismiss force).inputClosed = true := by
  unfold dismiss
  split
  · rfl
  · split <;> rfl

theorem hasExited_dismiss_force (p : Process) : (p.dismiss true).hasExited = true := by
  by_cases hended : p.hasExited = true
  · rw [dismiss, if_pos hended]
    exact hended
  · rw [dismiss, if_neg hended, if_pos rfl, kill, if_neg hended]
    rfl

/-- However a process is stopped, no more input follows. -/
theorem inputClosed_terminate (p : Process) (force interrupted : Bool) :
    (p.terminate force interrupted).inputClosed = true := by
  cases interrupted with
  | true => exact p.inputClosed_dismiss force
  | false => exact (inputClosed_kill _).trans (p.inputClosed_dismiss force)

/-- A process that was to stop goes on only if it was not forced, does not end when its input
does, and whoever stops it is interrupted. -/
theorem hasExited_terminate_iff (p : Process) (force interrupted : Bool) :
    (p.terminate force interrupted).hasExited = true ↔
      ¬ (interrupted = true ∧ force = false ∧ (p.dismiss false).hasExited = false) := by
  cases interrupted with
  | false =>
    refine iff_of_true (hasExited_kill _) ?_
    rintro ⟨hinterrupted, -⟩
    cases hinterrupted
  | true =>
    change (p.dismiss force).hasExited = true ↔ _
    cases force with
    | true =>
      refine iff_of_true (hasExited_dismiss_force p) ?_
      rintro ⟨-, hforce, -⟩
      cases hforce
    | false => simp

end Process

namespace Connection

/-- The host's first message says that it is ready. -/
def Announces (program : Program) (hello : Json) : Prop :=
  ∃ line, Process.FirstLine program line ∧ Wire.ofLine line = .ok hello ∧
    (hello.getD "ready").truthy = true

theorem announces_unique {program : Program} {hello other : Json} (h : Announces program hello)
    (ho : Announces program other) : hello = other := by
  obtain ⟨line, hline, hread, -⟩ := h
  obtain ⟨second, hsecond, hagain, -⟩ := ho
  have hsame := ((Process.readLine_fresh_iff id).mpr hline).symm.trans
    ((Process.readLine_fresh_iff id).mpr hsecond)
  obtain rfl := Process.Line.line.inj hsame
  exact Except.ok.inj (hread.symm.trans hagain)

variable {artifact : String} {program : Program} {surplus : Nat → Nat} {interrupted : Bool}
  {hello : Json}

theorem receive_fresh_iff (surplus : Nat → Nat) :
    ({ process := { program, surplus } } : Connection).receive.1 = .ok hello ↔
      ∃ line, Process.FirstLine program line ∧ Wire.ofLine line = .ok hello := by
  simp only [← Process.readLine_fresh_iff surplus]
  unfold receive
  dsimp only
  rcases hread : ({ program, surplus } : Process).readLine with ⟨line | whole | _ | _, process⟩
  · cases hline : Wire.ofLine line String with
    | error failure =>
      simp [Except.mapError, hline]
    | ok message =>
      simp [Except.mapError, hline]
  · simp
  · simp
  · simp

/-- What entering comes to: a host that announces itself goes on, any other is stopped. -/
theorem open_cases (artifact : String) (program : Program) (surplus : Nat → Nat)
    (interrupted : Bool) :
    (¬ ∃ hello, Announces program hello) ∧ (∃ stop, ∃ c : Connection,
        «open» artifact { program, surplus } interrupted =
          (.error stop, c.terminate true interrupted)) ∨
    ∃ hello, ∃ c : Connection, Announces program hello ∧ c.process.inputClosed = false ∧
      «open» artifact { program, surplus } interrupted =
        ((Wire.capabilityOf hello).mapError .failed, c) := by
  obtain ⟨bytesRead, lost, hframe⟩ := receive_frame String { process := { program, surplus } }
  unfold «open»
  dsimp only
  rcases hreceive : ({ process := { program, surplus } } : Connection).receive with
    ⟨stop | hello, c⟩
  · refine .inl ⟨?_, stop, c, rfl⟩
    rintro ⟨hello, line, hline, hread, -⟩
    have hok := (receive_fresh_iff surplus).mpr ⟨line, hline, hread⟩
    rw [hreceive] at hok
    cases hok
  · have hfirst := (receive_fresh_iff surplus).mp (congrArg Prod.fst hreceive)
    obtain ⟨line, hline, hread⟩ := hfirst
    dsimp only
    by_cases hready : Wire.isReady hello = true
    · rw [hreceive] at hframe
      dsimp only at hframe
      rw [if_pos hready]
      exact .inr ⟨hello, c, ⟨line, hline, hread, hready⟩, by rw [hframe], rfl⟩
    · rw [if_neg hready]
      refine .inl ⟨?_, _, c, rfl⟩
      rintro ⟨other, second, hsecond, hagain, hsays⟩
      have hok := (receive_fresh_iff surplus).mpr ⟨second, hsecond, hagain⟩
      rw [hreceive] at hok
      obtain rfl := Except.ok.inj hok
      exact hready hsays

/-- The host's first message says that it is ready and names entrypoints by a value that can
name none. -/
def Misannounces (program : Program) : Prop :=
  ∃ hello, Announces program hello ∧ Wire.NamesNone (hello.getD "entrypoints")

theorem open_eq_ok_iff {capability : Capability} :
    («open» artifact { program, surplus } interrupted).1 = .ok capability ↔
      ∃ hello, Announces program hello ∧ ¬ Wire.NamesNone (hello.getD "entrypoints") ∧
        capability.IsPreferred (Wire.Names (hello.getD "entrypoints")) := by
  rcases open_cases artifact program surplus interrupted with
    ⟨hnone, stop, c, hopen⟩ | ⟨hello, c, hannounces, -, hopen⟩
  · rw [hopen]
    refine iff_of_false nofun ?_
    rintro ⟨hello, hannounces, -⟩
    exact hnone ⟨hello, hannounces⟩
  · rw [hopen]
    obtain ⟨hnames, herror⟩ | ⟨hnames, preferred, hok, hpreferred⟩ := Wire.capabilityOf_cases hello
    · rw [herror]
      refine iff_of_false nofun ?_
      rintro ⟨other, hother, hothers, -⟩
      exact hothers (announces_unique hannounces hother ▸ hnames)
    · rw [hok]
      constructor
      · intro h
        exact ⟨hello, hannounces, hnames, (hpreferred capability).mp (Except.ok.inj h)⟩
      · rintro ⟨other, hother, -, hothers⟩
        rw [← announces_unique hannounces hother, ← hpreferred] at hothers
        exact congrArg Except.ok hothers

/-- A scope: what is done inside is done to the open connection, and it is terminated at the end,
by force after an exception. Where entering fails, the connection is left as it is. Either end may
be interrupted. -/
def within {ε α : Type} (artifact : String) (process : Process)
    (inside : Capability → Connection → Except ε α × Connection) (interrupted : Bool) :
    Connection :=
  match «open» artifact process interrupted with
  | (.error _, c) => c
  | (.ok capability, c) =>
    match inside capability c with
    | (.ok _, c) => c.terminate false interrupted
    | (.error _, c) => c.terminate true interrupted

variable {ε α : Type} {inside : Capability → Connection → Except ε α × Connection}

/-- A connection whose host has been told to stop and has exited. -/
def IsOver (c : Connection) : Prop := c.process.inputClosed = true ∧ c.process.hasExited = true

theorem isOver_terminate_iff (c : Connection) (force interrupted : Bool) :
    (c.terminate force interrupted).IsOver ↔
      ¬ (interrupted = true ∧ force = false ∧ (c.process.dismiss false).hasExited = false) :=
  (and_iff_right (c.process.inputClosed_terminate force interrupted)).trans
    (c.process.hasExited_terminate_iff force interrupted)

theorem isOver_terminate_force (c : Connection) (interrupted : Bool) :
    (c.terminate true interrupted).IsOver := by
  rw [isOver_terminate_iff]
  rintro ⟨-, hforce, -⟩
  cases hforce

/-- The scope is left without an exception, and its host does not end when its input does. -/
def Lingers (artifact : String) (process : Process)
    (inside : Capability → Connection → Except ε α × Connection) : Prop :=
  ∃ capability c result after, «open» artifact process = (.ok capability, c) ∧
    inside capability c = (.ok result, after) ∧ (after.process.dismiss false).hasExited = false

/-- An interruption matters to the opening of a host only in how it is stopped. -/
theorem open_eq_ok_of_interrupted (interrupted : Bool) {process : Process}
    {capability : Capability} {c : Connection} :
    «open» artifact process interrupted = (.ok capability, c) ↔
      «open» artifact process = (.ok capability, c) := by
  unfold «open»
  dsimp only
  rcases ({ process } : Connection).receive with ⟨stop | hello, received⟩
  · exact iff_of_false nofun nofun
  · dsimp only
    split
    · exact Iff.rfl
    · exact iff_of_false nofun nofun

theorem isOver_within_of_open {process : Process} {capability : Capability} {c : Connection}
    (h : «open» artifact process = (.ok capability, c)) :
    (within artifact process inside interrupted).IsOver ↔
      ¬ (interrupted = true ∧ Lingers artifact process inside) := by
  have hlingers : Lingers artifact process inside ↔ ∃ result after,
      inside capability c = (.ok result, after) ∧
        (after.process.dismiss false).hasExited = false := by
    constructor
    · rintro ⟨_, _, result, after, hopen, hinside⟩
      rw [h] at hopen
      cases hopen
      exact ⟨result, after, hinside⟩
    · rintro ⟨result, after, hinside⟩
      exact ⟨capability, c, result, after, h, hinside⟩
  rw [hlingers, within, (open_eq_ok_of_interrupted interrupted).mpr h]
  dsimp only
  rcases inside capability c with ⟨stop | result, after⟩
  · refine iff_of_true (isOver_terminate_force after interrupted) ?_
    rintro ⟨-, _, _, hinside, -⟩
    cases hinside
  · dsimp only
    rw [isOver_terminate_iff]
    refine not_congr (and_congr_right fun _ => ⟨?_, ?_⟩)
    · rintro ⟨-, hgoes⟩
      exact ⟨result, after, rfl, hgoes⟩
    · rintro ⟨_, _, hinside, hgoes⟩
      cases hinside
      exact ⟨rfl, hgoes⟩

/-- A host that goes on waiting after it has announced a number of entrypoints. -/
def countingHost : Program := reciting [.obj [("ready", .bool true), ("entrypoints", .int 5)]]

/-- A host that is announced as it should be, and goes on waiting after the end of its input. -/
def waitingHost : Program := reciting [.obj announced]

end Connection

end SolcDispatch
