import SolcDispatch.Proofs.Legacy.Locations

/-! The kind and the severity of diagnostics with a location. They are the ones that the
message names as long as no colon follows on its first line. -/

namespace SolcDispatch.Legacy

/-- A diagnostic with a location, in its parts. Its kind may be empty. -/
structure LocatedMessage where
  path : String
  line : String
  column : String
  kind : String
  text : String
  colon_notMem_path : ':' ∉ path.toList
  feed_notMem_path : '\n' ∉ path.toList
  isNumber_line : IsNumber line.toList
  isNumber_column : IsNumber column.toList
  colon_notMem_kind : ':' ∉ kind.toList
  feed_notMem_kind : '\n' ∉ kind.toList
  kind_head : ∀ c ∈ kind.toList.head?, Text.isBlank c = false
  kind_last : ∀ c ∈ kind.toList.getLast?, Text.isBlank c = false

def LocatedMessage.message (m : LocatedMessage) : String :=
  m.path ++ ":" ++ m.line ++ ":" ++ m.column ++ ": " ++ m.kind ++ ": " ++ m.text

def firstLine (text : String) : List Char := text.toList.takeWhile (· != '\n')

def entryOf (message : String) : Json := (Diagnostic.ofMessage message).toJson

theorem Diagnostic.severity_eq_warning_iff (d : Diagnostic) :
    d.severity = "warning" ↔ d.kind = "Warning" := by
  by_cases h : d.kind = "Warning" <;> simp [Diagnostic.severity, h]

theorem IsNumber.feed_notMem {digits : List Char} (h : IsNumber digits) : '\n' ∉ digits :=
  fun hc => absurd (h.isDecimalDigit _ hc) (by decide)

theorem takeWhile_feed_append {cs : List Char} (h : '\n' ∉ cs) (rest : List Char) :
    (cs ++ rest).takeWhile (· != '\n') = cs ++ rest.takeWhile (· != '\n') := by
  apply List.takeWhile_append_of_pos
  intro c hc
  have hne : c ≠ '\n' := fun heq => h (heq ▸ hc)
  simp [hne]

theorem mem_dropWhile_of_not {p : Char → Bool} {c : Char} {cs : List Char} (h : c ∈ cs)
    (hc : p c = false) : c ∈ cs.dropWhile p := by
  rw [← List.takeWhile_append_dropWhile (p := p) (l := cs)] at h
  obtain htake | hdrop := List.mem_append.mp h
  · have := List.mem_takeWhile_imp htake
    simp [hc] at this
  · exact hdrop

theorem mem_trim {c : Char} {cs : List Char} (h : c ∈ cs) (hc : Text.isBlank c = false) :
    c ∈ Text.trim cs := by
  have hfront := mem_dropWhile_of_not h hc
  rw [Text.trim, Text.dropLastWhile, List.mem_reverse]
  exact mem_dropWhile_of_not (List.mem_reverse.mpr hfront) hc

theorem afterNumber?_space (cs : List Char) : afterNumber? (' ' :: cs) = none := by
  cases h : afterNumber? (' ' :: cs) with
  | none => rfl
  | some rest =>
    obtain ⟨digits, hdigits, hsplit⟩ := afterNumber?_eq_some_iff.mp h
    cases digits with
    | nil => exact absurd rfl hdigits.ne_nil
    | cons d digits =>
      obtain ⟨rfl, -⟩ := List.cons.inj hsplit
      exact absurd hdigits (not_isNumber_space digits)

theorem kindAfterPath?_space (cs : List Char) : kindAfterPath? (' ' :: cs) = none := by
  rw [kindAfterPath?, afterNumber?_space]
  rfl

namespace LocatedMessage

variable (m : LocatedMessage)

/-- All of the message up to its text. -/
def header : List Char :=
  m.path.toList ++ ':' :: (m.line.toList ++ ':' :: (m.column.toList ++ ':' ::
    (' ' :: m.kind.toList ++ [':', ' '])))

theorem toList_message : m.message.toList = m.header ++ m.text.toList := by
  simp [message, header, String.toList_append]

theorem feed_notMem_header : '\n' ∉ m.header := by
  simp [header, m.feed_notMem_path, m.isNumber_line.feed_notMem, m.isNumber_column.feed_notMem,
    m.feed_notMem_kind]

theorem firstLine_message : firstLine m.message = m.header ++ firstLine m.text := by
  rw [firstLine, toList_message, takeWhile_feed_append m.feed_notMem_header]
  rfl

def kindAndText (after : List Char) : List Char := ' ' :: m.kind.toList ++ ':' :: ' ' :: after

theorem kindAfterPath?_header (after : List Char) :
    kindAfterPath? (m.line.toList ++ ':' :: (m.column.toList ++ ':' :: m.kindAndText after)) =
      beforeLastColon? (m.kindAndText after) := by
  simp only [kindAfterPath?, afterNumber?_append m.isNumber_line,
    afterNumber?_append m.isNumber_column, Option.bind_eq_bind, Option.bind_some]

theorem kindAfterPath?_column (after : List Char) :
    kindAfterPath? (m.column.toList ++ ':' :: m.kindAndText after) = none := by
  have hspace : afterNumber? (m.kindAndText after) = none := afterNumber?_space _
  simp only [kindAfterPath?, afterNumber?_append m.isNumber_column, hspace, Option.bind_eq_bind,
    Option.bind_some, Option.bind_none]

/-- The location that the message begins with leaves all up to the last colon as its kind,
unless another location follows. -/
theorem locatedKindFrom_message (after : List Char) :
    locatedKindFrom none (m.header ++ after) =
      (locatedKindFrom none after).or (beforeLastColon? (m.kindAndText after)) := by
  have hkind : ':' ∉ ' ' :: m.kind.toList := by simp [m.colon_notMem_kind]
  calc locatedKindFrom none (m.header ++ after)
      = locatedKindFrom none (m.path.toList ++ ':' :: (m.line.toList ++ ':' ::
          (m.column.toList ++ ':' :: m.kindAndText after))) := by simp [header, kindAndText]
    _ = locatedKindFrom (beforeLastColon? (m.kindAndText after))
          (m.line.toList ++ ':' :: (m.column.toList ++ ':' :: m.kindAndText after)) := by
        rw [locatedKindFrom_colon none m.colon_notMem_path, kindAfterPath?_header, Option.or_none]
    _ = locatedKindFrom (beforeLastColon? (m.kindAndText after))
          (m.column.toList ++ ':' :: m.kindAndText after) := by
        rw [locatedKindFrom_colon _ m.isNumber_line.colon_notMem, kindAfterPath?_column,
          Option.none_or]
    _ = locatedKindFrom (beforeLastColon? (m.kindAndText after)) (m.kindAndText after) := by
        have hspace : kindAfterPath? (m.kindAndText after) = none := kindAfterPath?_space _
        rw [locatedKindFrom_colon _ m.isNumber_column.colon_notMem, hspace, Option.none_or]
    _ = locatedKindFrom (beforeLastColon? (m.kindAndText after)) ([' '] ++ after) := by
        conv_lhs => arg 2; rw [kindAndText]
        rw [locatedKindFrom_colon _ hkind, kindAfterPath?_space, Option.none_or]
        rfl
    _ = (locatedKindFrom none after).or (beforeLastColon? (m.kindAndText after)) := by
        rw [locatedKindFrom_append _ (by decide), locatedKindFrom_eq_or]

theorem kindOf_message {kind : List Char}
    (h : (locatedKindFrom none (firstLine m.text)).or
      (beforeLastColon? (m.kindAndText (firstLine m.text))) = some kind) :
    kindOf m.message = String.ofList (Text.trim kind) := by
  have hkind : locatedKind? m.message = some (String.ofList (Text.trim kind)) := by
    rw [locatedKind?, ← firstLine, firstLine_message, locatedKindFrom_message, h]
    rfl
  rw [kindOf, hkind]

theorem kindOf_of_isLastLocation {path kind : List Char}
    (h : IsLastLocation (firstLine m.text) path kind) :
    kindOf m.message = String.ofList (Text.trim kind) := by
  apply kindOf_message
  rw [locatedKindFrom_eq_some_iff.mpr ⟨path, h⟩, Option.some_or]

theorem not_locates_of_notMem {line : List Char} (h : ':' ∉ line) (path kind : List Char) :
    ¬ Locates line path kind := by
  rintro ⟨row, column, rest, -, -, -, rfl⟩
  simp at h

theorem locatedKindFrom_eq_none {line : List Char} (h : ∀ path kind, ¬ Locates line path kind) :
    locatedKindFrom none line = none := by
  cases hfound : locatedKindFrom none line with
  | none => rfl
  | some kind =>
    obtain ⟨path, hlast⟩ := locatedKindFrom_eq_some_iff.mp hfound
    exact absurd hlast.locates (h path kind)

theorem kindOf_of_colon_notMem (h : ':' ∉ firstLine m.text) : kindOf m.message = m.kind := by
  have hrest : ':' ∉ ' ' :: firstLine m.text := by simp [h]
  have hkind : kindOf m.message = String.ofList (Text.trim (' ' :: m.kind.toList)) := by
    apply kindOf_message
    rw [locatedKindFrom_eq_none (not_locates_of_notMem h), Option.none_or, kindAndText,
      beforeLastColon?_append hrest]
  rw [hkind, Text.trim_cons (by decide), Text.trim_of_ends m.kind_head m.kind_last,
    String.ofList_toList]

/-- A colon in the text that belongs to no location makes the kind go on into the text. -/
theorem colon_mem_kindOf (hcolon : ':' ∈ firstLine m.text)
    (hnone : ∀ path kind, ¬ Locates (firstLine m.text) path kind) :
    ':' ∈ (kindOf m.message).toList := by
  obtain ⟨before, rest, hrest, hsplit⟩ := exists_lastColon hcolon
  have hkind : kindOf m.message = String.ofList (Text.trim (m.kindAndText before)) := by
    apply kindOf_message
    have hlast : m.kindAndText (firstLine m.text) = m.kindAndText before ++ ':' :: rest := by
      simp [kindAndText, hsplit]
    rw [locatedKindFrom_eq_none hnone, Option.none_or, hlast, beforeLastColon?_append hrest]
  rw [hkind, String.toList_ofList]
  exact mem_trim (by simp [kindAndText]) (by decide)

theorem ne_of_colon_mem {s t : String} (hs : ':' ∈ s.toList) (ht : ':' ∉ t.toList) : s ≠ t :=
  fun h => ht (h ▸ hs)

theorem kindOf_eq_iff_of_colon_notMem {kind : String} (hkind : ':' ∉ kind.toList) :
    kindOf m.message = kind ↔ (':' ∉ firstLine m.text ∧ m.kind = kind) ∨
      ∃ path last, IsLastLocation (firstLine m.text) path last ∧
        String.ofList (Text.trim last) = kind := by
  by_cases hcolon : ':' ∈ firstLine m.text
  · simp only [hcolon, not_true_eq_false, false_and, false_or]
    cases hfound : locatedKindFrom none (firstLine m.text) with
    | none =>
      have hspec := locatedKindFrom_spec (firstLine m.text)
      rw [hfound] at hspec
      have hne := ne_of_colon_mem (m.colon_mem_kindOf hcolon hspec) hkind
      simp only [hne, false_iff, not_exists, not_and]
      exact fun path last hlast => absurd hlast.locates (hspec path last)
    | some found =>
      obtain ⟨path, hlast⟩ := locatedKindFrom_eq_some_iff.mp hfound
      rw [m.kindOf_of_isLastLocation hlast]
      constructor
      · exact fun h => ⟨path, found, hlast, h⟩
      · rintro ⟨_, last, hother, h⟩
        rw [hlast.kind_unique hother, h]
  · rw [m.kindOf_of_colon_notMem hcolon]
    simp only [hcolon, not_false_eq_true, true_and, iff_self_or]
    rintro ⟨path, last, hlast, -⟩
    exact absurd hlast.locates (not_locates_of_notMem hcolon path last)

end LocatedMessage

theorem readDiagnostics_texts (messages : List String) :
    readDiagnostics (messages.map .str) = .ok (messages.map .ofMessage) := by
  induction messages with
  | nil => rfl
  | cons message messages ih =>
    rw [readDiagnostics] at ih ⊢
    rw [List.map_cons, List.mapM_cons, ih]
    rfl

theorem get?_type_entryOf {message kind : String} :
    (entryOf message).get? "type" = some (.str kind) ↔ kindOf message = kind := by
  have hentry : (entryOf message).get? "type" = some (.str (kindOf message)) := rfl
  simp [hentry]

theorem get?_severity_entryOf {message : String} :
    (entryOf message).get? "severity" = some (.str "warning") ↔ kindOf message = "Warning" := by
  have hentry : (entryOf message).get? "severity" =
      some (.str (Diagnostic.ofMessage message).severity) := rfl
  rw [hentry, Option.some.injEq, Json.str.injEq, Diagnostic.severity_eq_warning_iff]
  rfl

/-- Messages become entries one by one. An entry has the kind and the severity that a message
with a location names exactly when no colon follows in the first line of its text, or the
last location quoted there happens to name the same kind. -/
theorem entries_of_located_messages (m : LocatedMessage) (messages : List String) :
    (((entryOf m.message).get? "type" = some (.str m.kind) ∧
        ((entryOf m.message).get? "severity" = some (.str "warning") ↔ m.kind = "Warning")) ↔
      (':' ∉ firstLine m.text ∨ ∃ path kind, IsLastLocation (firstLine m.text) path kind ∧
        String.ofList (Text.trim kind) = m.kind)) ∧
    ((entryOf m.message).get? "severity" = some (.str "warning") ↔
      (':' ∉ firstLine m.text ∧ m.kind = "Warning") ∨
        ∃ path kind, IsLastLocation (firstLine m.text) path kind ∧
          String.ofList (Text.trim kind) = "Warning") ∧
    ∃ diagnostics, readDiagnostics (messages.map .str) = .ok diagnostics ∧
      diagnostics.map Diagnostic.toJson = messages.map entryOf ∧
      ∀ message ∈ messages, (entryOf message).get? "message" = some (.str message) ∧
        (entryOf message).get? "formattedMessage" = some (.str message) := by
  refine ⟨?_, ?_, ?_⟩
  · have hkind := m.kindOf_eq_iff_of_colon_notMem m.colon_notMem_kind
    rw [eq_self, and_true] at hkind
    rw [← hkind, get?_type_entryOf, get?_severity_entryOf]
    constructor
    · exact fun h => h.1
    · exact fun h => ⟨h, by rw [h]⟩
  · rw [get?_severity_entryOf]
    exact m.kindOf_eq_iff_of_colon_notMem (by decide)
  · refine ⟨_, readDiagnostics_texts messages, ?_, fun message _ => ⟨rfl, rfl⟩⟩
    rw [List.map_map]
    rfl

/-- A warning about an unused variable `x`, with a colon before the name. -/
def unusedVariable : LocatedMessage where
  path := "a.sol"
  line := "1"
  column := "2"
  kind := "Warning"
  text := "unused: x"
  colon_notMem_path := by decide
  feed_notMem_path := by decide
  isNumber_line := ⟨by decide, List.forall_mem_singleton.mpr (by decide)⟩
  isNumber_column := ⟨by decide, List.forall_mem_singleton.mpr (by decide)⟩
  colon_notMem_kind := by decide
  feed_notMem_kind := by decide
  kind_head c h := by
    obtain rfl : 'W' = c := Option.some.inj h
    decide
  kind_last c h := by
    obtain rfl : 'g' = c := Option.some.inj h
    decide

theorem unusedVariable_becomes_error :
    unusedVariable.message = "a.sol:1:2: Warning: unused: x" ∧ unusedVariable.kind = "Warning" ∧
      (entryOf unusedVariable.message).get? "type" = some (.str "Warning: unused") ∧
      (entryOf unusedVariable.message).get? "severity" = some (.str "error") := by
  refine ⟨?_, ?_, ?_, ?_⟩
  · decide
  · rfl
  · rfl
  · rfl

end SolcDispatch.Legacy
