import SolcDispatch.Proofs.Json.Bytes

/-! Printed values as lines. No control character is printed, and nothing beyond the printable
ASCII characters where only ASCII is asked for. -/

namespace SolcDispatch.Json

variable {τ : Type}

mutual

/-- Whether all numbers in a value are whole ones. -/
def floatFree : Json τ → Bool
  | .float _ => false
  | .arr items => floatFreeItems items
  | .obj members => floatFreeMembers members
  | _ => true

def floatFreeItems : List (Json τ) → Bool
  | [] => true
  | item :: rest => floatFree item && floatFreeItems rest

def floatFreeMembers : List (τ × Json τ) → Bool
  | [] => true
  | (_, value) :: rest => floatFree value && floatFreeMembers rest

end

theorem floatFreeItems_iff {items : List (Json τ)} :
    floatFreeItems items ↔ ∀ v ∈ items, v.floatFree := by
  induction items with
  | nil => simp [floatFreeItems]
  | cons item rest ih => rw [floatFreeItems, Bool.and_eq_true, ih, List.forall_mem_cons]

theorem floatFreeMembers_iff {members : Members τ} :
    floatFreeMembers members ↔ ∀ m ∈ members, m.2.floatFree := by
  induction members with
  | nil => simp [floatFreeMembers]
  | cons first rest ih => rw [floatFreeMembers, Bool.and_eq_true, ih, List.forall_mem_cons]

/-- Characters that are not control characters, and printable ASCII ones if only those are
asked for. -/
def isShown (asciiOnly : Bool) (c : Char) : Bool :=
  0x20 ≤ c.toNat && (!asciiOnly || c.toNat < 0x7F)

variable {asciiOnly : Bool} {c : Char} {n : Nat}

theorem isShown_of_true (h : isShown true c) : isShown asciiOnly c := by
  cases asciiOnly with
  | true => exact h
  | false =>
    simp only [isShown, Bool.and_eq_true] at h ⊢
    exact ⟨h.1, rfl⟩

theorem isShown_of_isDigit (h : isDigit c) : isShown asciiOnly c := by
  simp only [isDigit, Bool.and_eq_true, decide_eq_true_eq] at h
  have hlow : 48 ≤ c.toNat := h.1
  have hhigh : c.toNat ≤ 57 := h.2
  refine isShown_of_true ?_
  simp only [isShown, Bool.and_eq_true, Bool.or_eq_true, decide_eq_true_eq]
  exact ⟨by omega, .inr (by omega)⟩

theorem isShown_of_mem_codeEscape (h : c ∈ codeEscape n) : isShown asciiOnly c := by
  have hall : ∀ k < 16, isShown true (Text.hexDigit k) := by decide
  have hdigit (k : Nat) : isShown true (Text.hexDigit (k % 16)) :=
    hall (k % 16) (Nat.mod_lt k (by decide))
  rw [codeEscape, hexDigits_four] at h
  simp only [List.mem_cons, List.not_mem_nil, or_false] at h
  refine isShown_of_true ?_
  rcases h with rfl | rfl | rfl | rfl | rfl | rfl
  · rfl
  · rfl
  · exact hdigit _
  · exact hdigit _
  · exact hdigit _
  · exact hdigit _

theorem isShown_of_mem_characterEscape (h : c ∈ characterEscape n) : isShown asciiOnly c := by
  unfold characterEscape at h
  split at h
  · exact isShown_of_mem_codeEscape h
  · rcases List.mem_append.mp h with h | h
    · exact isShown_of_mem_codeEscape h
    · exact isShown_of_mem_codeEscape h

theorem isShown_of_escaped? {letter : Char} (h : escaped? letter = some c) :
    isShown asciiOnly letter := by
  refine isShown_of_true ?_
  unfold escaped? at h
  split at h
  case h_9 => cases h
  all_goals rfl

theorem isShown_of_mem_printChar {character : Char} (h : c ∈ printChar asciiOnly character) :
    isShown asciiOnly c := by
  have hspells := spells_printChar asciiOnly character
  generalize printChar asciiOnly character = text at h hspells
  cases hspells with
  | letter hletter hshort =>
    rcases List.mem_pair.mp h with rfl | rfl
    · exact isShown_of_true rfl
    · exact isShown_of_escaped? hletter
  | control hcontrol => exact isShown_of_mem_codeEscape h
  | wide hwide => exact isShown_of_mem_characterEscape h
  | plain hquote hback hcode hascii =>
    obtain rfl := List.mem_singleton.mp h
    simp only [isShown, Bool.and_eq_true, Bool.or_eq_true, decide_eq_true_eq]
    refine ⟨by omega, ?_⟩
    cases asciiOnly with
    | false => exact .inl rfl
    | true => exact .inr (hascii rfl)

section Texts

variable [TextLike τ] {style : Style}

theorem isShown_of_mem_printString {s : τ} (h : c ∈ printString asciiOnly s) :
    isShown asciiOnly c := by
  have hquote : isShown asciiOnly '"' := isShown_of_true rfl
  rw [printString, List.mem_cons, List.mem_append, List.mem_singleton, List.mem_flatMap] at h
  rcases h with rfl | ⟨code, -, h⟩ | rfl
  · exact hquote
  · unfold printCode at h
    split at h
    · exact isShown_of_mem_codeEscape h
    · exact isShown_of_mem_printChar h
  · exact hquote

theorem isShown_of_mem_printInt {i : Int} (h : c ∈ printInt i) : isShown asciiOnly c := by
  have hdigits (h : c ∈ Nat.toDigits 10 i.natAbs) : isShown asciiOnly c :=
    isShown_of_isDigit (isDigit_of_mem_toDigits h)
  unfold printInt at h
  split at h
  · rcases List.mem_cons.mp h with rfl | h
    · exact isShown_of_true rfl
    · exact hdigits h
  · exact hdigits h

theorem isShown_exponentText (least : Nat) (e : Int) :
    ∀ c ∈ Binary64.exponentText least e, isShown asciiOnly c := by
  intro c h
  simp only [Binary64.exponentText, List.mem_cons, List.mem_append, List.mem_replicate] at h
  rcases h with rfl | h | ⟨-, rfl⟩ | h
  · exact isShown_of_true rfl
  · split at h
    · exact h ▸ isShown_of_true rfl
    · exact h ▸ isShown_of_true rfl
  · exact isShown_of_true rfl
  · exact isShown_of_isDigit (isDigit_of_mem_toDigits h)

/-- Besides digits, a laid out number has a point and the marks of its exponent. -/
theorem isShown_render (layout : Binary64.Layout) (d : Binary64.Decimal) :
    ∀ c ∈ layout.render d, isShown asciiOnly c := by
  have hwrites := writes_significand d
  unfold Binary64.Layout.render
  generalize Binary64.significand d = significand at hwrites ⊢
  obtain ⟨ds, e⟩ := significand
  have hds : ∀ c ∈ ds, isShown asciiOnly c := fun c hc => isShown_of_isDigit (hwrites.digits c hc)
  have hzero : isShown asciiOnly '0' := isShown_of_true rfl
  have hpoint : isShown asciiOnly '.' := isShown_of_true rfl
  have hzeros (n : Nat) : ∀ c ∈ List.replicate n '0', isShown asciiOnly c :=
    fun c hc => (List.mem_replicate.mp hc).2 ▸ hzero
  have hexponent : ∀ c ∈ Binary64.exponentText layout.exponentDigits e, isShown asciiOnly c :=
    isShown_exponentText layout.exponentDigits e
  dsimp only
  split
  · unfold Binary64.Layout.positional
    split
    · simp only [List.forall_mem_cons, List.forall_mem_append]
      exact ⟨hzero, hpoint, hzeros _, hds⟩
    · dsimp only
      split
      · simp only [List.forall_mem_append]
        refine ⟨⟨hds, hzeros _⟩, ?_⟩
        split
        · simp [hpoint, hzero]
        · simp
      · simp only [List.forall_mem_cons, List.forall_mem_append]
        exact ⟨fun c hc => hds c (List.mem_of_mem_take hc), hpoint,
          fun c hc => hds c (List.mem_of_mem_drop hc)⟩
  · unfold Binary64.Layout.scientific
    split
    · rw [List.forall_mem_cons] at hds ⊢
      exact ⟨hds.1, hexponent⟩
    · simp only [List.forall_mem_cons, List.forall_mem_append] at hds ⊢
      exact ⟨hds.1, hpoint, hds.2, hexponent⟩
    · exact hds

/-- A style whose separators hold no control characters, and only printable ASCII ones. -/
structure Style.IsShown (style : Style) : Prop where
  item : style.itemSeparator.toList.all (isShown style.asciiOnly)
  name : style.nameSeparator.toList.all (isShown style.asciiOnly)

theorem isShown_spaced : spaced.IsShown := ⟨by decide, by decide⟩

theorem isShown_compactUnicode : compactUnicode.IsShown := ⟨by decide, by decide⟩

theorem isShown_script : script.IsShown := ⟨by decide, by decide⟩

/-- A style that writes every number with a fractional part in such characters too. -/
def Style.ShowsFloats (style : Style) : Prop :=
  ∀ x, ∀ c ∈ style.float x, isShown style.asciiOnly c

theorem showsFloats_script : script.ShowsFloats := by
  intro x c h
  change c ∈ scriptFloat x at h
  unfold scriptFloat at h
  cases x with
  | finite negative m e =>
    rw [Binary64.isFinite, if_pos rfl] at h
    unfold Binary64.toScriptText at h
    split at h
    · obtain rfl := List.mem_singleton.mp h
      exact isShown_of_true rfl
    · rw [Binary64.textWith, String.toList_ofList, Binary64.signed] at h
      split at h
      · rcases List.mem_cons.mp h with rfl | h
        · exact isShown_of_true rfl
        · exact isShown_render _ _ c h
      · exact isShown_render _ _ c h
  | _ => exact isShown_of_true (List.all_eq_true.mp (by decide : "null".toList.all (isShown true)) c h)

theorem isShown_of_mem_printItems (hs : style.IsShown) {items : List (Json τ)}
    (hitems : ∀ v ∈ items, ∀ c ∈ printChars style v, isShown style.asciiOnly c) {first : Bool}
    (h : c ∈ printItems style first items) : isShown style.asciiOnly c := by
  induction items generalizing first with
  | nil =>
    rw [printItems] at h
    cases h
  | cons item rest ih =>
    obtain ⟨hitem, hrest⟩ := List.forall_mem_cons.mp hitems
    rw [printItems, List.mem_append, List.mem_append] at h
    rcases h with (h | h) | h
    · cases first with
      | true => cases h
      | false => exact List.all_eq_true.mp hs.item c h
    · exact hitem c h
    · exact ih hrest h

theorem isShown_of_mem_printMembers (hs : style.IsShown) {members : Members τ}
    (hmembers : ∀ m ∈ members, ∀ c ∈ printChars style m.2, isShown style.asciiOnly c)
    {first : Bool} (h : c ∈ printMembers style first members) : isShown style.asciiOnly c := by
  induction members generalizing first with
  | nil =>
    rw [printMembers] at h
    cases h
  | cons member rest ih =>
    obtain ⟨name, v⟩ := member
    obtain ⟨hmember, hrest⟩ := List.forall_mem_cons.mp hmembers
    simp only [printMembers, List.mem_append] at h
    rcases h with (((h | h) | h) | h) | h
    · cases first with
      | true => cases h
      | false => exact List.all_eq_true.mp hs.item c h
    · exact isShown_of_mem_printString h
    · exact List.all_eq_true.mp hs.name c h
    · exact hmember c h
    · exact ih hrest h

theorem isShown_of_mem_printChars (hs : style.IsShown) {v : Json τ}
    (hv : v.floatFree ∨ style.ShowsFloats) (h : c ∈ printChars style v) :
    isShown style.asciiOnly c := by
  have hword {text : List Char} (htext : text.all (isShown true)) {c : Char} (h : c ∈ text) :
      isShown style.asciiOnly c := isShown_of_true (List.all_eq_true.mp htext c h)
  induction v using Json.nested generalizing c with
  | null =>
    rw [printChars] at h
    exact hword (by decide) h
  | bool b =>
    rw [printChars] at h
    cases b with
    | false => exact hword (by decide) h
    | true => exact hword (by decide) h
  | int i =>
    rw [printChars] at h
    exact isShown_of_mem_printInt h
  | float x =>
    rw [printChars] at h
    rcases hv with hv | hv
    · cases hv
    · exact hv x c h
  | str s =>
    rw [printChars] at h
    exact isShown_of_mem_printString h
  | arr items ih =>
    rw [floatFree, floatFreeItems_iff] at hv
    rw [printChars, List.mem_cons, List.mem_append, List.mem_singleton] at h
    rcases h with rfl | h | rfl
    · exact isShown_of_true rfl
    · exact isShown_of_mem_printItems hs
        (fun v hmem c hc => ih v hmem (hv.imp_left fun hall => hall v hmem) hc) h
    · exact isShown_of_true rfl
  | obj members ih =>
    rw [floatFree, floatFreeMembers_iff] at hv
    rw [printChars, List.mem_cons, List.mem_append, List.mem_singleton] at h
    rcases h with rfl | h | rfl
    · exact isShown_of_true rfl
    · exact isShown_of_mem_printMembers hs
        (fun m hmem c hc => ih m hmem (hv.imp_left fun hall => hall m hmem) hc) h
    · exact isShown_of_true rfl

theorem printItems_congr (style other : Style) (hsep : style.itemSeparator = other.itemSeparator)
    {items : List (Json τ)} (h : ∀ v ∈ items, printChars style v = printChars other v)
    (first : Bool) : printItems style first items = printItems other first items := by
  induction items generalizing first with
  | nil => rw [printItems, printItems]
  | cons item rest ih =>
    obtain ⟨hitem, hrest⟩ := List.forall_mem_cons.mp h
    rw [printItems, printItems, hsep, hitem, ih hrest]

theorem printMembers_congr (style other : Style) (hitem : style.itemSeparator = other.itemSeparator)
    (hname : style.nameSeparator = other.nameSeparator) (hascii : style.asciiOnly = other.asciiOnly)
    {members : Members τ} (h : ∀ m ∈ members, printChars style m.2 = printChars other m.2)
    (first : Bool) : printMembers style first members = printMembers other first members := by
  induction members generalizing first with
  | nil => rw [printMembers, printMembers]
  | cons member rest ih =>
    obtain ⟨name, v⟩ := member
    obtain ⟨hmember, hrest⟩ := List.forall_mem_cons.mp h
    rw [printMembers, printMembers, hitem, hname, hascii, hmember, ih hrest]

/-- How numbers with a fractional part are written shows only in values that hold some. -/
theorem printChars_script {v : Json τ} (hv : v.floatFree) :
    printChars script v = printChars compactUnicode v := by
  induction v using Json.nested with
  | float x => cases hv
  | arr items ih =>
    rw [floatFree, floatFreeItems_iff] at hv
    have hitems : printItems script true items = printItems compactUnicode true items :=
      printItems_congr script compactUnicode rfl (fun v hmem => ih v hmem (hv v hmem)) true
    rw [printChars, printChars, hitems]
  | obj members ih =>
    rw [floatFree, floatFreeMembers_iff] at hv
    have hmembers : printMembers script true members = printMembers compactUnicode true members :=
      printMembers_congr script compactUnicode rfl rfl rfl
        (fun m hmem => ih m hmem (hv m hmem)) true
    rw [printChars, printChars, hmembers]
  | str s => rw [printChars, printChars, script, compactUnicode]
  | _ => rw [printChars, printChars]

end Texts

/-- An ASCII character is the byte of its number, and the bytes of others are no ASCII ones. -/
theorem mem_utf8 {s : String} {byte : UInt8} (h : byte ∈ Text.utf8 s) :
    ∃ c ∈ s.toList, byte.toNat = c.toNat ∨ 0x80 ≤ c.toNat ∧ 0x80 ≤ byte.toNat := by
  obtain ⟨c, hc, hbyte⟩ := List.mem_flatMap.mp h
  have hlt := toNat_lt c
  have hlarge {n : Nat} (hlow : 0x80 ≤ n) (hhigh : n < 256) : 0x80 ≤ (UInt8.ofNat n).toNat := by
    rwa [UInt8.toNat_ofNat_of_lt' hhigh]
  refine ⟨c, hc, ?_⟩
  rcases Text.utf8EncodeChar_cases c with ⟨hone, hbytes⟩ | ⟨hone, htwo, hbytes⟩ |
    ⟨htwo, hthree, hbytes⟩ | ⟨hthree, hbytes⟩
  · rw [hbytes, List.mem_singleton] at hbyte
    refine .inl ?_
    rw [hbyte, UInt8.toNat_ofNat_of_lt' (show c.toNat < 256 by omega)]
  · rw [hbytes, List.mem_pair] at hbyte
    rcases hbyte with rfl | rfl
    · exact .inr ⟨by omega, hlarge (by omega) (by omega)⟩
    · exact .inr ⟨by omega, hlarge (by omega) (by omega)⟩
  · rw [hbytes, List.mem_cons, List.mem_pair] at hbyte
    rcases hbyte with rfl | rfl | rfl
    · exact .inr ⟨by omega, hlarge (by omega) (by omega)⟩
    · exact .inr ⟨by omega, hlarge (by omega) (by omega)⟩
    · exact .inr ⟨by omega, hlarge (by omega) (by omega)⟩
  · rw [hbytes, List.mem_cons, List.mem_cons, List.mem_pair] at hbyte
    rcases hbyte with rfl | rfl | rfl | rfl
    · exact .inr ⟨by omega, hlarge (by omega) (by omega)⟩
    · exact .inr ⟨by omega, hlarge (by omega) (by omega)⟩
    · exact .inr ⟨by omega, hlarge (by omega) (by omega)⟩
    · exact .inr ⟨by omega, hlarge (by omega) (by omega)⟩

/-- A printed value is on one line. -/
theorem newline_notMem_print [TextLike τ] {style : Style} (hs : style.IsShown) {v : Json τ}
    (hv : v.floatFree ∨ style.ShowsFloats) : 0x0A ∉ Text.utf8 (print style v) := by
  intro hmem
  obtain ⟨c, hc, hbyte⟩ := mem_utf8 hmem
  rw [print, String.toList_ofList] at hc
  have hshown := isShown_of_mem_printChars hs hv hc
  simp only [isShown, Bool.and_eq_true, decide_eq_true_eq] at hshown
  have hten : (0x0A : UInt8).toNat = 10 := rfl
  omega

end SolcDispatch.Json
