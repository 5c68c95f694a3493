import SolcDispatch.Json.Parser
import SolcDispatch.Json.Printer

/-! Printed strings read back. A code point is printed as itself, as an escape or as the
escapes of two halves of a surrogate pair, and reading joins such halves again. -/

namespace SolcDispatch.Json

theorem hexValue?_hexDigit {n : Nat} (h : n < 16) : hexValue? (Text.hexDigit n) = some n := by
  have hall : ∀ n < 16, hexValue? (Text.hexDigit n) = some n := by decide
  exact hall n h

theorem hexDigits_four (n : Nat) : Text.hexDigits 4 n =
    [Text.hexDigit (n / 4096 % 16), Text.hexDigit (n / 256 % 16), Text.hexDigit (n / 16 % 16),
      Text.hexDigit (n % 16)] := by
  simp only [Text.hexDigits, List.nil_append, List.cons_append, Nat.div_div_eq_div_mul]

theorem hexQuad?_hexDigits {n : Nat} (h : n < 0x10000) :
    hexQuad? (Text.hexDigit (n / 4096 % 16)) (Text.hexDigit (n / 256 % 16))
      (Text.hexDigit (n / 16 % 16)) (Text.hexDigit (n % 16)) = some n := by
  simp only [hexQuad?, hexValue?_hexDigit (Nat.mod_lt _ (by decide : 0 < 16)), bind, Option.bind,
    pure, Option.some.injEq]
  omega

theorem toNat_not_surrogate (c : Char) : ¬ (0xD800 ≤ c.toNat ∧ c.toNat ≤ 0xDFFF) := by
  have hvalid := c.valid
  unfold UInt32.isValidChar Nat.isValidChar at hvalid
  change ¬ (0xD800 ≤ c.val.toNat ∧ c.val.toNat ≤ 0xDFFF)
  omega

theorem toNat_isHalf (c : Char) : Text.isHalf c.toNat = false := by
  have hs := toNat_not_surrogate c
  simp only [Text.isHalf, Text.isHighSurrogate, Text.isLowSurrogate, Bool.or_eq_false_iff,
    Bool.and_eq_false_iff, decide_eq_false_iff_not]
  omega

theorem toNat_lt (c : Char) : c.toNat < 0x110000 := by
  have hvalid := c.valid
  unfold UInt32.isValidChar Nat.isValidChar at hvalid
  change c.val.toNat < 0x110000
  omega

theorem toNat_ofNat {n : Nat} (hlt : n < 0x110000) (hhalf : Text.isHalf n = false) :
    (Char.ofNat n).toNat = n := by
  simp only [Text.isHalf, Text.isHighSurrogate, Text.isLowSurrogate, Bool.or_eq_false_iff,
    Bool.and_eq_false_iff, decide_eq_false_iff_not] at hhalf
  have hvalid : n.isValidChar := by
    unfold Nat.isValidChar
    omega
  rw [Char.ofNat, dif_pos hvalid]
  rfl

theorem unitChar_toNat (c : Char) : Text.unitChar c.toNat = c := by
  simp only [Text.unitChar, toNat_isHalf, Bool.false_eq_true, if_false, Char.ofNat_toNat]

theorem ofList_codes (s : String) :
    String.ofList ((TextLike.codes s).map Text.unitChar) = s := by
  simp only [TextLike.codes, List.map_map, Function.comp_def, unitChar_toNat, List.map_id',
    String.ofList_toList]

variable {opening rest : List Char} {read codes us : List Nat} {c : Char} {n : Nat}

theorem stringBody_codeEscape (h : n < 0x10000) (hrest : rest ≠ []) :
    stringBody opening read (codeEscape n ++ rest) = stringBody opening (n :: read) rest := by
  obtain ⟨next, more, rfl⟩ := List.exists_cons_of_ne_nil hrest
  rw [codeEscape, hexDigits_four]
  simp only [List.cons_append, List.nil_append]
  rw [stringBody.eq_3, hexQuad?_hexDigits h]

/-- The halves of a code point of more than four digits. -/
def halves (n : Nat) : List Nat := [0xD800 + (n - 0x10000) / 0x400, 0xDC00 + (n - 0x10000) % 0x400]

/-- What a printed code point is read as before halves are joined. -/
def unitsOf (asciiOnly : Bool) (n : Nat) : List Nat :=
  if asciiOnly && 0x10000 ≤ n then halves n else [n]

theorem stringBody_characterEscape (h : n < 0x110000) (hrest : rest ≠ []) :
    stringBody opening read (characterEscape n ++ rest) =
      stringBody opening ((unitsOf true n).reverse ++ read) rest := by
  unfold characterEscape unitsOf halves
  by_cases hshort : n < 0x10000
  · simp only [hshort, if_true, show ¬ 0x10000 ≤ n by omega, decide_false, Bool.and_false,
      Bool.false_eq_true, if_false]
    exact stringBody_codeEscape hshort hrest
  · simp only [hshort, if_false, show 0x10000 ≤ n by omega, decide_true, Bool.and_self, if_true,
      List.append_assoc]
    rw [stringBody_codeEscape (by omega) (by simp [codeEscape]),
      stringBody_codeEscape (by omega) hrest]
    rfl

theorem stringBody_escaped {letter : Char} (h : escaped? letter = some c) :
    stringBody opening read ('\\' :: letter :: rest) =
      stringBody opening (c.toNat :: read) rest := by
  have hu : letter ≠ 'u' := by
    rintro rfl
    cases h
  rw [stringBody.eq_6 _ _ _ _ (fun _ _ _ _ _ _ he => absurd he hu) hu, h]

theorem stringBody_plain (hquote : c ≠ '"') (hback : c ≠ '\\') (hcode : ¬ c.toNat < 0x20) :
    stringBody opening read (c :: rest) = stringBody opening (c.toNat :: read) rest := by
  rw [stringBody.eq_7 _ _ _ _ hquote (fun _ _ _ _ _ _ he => absurd he hback)
    (fun _ he => absurd he hback) (fun he => absurd he hback) (fun _ _ he => absurd he hback),
    if_neg hcode]

theorem unitsOf_short (asciiOnly : Bool) (h : n < 0x10000) : unitsOf asciiOnly n = [n] := by
  rw [unitsOf, if_neg]
  simp only [Bool.and_eq_true, decide_eq_true_eq]
  omega

/-- The spellings of a character in a string. -/
inductive Spells (asciiOnly : Bool) (c : Char) : List Char → Prop
  | letter {letter : Char} (h : escaped? letter = some c) (hshort : c.toNat < 0x7F) :
      Spells asciiOnly c ['\\', letter]
  | control (h : c.toNat < 0x20) : Spells asciiOnly c (codeEscape c.toNat)
  | wide (h : asciiOnly) : Spells asciiOnly c (characterEscape c.toNat)
  | plain (hquote : c ≠ '"') (hback : c ≠ '\\') (hcode : ¬ c.toNat < 0x20)
      (h : asciiOnly → c.toNat < 0x7F) : Spells asciiOnly c [c]

theorem spells_printChar (asciiOnly : Bool) (c : Char) :
    Spells asciiOnly c (printChar asciiOnly c) := by
  have hletter {letter : Char} {other : Char} (heq : (c == other) = true)
      (h : escaped? letter = some other) (hshort : other.toNat < 0x7F) :
      Spells asciiOnly c ['\\', letter] := by
    obtain rfl := eq_of_beq heq
    exact .letter h hshort
  unfold printChar
  split
  · exact hletter ‹_› rfl (by decide)
  rename_i hquote
  split
  · exact hletter ‹_› rfl (by decide)
  rename_i hback
  split
  · exact hletter ‹_› rfl (by decide)
  split
  · exact hletter ‹_› rfl (by decide)
  split
  · exact hletter ‹_› rfl (by decide)
  split
  · exact hletter ‹_› rfl (by decide)
  split
  · exact hletter ‹_› rfl (by decide)
  split
  · exact .control ‹_›
  rename_i hcode
  split
  · rename_i hwide
    exact .wide (Bool.and_eq_true _ _ ▸ hwide).1
  · rename_i hascii
    refine .plain (by simpa using hquote) (by simpa using hback) hcode fun h => ?_
    simpa [h] using hascii

theorem stringBody_printChar (asciiOnly : Bool) (hrest : rest ≠ []) :
    stringBody opening read (printChar asciiOnly c ++ rest) =
      stringBody opening ((unitsOf asciiOnly c.toNat).reverse ++ read) rest := by
  have hspells := spells_printChar asciiOnly c
  generalize printChar asciiOnly c = text at hspells
  cases hspells with
  | letter h hshort =>
    rw [unitsOf_short asciiOnly (by omega)]
    exact stringBody_escaped h
  | control h =>
    rw [unitsOf_short asciiOnly (by omega)]
    exact stringBody_codeEscape (by omega) hrest
  | wide h =>
    subst h
    exact stringBody_characterEscape (toNat_lt c) hrest
  | plain hquote hback hcode h =>
    have hunits : unitsOf asciiOnly c.toNat = [c.toNat] := by
      cases asciiOnly with
      | false => rfl
      | true =>
        have hshort := h rfl
        exact unitsOf_short true (by omega)
    rw [hunits]
    exact stringBody_plain hquote hback hcode

theorem stringBody_printCode (asciiOnly : Bool) (h : n < 0x110000) (hrest : rest ≠ []) :
    stringBody opening read (printCode asciiOnly n ++ rest) =
      stringBody opening ((unitsOf asciiOnly n).reverse ++ read) rest := by
  unfold printCode
  cases hhalf : Text.isHalf n with
  | true =>
    have hshort : n < 0x10000 := by
      simp only [Text.isHalf, Text.isHighSurrogate, Text.isLowSurrogate, Bool.or_eq_true,
        Bool.and_eq_true, decide_eq_true_eq] at hhalf
      omega
    rw [if_pos rfl, unitsOf_short asciiOnly hshort]
    exact stringBody_codeEscape hshort hrest
  | false =>
    have hread : stringBody opening read (printChar asciiOnly (Char.ofNat n) ++ rest) = _ :=
      stringBody_printChar asciiOnly hrest
    rwa [toNat_ofNat h hhalf] at hread

theorem stringBody_flatMap (asciiOnly : Bool) (hcodes : ∀ n ∈ codes, n < 0x110000) :
    stringBody opening read (codes.flatMap (printCode asciiOnly) ++ '"' :: rest) =
      .ok (read.reverse ++ codes.flatMap (unitsOf asciiOnly), rest) := by
  induction codes generalizing read with
  | nil => rw [List.flatMap_nil, List.nil_append, stringBody.eq_2, List.flatMap_nil, List.append_nil]
  | cons n codes ih =>
    rw [List.flatMap_cons, List.append_assoc,
      stringBody_printCode asciiOnly (hcodes n List.mem_cons_self) (by simp),
      ih fun m hm => hcodes m (List.mem_cons_of_mem n hm), List.reverse_append,
      List.reverse_reverse, List.append_assoc, List.flatMap_cons]

theorem joinHalves_cons (h : (Text.isHighSurrogate n && us.head?.any Text.isLowSurrogate) = false) :
    Text.joinHalves read (n :: us) = Text.joinHalves (n :: read) us := by
  cases us with
  | nil => rfl
  | cons low rest =>
    simp only [List.head?_cons, Option.any_some] at h
    rw [Text.joinHalves, h]
    rfl

theorem joinHalves_pair {high low : Nat}
    (h : (Text.isHighSurrogate high && Text.isLowSurrogate low) = true) :
    Text.joinHalves read (high :: low :: us) =
      Text.joinHalves (Text.surrogatePair high low :: read) us := by
  rw [Text.joinHalves, if_pos h]

theorem joinHalves_halves (hlow : 0x10000 ≤ n) (hlt : n < 0x110000) :
    Text.joinHalves read (halves n ++ us) = Text.joinHalves (n :: read) us := by
  have hpair : (Text.isHighSurrogate (0xD800 + (n - 0x10000) / 0x400) &&
      Text.isLowSurrogate (0xDC00 + (n - 0x10000) % 0x400)) = true := by
    simp only [Text.isHighSurrogate, Text.isLowSurrogate, Bool.and_eq_true, decide_eq_true_eq]
    omega
  have hsum : Text.surrogatePair (0xD800 + (n - 0x10000) / 0x400)
      (0xDC00 + (n - 0x10000) % 0x400) = n := by
    unfold Text.surrogatePair
    omega
  have hjoin : Text.joinHalves read (halves n ++ us) = _ := joinHalves_pair hpair
  rwa [hsum] at hjoin

/-- The first unit of a code point is the second half of a pair only if the code point is. -/
theorem head?_unitsOf_low (asciiOnly : Bool) (h : n < 0x110000)
    (hn : Text.isLowSurrogate n = false) :
    ((unitsOf asciiOnly n ++ us).head?.any Text.isLowSurrogate) = false := by
  obtain ⟨high, low, hhalves, hhigh⟩ : ∃ high low, halves n = [high, low] ∧
      Text.isLowSurrogate high = false := by
    refine ⟨_, _, rfl, ?_⟩
    simp only [Text.isLowSurrogate, Bool.and_eq_false_iff, decide_eq_false_iff_not]
    omega
  unfold unitsOf
  split
  · rwa [hhalves, List.cons_append, List.head?_cons, Option.any_some]
  · rwa [List.cons_append, List.head?_cons, Option.any_some]

theorem isJoined_cons_iff : Text.isJoined (n :: codes) = true ↔ n < 0x110000 ∧
    (Text.isHighSurrogate n && codes.head?.any Text.isLowSurrogate) = false ∧
      Text.isJoined codes = true := by
  simp only [Text.isJoined, Bool.and_eq_true, decide_eq_true_eq, Bool.not_eq_true', and_assoc]

theorem lt_of_isJoined (h : Text.isJoined codes = true) : ∀ n ∈ codes, n < 0x110000 := by
  induction codes with
  | nil => simp
  | cons n codes ih =>
    obtain ⟨hlt, -, hrest⟩ := isJoined_cons_iff.mp h
    exact List.forall_mem_cons.mpr ⟨hlt, ih hrest⟩

theorem joinHalves_unitsOf (asciiOnly : Bool) (h : Text.isJoined codes = true) :
    Text.joinHalves read (codes.flatMap (unitsOf asciiOnly)) = read.reverse ++ codes := by
  induction codes generalizing read with
  | nil => simp [Text.joinHalves]
  | cons n codes ih =>
    obtain ⟨hlt, hfront, hrest⟩ := isJoined_cons_iff.mp h
    have htail : Text.joinHalves (n :: read) _ = _ := ih hrest
    rw [List.reverse_cons, List.append_assoc, List.singleton_append] at htail
    rw [List.flatMap_cons, ← htail]
    by_cases hlong : (asciiOnly && decide (0x10000 ≤ n)) = true
    · obtain ⟨-, hlow⟩ := Bool.and_eq_true_iff.mp hlong
      rw [unitsOf, if_pos hlong]
      exact joinHalves_halves (of_decide_eq_true hlow) hlt
    · rw [unitsOf, if_neg hlong, List.singleton_append]
      refine joinHalves_cons ?_
      cases codes with
      | nil => simp
      | cons m codes =>
        cases hhigh : Text.isHighSurrogate n with
        | false => rfl
        | true =>
          have hm : Text.isLowSurrogate m = false := by simpa [hhigh] using hfront
          rw [List.flatMap_cons, Bool.true_and]
          exact head?_unitsOf_low asciiOnly (isJoined_cons_iff.mp hrest).1 hm

/-- Texts whose code points hold no pair of halves and make the text again. -/
class LawfulTextLike (τ : Type) [TextLike τ] : Prop where
  isJoined_codes (t : τ) : Text.isJoined (TextLike.codes t)
  ofCodes_of_joinHalves {us : List Nat} {t : τ} (h : Text.joinHalves [] us = TextLike.codes t) :
    TextLike.ofCodes us = t
  codes_ofString (s : String) : TextLike.codes (TextLike.ofString s : τ) = s.toList.map Char.toNat

instance : LawfulTextLike String where
  isJoined_codes t := Wide.isJoined_characters t.toList
  ofCodes_of_joinHalves {us t} h := by
    change String.ofList ((Text.joinHalves [] us).map Text.unitChar) = t
    rw [h, ofList_codes]
  codes_ofString _ := rfl

instance : LawfulTextLike Wide where
  isJoined_codes t := t.isJoined
  ofCodes_of_joinHalves {us t} h := by
    change Wide.ofCodes us = t
    simp only [TextLike.codes] at h
    simp only [Wide.ofCodes, h, t.isJoined, dif_pos]
  codes_ofString _ := rfl

section Texts

variable {τ : Type} [TextLike τ] [LawfulTextLike τ]

theorem ofCodes_unitsOf (asciiOnly : Bool) (t : τ) :
    TextLike.ofCodes ((TextLike.codes t).flatMap (unitsOf asciiOnly)) = t :=
  LawfulTextLike.ofCodes_of_joinHalves
    (joinHalves_unitsOf asciiOnly (LawfulTextLike.isJoined_codes t))

theorem stringBody_codes (asciiOnly : Bool) (s : τ) (rest : List Char) :
    ∃ units, stringBody opening []
        ((TextLike.codes s).flatMap (printCode asciiOnly) ++ '"' :: rest) = .ok (units, rest) ∧
      TextLike.ofCodes units = s :=
  ⟨_, stringBody_flatMap asciiOnly (lt_of_isJoined (LawfulTextLike.isJoined_codes s)),
    ofCodes_unitsOf asciiOnly s⟩

theorem ofString_inj {s t : String} : (TextLike.ofString s : τ) = TextLike.ofString t ↔ s = t := by
  refine ⟨fun h => ?_, congrArg _⟩
  have hcodes := congrArg TextLike.codes h
  rw [LawfulTextLike.codes_ofString, LawfulTextLike.codes_ofString] at hcodes
  have hchars := congrArg (List.map Text.unitChar) hcodes
  simp only [List.map_map, Function.comp_def, unitChar_toNat, List.map_id'] at hchars
  exact String.toList_inj.mp hchars

end Texts

end SolcDispatch.Json
