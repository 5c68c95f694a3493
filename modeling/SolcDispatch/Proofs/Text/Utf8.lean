import SolcDispatch.Proofs.Json.Strings
import SolcDispatch.Text.Utf8

/-! The bytes of a text read back as the text. -/

namespace SolcDispatch.Text

open Json (toNat_lt toNat_not_surrogate)

/-- The bytes of a character, by its number. -/
theorem utf8EncodeChar_cases (c : Char) :
    c.toNat ≤ 0x7F ∧ String.utf8EncodeChar c = [UInt8.ofNat c.toNat] ∨
    0x80 ≤ c.toNat ∧ c.toNat ≤ 0x7FF ∧ String.utf8EncodeChar c =
      [UInt8.ofNat (c.toNat / 64 % 32 + 192), UInt8.ofNat (c.toNat % 64 + 128)] ∨
    0x800 ≤ c.toNat ∧ c.toNat ≤ 0xFFFF ∧ String.utf8EncodeChar c =
      [UInt8.ofNat (c.toNat / 4096 % 16 + 224), UInt8.ofNat (c.toNat / 64 % 64 + 128),
        UInt8.ofNat (c.toNat % 64 + 128)] ∨
    0x10000 ≤ c.toNat ∧ String.utf8EncodeChar c =
      [UInt8.ofNat (c.toNat / 262144 % 8 + 240), UInt8.ofNat (c.toNat / 4096 % 64 + 128),
        UInt8.ofNat (c.toNat / 64 % 64 + 128), UInt8.ofNat (c.toNat % 64 + 128)] := by
  have hbytes : String.utf8EncodeChar c = if c.toNat ≤ 0x7F then _ else _ := rfl
  rw [hbytes]
  by_cases hone : c.toNat ≤ 0x7F
  · exact .inl ⟨hone, if_pos hone⟩
  by_cases htwo : c.toNat ≤ 0x7FF
  · exact .inr (.inl ⟨by omega, htwo, (if_neg hone).trans (if_pos htwo)⟩)
  by_cases hthree : c.toNat ≤ 0xFFFF
  · exact .inr (.inr (.inl ⟨by omega, hthree,
      (if_neg hone).trans ((if_neg htwo).trans (if_pos hthree))⟩))
  · exact .inr (.inr (.inr ⟨by omega,
      (if_neg hone).trans ((if_neg htwo).trans (if_neg hthree))⟩))

namespace Utf8Reader

variable {read : List (Option Char)} {low high code b : Nat}

theorem step_first (hb : b < 256) : step { read } (UInt8.ofNat b) = start read b := by
  have hbyte : (UInt8.ofNat b).toNat = b := UInt8.toNat_ofNat_of_lt' hb
  simp only [step, hbyte]

theorem step_next {needed : Nat} (hb : b < 256) (hlow : low ≤ b) (hhigh : b ≤ high) :
    step { read, needed := needed + 2, low, high, code } (UInt8.ofNat b) =
      { read, needed := needed + 1, code := code * 64 + (b - 0x80) } := by
  have hbyte : (UInt8.ofNat b).toNat = b := UInt8.toNat_ofNat_of_lt' hb
  simp [step, hbyte, hlow, hhigh]

theorem step_last (hb : b < 256) (hlow : low ≤ b) (hhigh : b ≤ high) :
    step { read, needed := 1, low, high, code } (UInt8.ofNat b) =
      { read := some (Char.ofNat (code * 64 + (b - 0x80))) :: read } := by
  have hbyte : (UInt8.ofNat b).toNat = b := UInt8.toNat_ofNat_of_lt' hb
  simp [step, hbyte, hlow, hhigh]

theorem start_two (hlow : 0xC2 ≤ b) (hhigh : b ≤ 0xDF) :
    start read b = { read, needed := 1, code := b - 0xC0 } := by
  have hascii : ¬ b < 0x80 := by omega
  simp [start, hascii, hlow, hhigh]

/-- A first byte of three says at most what the second one may be. -/
theorem start_three (read : List (Option Char)) {b : Nat} (hlow : 0xE0 ≤ b) (hhigh : b ≤ 0xEF) : ∃ low high,
    start read b = { read, needed := 2, low, high, code := b - 0xE0 } ∧
      low ≤ (if b = 0xE0 then 0xA0 else 0x80) ∧ (if b = 0xED then 0x9F else 0xBF) ≤ high := by
  have hascii : ¬ b < 0x80 := by omega
  have htwo : ¬ b ≤ 0xDF := by omega
  by_cases hzero : b = 0xE0
  · subst hzero
    exact ⟨0xA0, 0xBF, rfl, by simp, by simp⟩
  by_cases hhalves : b = 0xED
  · subst hhalves
    exact ⟨0x80, 0x9F, rfl, by simp, by simp⟩
  have hone : 0xE1 ≤ b := by omega
  exact ⟨0x80, 0xBF, by simp [start, hascii, htwo, hzero, hhalves, hone, hhigh], by simp [hzero],
    by simp [hhalves]⟩

theorem start_four (read : List (Option Char)) {b : Nat} (hlow : 0xF0 ≤ b) (hhigh : b ≤ 0xF4) : ∃ low high,
    start read b = { read, needed := 3, low, high, code := b - 0xF0 } ∧
      low ≤ (if b = 0xF0 then 0x90 else 0x80) ∧ (if b = 0xF4 then 0x8F else 0xBF) ≤ high := by
  have hascii : ¬ b < 0x80 := by omega
  have htwo : ¬ b ≤ 0xDF := by omega
  have hthree : ¬ b ≤ 0xEF := by omega
  by_cases hzero : b = 0xF0
  · subst hzero
    exact ⟨0x90, 0xBF, rfl, by simp, by simp⟩
  by_cases hlast : b = 0xF4
  · subst hlast
    exact ⟨0x80, 0x8F, rfl, by simp, by simp⟩
  have hne : b ≠ 0xE0 ∧ b ≠ 0xED := by omega
  have hmiddle : 0xF1 ≤ b ∧ b ≤ 0xF3 := by omega
  exact ⟨0x80, 0xBF, by simp [start, hascii, htwo, hthree, hne, hzero, hlast, hmiddle],
    by simp [hzero], by simp [hlast]⟩

theorem foldl_step_char (read : List (Option Char)) (c : Char) :
    (String.utf8EncodeChar c).foldl step { read } = { read := some c :: read } := by
  have hlt := toNat_lt c
  have hhalf := toNat_not_surrogate c
  have hc : Char.ofNat c.toNat = c := Char.ofNat_toNat c
  obtain ⟨hone, hbytes⟩ | ⟨hone, htwo, hbytes⟩ | ⟨htwo, hthree, hbytes⟩ | ⟨hthree, hbytes⟩ :=
    utf8EncodeChar_cases c
  all_goals
    rw [hbytes]
    simp only [List.foldl_cons, List.foldl_nil]
    generalize c.toNat = v at *
  · rw [step_first (by omega), start, if_pos (by omega), hc]
  · have hsum : (v / 64 % 32 + 192 - 0xC0) * 64 + (v % 64 + 128 - 0x80) = v := by omega
    rw [step_first (by omega), start_two (by omega) (by omega),
      step_last (by omega) (by omega) (by omega), hsum, hc]
  · have hsum : ((v / 4096 % 16 + 224 - 0xE0) * 64 + (v / 64 % 64 + 128 - 0x80)) * 64 +
        (v % 64 + 128 - 0x80) = v := by omega
    have hlead : 0xE0 ≤ v / 4096 % 16 + 224 ∧ v / 4096 % 16 + 224 ≤ 0xEF := by omega
    obtain ⟨low, high, hstart, hlow, hhigh⟩ := start_three read hlead.1 hlead.2
    have hfits : low ≤ v / 64 % 64 + 128 ∧ v / 64 % 64 + 128 ≤ high := by
      split at hlow <;> split at hhigh <;> omega
    rw [step_first (by omega), hstart, step_next (by omega) hfits.1 hfits.2,
      step_last (by omega) (by omega) (by omega), hsum, hc]
  · have hsum : (((v / 262144 % 8 + 240 - 0xF0) * 64 + (v / 4096 % 64 + 128 - 0x80)) * 64 +
        (v / 64 % 64 + 128 - 0x80)) * 64 + (v % 64 + 128 - 0x80) = v := by omega
    have hlead : 0xF0 ≤ v / 262144 % 8 + 240 ∧ v / 262144 % 8 + 240 ≤ 0xF4 := by omega
    obtain ⟨low, high, hstart, hlow, hhigh⟩ := start_four read hlead.1 hlead.2
    have hfits : low ≤ v / 4096 % 64 + 128 ∧ v / 4096 % 64 + 128 ≤ high := by
      split at hlow <;> split at hhigh <;> omega
    rw [step_first (by omega), hstart, step_next (by omega) hfits.1 hfits.2,
      step_next (by omega) (by omega) (by omega), step_last (by omega) (by omega) (by omega),
      hsum, hc]

end Utf8Reader

theorem utf8_ofList (cs : List Char) :
    utf8 (String.ofList cs) = cs.flatMap String.utf8EncodeChar := by
  rw [utf8, String.toList_ofList]

theorem readUtf8_utf8 (s : String) : readUtf8 (utf8 s) = s.toList.map some := by
  suffices hall : ∀ (cs : List Char) (read : List (Option Char)),
      (cs.flatMap String.utf8EncodeChar).foldl Utf8Reader.step { read } =
        { read := (cs.map some).reverse ++ read } by
    rw [readUtf8, utf8, hall]
    simp [Utf8Reader.finish]
  intro cs
  induction cs with
  | nil => simp
  | cons c cs ih =>
    intro read
    rw [List.flatMap_cons, List.foldl_append, Utf8Reader.foldl_step_char, ih]
    simp

theorem decodeUtf8?_utf8 (s : String) : decodeUtf8? (utf8 s) = some s := by
  have hall : (s.toList.map some).all Option.isSome := by simp
  have hread : (s.toList.map some).filterMap id = s.toList := by
    rw [List.filterMap_map]
    simp
  rw [decodeUtf8?, readUtf8_utf8]
  simp only [hall, if_true, hread, String.ofList_toList]

theorem decodeUtf8_utf8 (s : String) : decodeUtf8 (utf8 s) = s := by
  rw [decodeUtf8, readUtf8_utf8, List.map_map]
  simp [Function.comp_def]

theorem replaceHalves_cons {byte : UInt8} (h : byte ≠ 0xED) (rest : Bytes) :
    replaceHalves (byte :: rest) = byte :: replaceHalves rest := by
  match rest with
  | [] => rfl
  | [_] => rfl
  | _ :: _ :: _ =>
    rw [replaceHalves]
    simp [h]

/-- Halves of surrogate pairs are no characters. -/
theorem replaceHalves_char (c : Char) (rest : Bytes) :
    replaceHalves (String.utf8EncodeChar c ++ rest) =
      String.utf8EncodeChar c ++ replaceHalves rest := by
  have hlt := toNat_lt c
  have hhalf := toNat_not_surrogate c
  have hne {b : Nat} (hb : b < 256) (h : b ≠ 0xED) : UInt8.ofNat b ≠ 0xED := by
    intro heq
    have hbyte := congrArg UInt8.toNat heq
    rw [UInt8.toNat_ofNat_of_lt' hb] at hbyte
    exact h hbyte
  obtain ⟨hone, hbytes⟩ | ⟨hone, htwo, hbytes⟩ | ⟨htwo, hthree, hbytes⟩ | ⟨hthree, hbytes⟩ :=
    utf8EncodeChar_cases c
  all_goals
    rw [hbytes]
    simp only [List.cons_append, List.nil_append]
    generalize c.toNat = v at *
    have hlast : UInt8.ofNat (v % 64 + 128) ≠ 0xED := hne (by omega) (by omega)
    have hthird : UInt8.ofNat (v / 64 % 64 + 128) ≠ 0xED := hne (by omega) (by omega)
  · rw [replaceHalves_cons (hne (by omega) (by omega))]
  · rw [replaceHalves_cons (hne (by omega) (by omega)), replaceHalves_cons hlast]
  · by_cases hlead : v / 4096 % 16 + 224 = 0xED
    · have hsecond : ¬ 0xA0 ≤ UInt8.ofNat (v / 64 % 64 + 128) := by
        rw [UInt8.le_iff_toNat_le, UInt8.toNat_ofNat_of_lt' (show v / 64 % 64 + 128 < 256 by omega)]
        change ¬ 0xA0 ≤ v / 64 % 64 + 128
        omega
      rw [replaceHalves]
      simp only [hsecond, decide_false, Bool.and_false, Bool.false_and, Bool.false_eq_true, if_false]
      rw [replaceHalves_cons hthird, replaceHalves_cons hlast]
    · rw [replaceHalves_cons (hne (by omega) hlead), replaceHalves_cons hthird,
        replaceHalves_cons hlast]
  · rw [replaceHalves_cons (hne (by omega) (by omega)),
      replaceHalves_cons (hne (by omega) (by omega)), replaceHalves_cons hthird,
      replaceHalves_cons hlast]

theorem replaceHalves_utf8 (s : String) : replaceHalves (utf8 s) = utf8 s := by
  rw [utf8]
  induction s.toList with
  | nil => rfl
  | cons c cs ih => rw [List.flatMap_cons, replaceHalves_char, ih]

end SolcDispatch.Text
