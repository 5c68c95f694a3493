import SolcDispatch.Proofs.Json.RoundTrip
import SolcDispatch.Proofs.Text.Utf8

/-! The bytes of a printed object read back as the object. -/

namespace SolcDispatch.Json

theorem find?_orderMarks {first : UInt8} {rest : Text.Bytes} (hzero : first ≠ 0)
    (hascii : first.toNat < 0x80) :
    (orderMarks.find? fun mark => mark.1.isPrefixOf (first :: rest)) = none := by
  -- Every mark begins with a zero or with a byte that no ASCII character has.
  have hne {mark : UInt8} (hmark : 0x80 ≤ mark.toNat) : mark ≠ first := by
    rintro rfl
    omega
  have hfe : (0xFE : UInt8) ≠ first := hne (by decide)
  have hff : (0xFF : UInt8) ≠ first := hne (by decide)
  have hef : (0xEF : UInt8) ≠ first := hne (by decide)
  simp [orderMarks, List.isPrefixOf, hzero.symm, hfe, hff, hef]

theorem decodeUnmarked?_narrow {first second : UInt8} {rest : Text.Bytes} (hzero : first ≠ 0)
    (hsecond : second ≠ 0) :
    decodeUnmarked? (first :: second :: rest) = decodeNarrow? (first :: second :: rest) := by
  unfold decodeUnmarked?
  split
  · rename_i heq
    obtain ⟨rfl, hrest⟩ := List.cons.inj heq
    obtain ⟨rfl, -⟩ := List.cons.inj hrest
    simp [hzero, hsecond]
  · rename_i heq
    obtain ⟨rfl, hrest⟩ := List.cons.inj heq
    obtain ⟨rfl, -⟩ := List.cons.inj hrest
    simp [hzero, hsecond]
  · rfl

/-- Bytes of which the first is that of an ASCII character, and the second is not zero. -/
theorem decodeBytes?_narrow {first second : UInt8} {rest : Text.Bytes} (hzero : first ≠ 0)
    (hascii : first.toNat < 0x80) (hsecond : second ≠ 0) :
    decodeBytes? (first :: second :: rest) = decodeNarrow? (first :: second :: rest) := by
  rw [decodeBytes?, find?_orderMarks hzero hascii]
  exact decodeUnmarked?_narrow hzero hsecond

theorem utf8EncodeChar_ascii {c : Char} (h : c.toNat < 0x80) :
    String.utf8EncodeChar c = [UInt8.ofNat c.toNat] := by
  rcases Text.utf8EncodeChar_cases c with ⟨-, hbytes⟩ | ⟨hone, -⟩ | ⟨htwo, -⟩ | ⟨hthree, -⟩
  · exact hbytes
  · omega
  · omega
  · omega

theorem head?_utf8EncodeChar {c : Char} (h : c ≠ '\x00') :
    ∃ byte rest, String.utf8EncodeChar c = byte :: rest ∧ byte ≠ 0 := by
  have hlt := toNat_lt c
  have hne {n : Nat} (hn : n < 256) (hzero : n ≠ 0) : UInt8.ofNat n ≠ 0 := by
    intro heq
    have hbyte := congrArg UInt8.toNat heq
    rw [UInt8.toNat_ofNat_of_lt' hn] at hbyte
    exact hzero hbyte
  have hzero : c.toNat ≠ 0 := by
    intro hzero
    have hc := Char.ofNat_toNat c
    rw [hzero] at hc
    exact h hc.symm
  rcases Text.utf8EncodeChar_cases c with ⟨hone, hbytes⟩ | ⟨hone, htwo, hbytes⟩ |
    ⟨htwo, hthree, hbytes⟩ | ⟨hthree, hbytes⟩
  · exact ⟨_, _, hbytes, hne (by omega) hzero⟩
  · exact ⟨_, _, hbytes, hne (by omega) (by omega)⟩
  · exact ⟨_, _, hbytes, hne (by omega) (by omega)⟩
  · exact ⟨_, _, hbytes, hne (by omega) (by omega)⟩

theorem decodeNarrow?_utf8 (s : String) : decodeNarrow? (Text.utf8 s) = some s := by
  rw [decodeNarrow?, Text.replaceHalves_utf8, Text.decodeUtf8?_utf8]

theorem decodeBytes?_utf8 {s : String} {first second : Char} {rest : List Char}
    (hs : s.toList = first :: second :: rest) (hzero : first ≠ '\x00')
    (hascii : first.toNat < 0x80) (hsecond : second ≠ '\x00') :
    decodeBytes? (Text.utf8 s) = some s := by
  obtain ⟨one, after, hone, hne⟩ := head?_utf8EncodeChar hzero
  obtain ⟨two, more, htwo, hnonzero⟩ := head?_utf8EncodeChar hsecond
  have hnarrow := decodeNarrow?_utf8 s
  rw [utf8EncodeChar_ascii hascii] at hone
  obtain ⟨rfl, rfl⟩ := List.cons.inj hone
  have hbytes : Text.utf8 s =
      UInt8.ofNat first.toNat :: two :: (more ++ rest.flatMap String.utf8EncodeChar) := by
    rw [Text.utf8, hs, List.flatMap_cons, List.flatMap_cons, utf8EncodeChar_ascii hascii, htwo]
    rfl
  have hfirst : (UInt8.ofNat first.toNat).toNat < 0x80 := by
    rw [UInt8.toNat_ofNat_of_lt' (show first.toNat < 256 by omega)]
    exact hascii
  rw [hbytes] at hnarrow ⊢
  rw [decodeBytes?_narrow hne hfirst hnonzero, hnarrow]

variable {τ : Type} [DecidableEq τ] [TextLike τ] [LawfulTextLike τ] {style : Style}
  {members : Members τ}

theorem parseBytes?_printChars (hs : style.IsPlain) (h : (Json.obj members).WellFormed)
    {spaces : List Char} (hspaces : ∀ c ∈ spaces, isSpace c) :
    parseBytes? (Text.utf8 (String.ofList (printChars style (.obj members) ++ spaces))) τ =
      some (.ok (.obj members)) := by
  obtain ⟨second, rest, htext, hsecond⟩ : ∃ second rest,
      printChars style (.obj members) ++ spaces = '{' :: second :: rest ∧ second ≠ '\x00' := by
    rw [printChars]
    cases members with
    | nil => exact ⟨'}', _, rfl, by decide⟩
    | cons first more => exact ⟨'"', _, by rw [printMembers_true, printString]; rfl, by decide⟩
  have hparse := parseChars_print hs h hspaces
  rw [htext] at hparse ⊢
  rw [parseBytes?, decodeBytes?_utf8 String.toList_ofList (by decide) (by decide) hsecond,
    Option.map_some, String.toList_ofList, hparse]

theorem parseBytes?_print (hs : style.IsPlain) (h : (Json.obj members).WellFormed) :
    parseBytes? (Text.utf8 (print style (.obj members))) τ = some (.ok (.obj members)) := by
  have hread := parseBytes?_printChars hs h (List.forall_mem_nil _)
  rwa [List.append_nil] at hread

theorem parseBytes?_line (hs : style.IsPlain) (h : (Json.obj members).WellFormed) :
    parseBytes? (Text.utf8 (print style (.obj members)) ++ [0x0A]) τ =
      some (.ok (.obj members)) := by
  have hspace : ∀ c ∈ ['\n'], isSpace c := List.forall_mem_singleton.mpr rfl
  have hread := parseBytes?_printChars hs h hspace
  rwa [Text.utf8_ofList, List.flatMap_append, ← Text.utf8_ofList] at hread

end SolcDispatch.Json
