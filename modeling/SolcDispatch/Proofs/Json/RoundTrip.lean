import SolcDispatch.Proofs.Assoc
import SolcDispatch.Proofs.Json.Numbers
import SolcDispatch.Proofs.Json.Strings
import SolcDispatch.Proofs.Json.WellFormed

/-! A printed value reads back as the value. -/

namespace SolcDispatch.Json

/-- A style whose texts are JSON: a separator is its mark with spaces after it. -/
structure Style.IsPlain (style : Style) : Prop where
  item : ∃ spaces, style.itemSeparator.toList = ',' :: spaces ∧ ∀ c ∈ spaces, isSpace c
  name : ∃ spaces, style.nameSeparator.toList = ':' :: spaces ∧ ∀ c ∈ spaces, isSpace c
  float : style.float = printFloat

theorem isPlain_spaced : spaced.IsPlain :=
  ⟨⟨[' '], rfl, List.forall_mem_singleton.mpr rfl⟩,
    ⟨[' '], rfl, List.forall_mem_singleton.mpr rfl⟩, rfl⟩

theorem isPlain_compact : compact.IsPlain :=
  ⟨⟨[], rfl, List.forall_mem_nil _⟩, ⟨[], rfl, List.forall_mem_nil _⟩, rfl⟩

theorem isPlain_compactUnicode : compactUnicode.IsPlain :=
  ⟨⟨[], rfl, List.forall_mem_nil _⟩, ⟨[], rfl, List.forall_mem_nil _⟩, rfl⟩

theorem skipSpace_cons {c : Char} {rest : List Char} (h : isSpace c = false) :
    skipSpace (c :: rest) = c :: rest := by
  rw [skipSpace, List.dropWhile_cons_of_neg (by simp [h])]

theorem skipSpace_append {spaces rest : List Char} (hs : ∀ c ∈ spaces, isSpace c)
    (hrest : ∀ c ∈ rest.head?, isSpace c = false) : skipSpace (spaces ++ rest) = rest :=
  Text.dropWhile_run hs hrest

/-- Characters with which printed values begin. -/
def begins (c : Char) : Bool := c == '"' || c == '[' || c == '{' || c == '-' || c.isAlphanum

theorem ne_of_begins {c d : Char} (hc : begins c) (hd : begins d = false) : c ≠ d := by
  rintro rfl
  rw [hc] at hd
  cases hd

theorem isSpace_of_begins {c : Char} (h : begins c) : isSpace c = false := by
  simp only [isSpace, Bool.or_eq_false_iff, beq_eq_false_iff_ne]
  exact ⟨⟨⟨ne_of_begins h (by decide), ne_of_begins h (by decide)⟩, ne_of_begins h (by decide)⟩,
    ne_of_begins h (by decide)⟩

section Texts

variable {τ : Type}

theorem limit_lenient : (lenient : Dialect τ).limit = some maxDigits := rfl

/-- No word begins with a digit, and none has a digit after its first character. -/
theorem word?_of_digit {cs : List Char} {n : Nat} {c : Char} (hn : n < 2) (hc : cs[n]? = some c)
    (h : isDigit c) : (lenient : Dialect τ).word? cs = none := by
  have htexts : ∀ text ∈ (lenient : Dialect).words.map Prod.fst, ∀ n < 2,
      text[n]?.any fun c => !isDigit c := by decide
  have hall (w : List Char × Json τ) (hw : w ∈ lenient.words) :=
    htexts w.1 (List.mem_map_of_mem hw)
  rw [Dialect.word?, Option.map_eq_none_iff, List.find?_eq_none]
  intro w hw hprefix
  obtain ⟨more, rfl⟩ := List.isPrefixOf_iff_prefix.mp hprefix
  have hany := hall w hw n hn
  cases hd : w.1[n]? with
  | none =>
    rw [hd] at hany
    cases hany
  | some d =>
    rw [List.getElem?_append_left (List.getElem?_eq_some_iff.mp hd).1, hd] at hc
    cases hc
    simp [hd, h] at hany

/-- Texts of values that are neither strings nor lists nor objects. -/
def IsScalar (text : List Char) (v : Json τ) : Prop :=
  ∀ rest, Ends rest → scalar lenient (text ++ rest) = .ok (v, rest)

theorem scalar_digits {text rest : List Char} {c : Char} {more : List Char}
    (htext : text = c :: more) (hc : isDigit c) :
    (scalar lenient (text ++ rest) : Reading (Json τ)) =
      unsignedNumber (some maxDigits) false (text ++ rest) (text ++ rest) := by
  subst htext
  have hne : c ≠ '-' := by
    rintro rfl
    cases hc
  rw [scalar, word?_of_digit (n := 0) (by decide) rfl hc, limit_lenient]
  exact fun _ heq => hne (List.cons.inj heq).1

theorem scalar_minus {text rest : List Char} {c : Char} {more : List Char}
    (htext : text = c :: more) (hc : isDigit c) :
    (scalar lenient ('-' :: (text ++ rest)) : Reading (Json τ)) =
      unsignedNumber (some maxDigits) true ('-' :: (text ++ rest)) (text ++ rest) := by
  subst htext
  rw [scalar, word?_of_digit (n := 1) (by decide) rfl hc, limit_lenient]

theorem head?_toDigits (n : Nat) : ∃ c more, Nat.toDigits 10 n = c :: more ∧ isDigit c := by
  obtain ⟨c, more, htext⟩ := List.exists_cons_of_ne_nil (Nat.toDigits_ne_nil (n := n) (b := 10))
  have hmem : c ∈ Nat.toDigits 10 n := by
    rw [htext]
    exact List.mem_cons_self
  exact ⟨c, more, htext, isDigit_of_mem_toDigits hmem⟩

theorem isScalar_int {n : Int} (hn : n.natAbs < 10 ^ maxDigits) :
    IsScalar (printInt n) (.int n : Json τ) := by
  intro rest hrest
  obtain ⟨c, more, htext, hc⟩ := head?_toDigits n.natAbs
  unfold printInt
  split
  · rw [List.cons_append, scalar_minus htext hc, unsignedNumber_toDigits hn hrest]
    simp only [if_true, Except.ok.injEq, Prod.mk.injEq, Json.int.injEq, and_true]
    omega
  · rw [scalar_digits htext hc, unsignedNumber_toDigits hn hrest]
    simp only [Bool.false_eq_true, if_false, Except.ok.injEq, Prod.mk.injEq, Json.int.injEq,
      and_true]
    omega

theorem printFloat_finite (negative : Bool) (m : Nat) (e : Int) :
    printFloat (.finite negative m e) =
      Binary64.signed negative (Binary64.shortestLayout.render (Binary64.shortest m e)) := by
  rw [printFloat, Binary64.toText, Binary64.textWith, String.toList_ofList]
  · exact fun h => Binary64.noConfusion h
  · exact fun _ h => Binary64.noConfusion h

theorem isScalar_float {x : Binary64} (hx : x.WellFormed) :
    IsScalar (printFloat x) (.float x : Json τ) := by
  intro rest hrest
  cases x with
  | nan => rfl
  | infinity negative => cases negative <;> rfl
  | finite negative m e =>
    obtain ⟨c, more, htext, hc⟩ := head?_render (Binary64.shortest m e)
    rw [printFloat_finite]
    cases negative with
    | true =>
      rw [Binary64.signed, if_pos rfl, List.cons_append, scalar_minus htext hc,
        unsignedNumber_render hx hrest]
    | false =>
      rw [Binary64.signed, if_neg (by decide), scalar_digits htext hc,
        unsignedNumber_render hx hrest]

theorem isScalar_null : IsScalar "null".toList (.null : Json τ) := fun _ _ => rfl

theorem isScalar_bool (b : Bool) :
    IsScalar (if b then "true" else "false").toList (.bool b : Json τ) := by
  intro rest _
  cases b <;> rfl

def beginsScalar (c : Char) : Bool := c == '-' || c.isAlphanum

theorem beginsScalar_of_isDigit {c : Char} (h : isDigit c) : beginsScalar c := by
  rw [isDigit_iff] at h
  simp [beginsScalar, Char.isAlphanum, h]

theorem head?_printInt (n : Int) : ∃ c more, printInt n = c :: more ∧ beginsScalar c := by
  obtain ⟨c, more, htext, hc⟩ := head?_toDigits n.natAbs
  unfold printInt
  split
  · exact ⟨'-', _, rfl, by decide⟩
  · exact ⟨c, more, htext, beginsScalar_of_isDigit hc⟩

theorem head?_printFloat (x : Binary64) : ∃ c more, printFloat x = c :: more ∧ beginsScalar c := by
  cases x with
  | nan => exact ⟨'N', _, rfl, by decide⟩
  | infinity negative =>
    cases negative with
    | false => exact ⟨'I', _, rfl, by decide⟩
    | true => exact ⟨'-', _, rfl, by decide⟩
  | finite negative m e =>
    obtain ⟨c, more, htext, hc⟩ := head?_render (Binary64.shortest m e)
    rw [printFloat_finite]
    cases negative with
    | true => exact ⟨'-', _, rfl, by decide⟩
    | false => exact ⟨c, more, htext, beginsScalar_of_isDigit hc⟩

variable {style : Style} [TextLike τ]

theorem head?_printChars (hs : style.IsPlain) (v : Json τ) :
    ∃ c more, printChars style v = c :: more ∧ begins c := by
  have hscalar {text : List Char} (h : ∃ c more, text = c :: more ∧ beginsScalar c) :
      ∃ c more, text = c :: more ∧ begins c := by
    obtain ⟨c, more, htext, hc⟩ := h
    refine ⟨c, more, htext, ?_⟩
    simp only [beginsScalar, Bool.or_eq_true] at hc
    simp only [begins, Bool.or_eq_true]
    rcases hc with hc | hc
    · exact .inl (.inr hc)
    · exact .inr hc
  cases v with
  | null => exact ⟨'n', _, rfl, by decide⟩
  | bool b =>
    cases b with
    | true => exact ⟨'t', _, rfl, by decide⟩
    | false => exact ⟨'f', _, rfl, by decide⟩
  | int n =>
    rw [printChars]
    exact hscalar (head?_printInt n)
  | float x =>
    rw [printChars, hs.float]
    exact hscalar (head?_printFloat x)
  | str s => exact ⟨'"', _, by rw [printChars, printString], by decide⟩
  | arr items => exact ⟨'[', _, by rw [printChars], by decide⟩
  | obj members => exact ⟨'{', _, by rw [printChars], by decide⟩

theorem forall_head?_cons {p : Char → Prop} {c : Char} {rest : List Char} (h : p c) :
    ∀ d ∈ (c :: rest).head?, p d := by
  intro d hd
  obtain rfl := Option.some.inj hd
  exact h

theorem ends_cons {c : Char} {rest : List Char} (h : c ∈ endings) : Ends (c :: rest) :=
  forall_head?_cons h

theorem mem_endings_of_isSpace {c : Char} (h : isSpace c) : c ∈ endings := by
  simp only [isSpace, Bool.or_eq_true, beq_iff_eq] at h
  simp only [endings, List.mem_cons]
  tauto

theorem skipSpace_printChars (hs : style.IsPlain) (spaces : List Char)
    (hspaces : ∀ c ∈ spaces, isSpace c) (v : Json τ) (rest : List Char) :
    skipSpace (spaces ++ (printChars style v ++ rest)) = printChars style v ++ rest := by
  obtain ⟨c, tail, htext, hc⟩ := head?_printChars hs v
  refine skipSpace_append hspaces ?_
  rw [htext]
  exact forall_head?_cons (isSpace_of_begins hc)

theorem printItems_true (style : Style) (item : Json τ) (more : List (Json τ)) :
    printItems style true (item :: more) =
      printChars style item ++ printItems style false more := by
  rw [printItems, if_pos rfl, List.nil_append]

theorem printItems_false (style : Style) (item : Json τ) (more : List (Json τ)) :
    printItems style false (item :: more) =
      style.itemSeparator.toList ++ printItems style true (item :: more) := by
  rw [printItems_true, printItems, if_neg (by decide), List.append_assoc]

theorem printMembers_true (style : Style) (first : τ × Json τ) (more : List (τ × Json τ)) :
    printMembers style true (first :: more) =
      printString style.asciiOnly first.1 ++ (style.nameSeparator.toList ++
        (printChars style first.2 ++ printMembers style false more)) := by
  obtain ⟨name, v⟩ := first
  rw [printMembers, if_pos rfl, List.nil_append, List.append_assoc, List.append_assoc]

theorem printMembers_false (style : Style) (first : τ × Json τ) (more : List (τ × Json τ)) :
    printMembers style false (first :: more) =
      style.itemSeparator.toList ++ printMembers style true (first :: more) := by
  rw [printMembers_true, printMembers, if_neg (by decide)]
  simp only [List.append_assoc]

theorem skipSpace_printMembers (style : Style) (spaces : List Char)
    (hspaces : ∀ c ∈ spaces, isSpace c)
    (first : τ × Json τ) (more : List (τ × Json τ)) (rest : List Char) :
    skipSpace (spaces ++ (printMembers style true (first :: more) ++ rest)) =
      printMembers style true (first :: more) ++ rest := by
  refine skipSpace_append hspaces ?_
  rw [printMembers_true, printString]
  exact forall_head?_cons (by decide)

variable [DecidableEq τ]

theorem value_of_isScalar {text rest : List Char} {v : Json τ} {fuel : Nat} {c : Char}
    {more : List Char} (h : IsScalar text v) (hrest : Ends rest) (htext : text = c :: more)
    (hc : beginsScalar c) : value lenient (fuel + 1) (text ++ rest) = .ok (v, rest) := by
  have hne {d : Char} (hd : beginsScalar d = false) : c ≠ d := by
    rintro rfl
    rw [hc] at hd
    cases hd
  have hread := h rest hrest
  subst htext
  rw [List.cons_append] at hread ⊢
  rw [value.eq_def]
  dsimp only
  split
  · rename_i heq
    exact absurd (List.cons.inj heq).1 (hne (by decide))
  · rename_i heq
    exact absurd (List.cons.inj heq).1 (hne (by decide))
  · rename_i heq
    exact absurd (List.cons.inj heq).1 (hne (by decide))
  · exact hread

theorem value_quote (fuel : Nat) (cs : List Char) :
    (value lenient (fuel + 1) ('"' :: cs) : Reading (Json τ)) =
      (stringBody ('"' :: cs) [] cs).map fun read => (.str (TextLike.ofCodes read.1), read.2) := rfl

theorem value_bracket {fuel : Nat} {cs : List Char} (h : ∀ c ∈ (skipSpace cs).head?, c ≠ ']') :
    (value lenient (fuel + 1) ('[' :: cs) : Reading (Json τ)) =
      (items lenient fuel [] (skipSpace cs)).map fun read => (.arr read.1, read.2) := by
  rw [value]
  split
  · rename_i heq
    exact absurd rfl (h ']' (by rw [heq]; rfl))
  · rfl

theorem value_brace {fuel : Nat} {cs : List Char} (h : ∀ c ∈ (skipSpace cs).head?, c ≠ '}') :
    (value lenient (fuel + 1) ('{' :: cs) : Reading (Json τ)) =
      (members lenient fuel [] (skipSpace cs)).map fun read =>
        (.obj (Assoc.ofPairs read.1), read.2) := by
  rw [value]
  split
  · rename_i heq
    exact absurd rfl (h '}' (by rw [heq]; rfl))
  · rfl

theorem items_close {fuel : Nat} {read : List (Json τ)} {cs rest : List Char} {item : Json τ}
    (hitem : value lenient fuel cs = .ok (item, ']' :: rest)) :
    items lenient (fuel + 1) read cs = .ok (read.reverse ++ [item], rest) := by
  rw [items, hitem]
  simp only [skipSpace_cons (show isSpace ']' = false by decide), List.reverse_cons]

theorem items_comma {fuel : Nat} {read : List (Json τ)} {cs rest : List Char} {item : Json τ}
    (hitem : value lenient fuel cs = .ok (item, ',' :: rest)) :
    items lenient (fuel + 1) read cs = items lenient fuel (item :: read) (skipSpace rest) := by
  rw [items, hitem]
  simp only [skipSpace_cons (show isSpace ',' = false by decide)]

/-- With as much fuel as it has characters, the text of a value is read. -/
def Reads (style : Style) (v : Json τ) : Prop :=
  ∀ fuel rest, (printChars style v).length ≤ fuel → Ends rest →
    value lenient fuel (printChars style v ++ rest) = .ok (v, rest)

theorem reads_scalar {v : Json τ} {text : List Char} (hprint : printChars style v = text)
    (hscalar : IsScalar text v) (hbegins : ∃ c more, text = c :: more ∧ beginsScalar c) :
    Reads style v := by
  intro fuel rest hfuel hrest
  obtain ⟨c, more, htext, hc⟩ := hbegins
  rw [hprint, htext, List.length_cons] at hfuel
  obtain ⟨fuel, rfl⟩ := Nat.exists_eq_succ_of_ne_zero (show fuel ≠ 0 by omega)
  rw [hprint]
  exact value_of_isScalar hscalar hrest htext hc

theorem items_printItems (hs : style.IsPlain) {item : Json τ} {more : List (Json τ)}
    (hreads : ∀ v ∈ item :: more, Reads style v) {fuel : Nat} {read : List (Json τ)}
    {rest : List Char} (hfuel : (printItems style true (item :: more)).length < fuel) :
    items lenient fuel read (printItems style true (item :: more) ++ ']' :: rest) =
      .ok (read.reverse ++ item :: more, rest) := by
  obtain ⟨spaces, hsep, hspaces⟩ := hs.item
  induction more generalizing item fuel read with
  | nil =>
    obtain ⟨fuel, rfl⟩ := Nat.exists_eq_succ_of_ne_zero (Nat.ne_zero_of_lt hfuel)
    rw [printItems_true, printItems, List.append_nil] at hfuel ⊢
    exact items_close (hreads item List.mem_cons_self fuel _ (by omega) (ends_cons (by decide)))
  | cons next more ih =>
    obtain ⟨fuel, rfl⟩ := Nat.exists_eq_succ_of_ne_zero (Nat.ne_zero_of_lt hfuel)
    rw [printItems_true, printItems_false, hsep] at hfuel ⊢
    simp only [List.length_append, List.length_cons, Nat.succ_eq_add_one] at hfuel
    have hitem := hreads item List.mem_cons_self fuel
      (',' :: (spaces ++ (printItems style true (next :: more) ++ ']' :: rest)))
      (by omega) (ends_cons (by decide))
    have hskip : skipSpace (spaces ++ (printItems style true (next :: more) ++ ']' :: rest)) =
        printItems style true (next :: more) ++ ']' :: rest := by
      rw [printItems_true, List.append_assoc]
      exact skipSpace_printChars hs spaces hspaces next _
    rw [List.append_assoc, List.cons_append, List.cons_append, List.append_assoc,
      items_comma hitem, hskip,
      ih (fun v hv => hreads v (List.mem_cons_of_mem item hv)) (by omega), List.reverse_cons,
      List.append_assoc, List.singleton_append]

theorem reads_arr (hs : style.IsPlain) {vs : List (Json τ)} (h : ∀ v ∈ vs, Reads style v) :
    Reads style (.arr vs) := by
  intro fuel rest hfuel hrest
  rw [printChars] at hfuel ⊢
  simp only [List.length_append, List.length_cons, List.length_nil] at hfuel
  obtain ⟨fuel, rfl⟩ := Nat.exists_eq_succ_of_ne_zero (show fuel ≠ 0 by omega)
  rw [List.cons_append, List.append_assoc, List.singleton_append]
  cases vs with
  | nil => rfl
  | cons item more =>
    have hskip : skipSpace (printItems style true (item :: more) ++ ']' :: rest) =
        printItems style true (item :: more) ++ ']' :: rest := by
      rw [printItems_true, List.append_assoc]
      exact skipSpace_printChars hs [] (by simp) item _
    have hne : ∀ c ∈ (printItems style true (item :: more) ++ ']' :: rest).head?, c ≠ ']' := by
      obtain ⟨c, tail, htext, hc⟩ := head?_printChars hs item
      rw [printItems_true, htext]
      exact forall_head?_cons (ne_of_begins hc (by decide))
    rw [value_bracket (by rwa [hskip]), hskip, items_printItems hs h (by omega)]
    rfl

variable [LawfulTextLike τ]

theorem value_printString (asciiOnly : Bool) (s : τ) (fuel : Nat) (rest : List Char) :
    value lenient (fuel + 1) (printString asciiOnly s ++ rest) = .ok (.str s, rest) := by
  obtain ⟨units, hread, hunits⟩ := stringBody_codes asciiOnly s rest
  rw [printString, List.cons_append, List.append_assoc, List.singleton_append, value_quote, hread]
  simp only [Except.map, hunits]

theorem members_close {fuel : Nat} {read : List (τ × Json τ)} {name : τ}
    {spaces cs rest : List Char} {v : Json τ} (asciiOnly : Bool)
    (hskip : skipSpace (spaces ++ cs) = cs) (hv : value lenient fuel cs = .ok (v, '}' :: rest)) :
    members lenient (fuel + 1) read (printString asciiOnly name ++ ':' :: (spaces ++ cs)) =
      .ok (read.reverse ++ [(name, v)], rest) := by
  obtain ⟨units, hread, hunits⟩ := stringBody_codes asciiOnly name (':' :: (spaces ++ cs))
  rw [printString, List.cons_append, List.append_assoc, List.singleton_append, members, hread]
  simp only [skipSpace_cons (show isSpace ':' = false by decide), hskip, hv, hunits,
    skipSpace_cons (show isSpace '}' = false by decide), List.reverse_cons]

theorem members_comma {fuel : Nat} {read : List (τ × Json τ)} {name : τ}
    {spaces cs rest : List Char} {v : Json τ} (asciiOnly : Bool)
    (hskip : skipSpace (spaces ++ cs) = cs) (hv : value lenient fuel cs = .ok (v, ',' :: rest)) :
    members lenient (fuel + 1) read (printString asciiOnly name ++ ':' :: (spaces ++ cs)) =
      members lenient fuel ((name, v) :: read) (skipSpace rest) := by
  obtain ⟨units, hread, hunits⟩ := stringBody_codes asciiOnly name (':' :: (spaces ++ cs))
  rw [printString, List.cons_append, List.append_assoc, List.singleton_append, members, hread]
  simp only [skipSpace_cons (show isSpace ':' = false by decide), hskip, hv, hunits,
    skipSpace_cons (show isSpace ',' = false by decide)]

theorem members_printMembers (hs : style.IsPlain) {first : τ × Json τ}
    {more : List (τ × Json τ)} (hreads : ∀ m ∈ first :: more, Reads style m.2) {fuel : Nat}
    {read : List (τ × Json τ)} {rest : List Char}
    (hfuel : (printMembers style true (first :: more)).length < fuel) :
    members lenient fuel read (printMembers style true (first :: more) ++ '}' :: rest) =
      .ok (read.reverse ++ first :: more, rest) := by
  obtain ⟨spaces, hsep, hspaces⟩ := hs.item
  obtain ⟨gap, hname, hgap⟩ := hs.name
  induction more generalizing first fuel read with
  | nil =>
    obtain ⟨fuel, rfl⟩ := Nat.exists_eq_succ_of_ne_zero (Nat.ne_zero_of_lt hfuel)
    rw [printMembers_true, printMembers, List.append_nil, hname] at hfuel ⊢
    simp only [List.length_append, List.length_cons, Nat.succ_eq_add_one] at hfuel
    have hv := hreads first List.mem_cons_self fuel ('}' :: rest) (by omega)
      (ends_cons (by decide))
    rw [List.append_assoc, List.cons_append, List.cons_append, List.append_assoc,
      members_close _ (skipSpace_printChars hs gap hgap first.2 _) hv]
  | cons next more ih =>
    obtain ⟨fuel, rfl⟩ := Nat.exists_eq_succ_of_ne_zero (Nat.ne_zero_of_lt hfuel)
    rw [printMembers_true, printMembers_false, hname, hsep] at hfuel ⊢
    simp only [List.length_append, List.length_cons, Nat.succ_eq_add_one] at hfuel
    have hv := hreads first List.mem_cons_self fuel
      (',' :: (spaces ++ (printMembers style true (next :: more) ++ '}' :: rest))) (by omega)
      (ends_cons (by decide))
    simp only [List.append_assoc, List.cons_append]
    rw [members_comma _ (skipSpace_printChars hs gap hgap first.2 _) hv,
      skipSpace_printMembers style spaces hspaces,
      ih (fun m hm => hreads m (List.mem_cons_of_mem _ hm)) (by omega), List.reverse_cons,
      List.append_assoc, List.singleton_append]

theorem reads_obj (hs : style.IsPlain) {ms : List (τ × Json τ)}
    (hnodup : (ms.map Prod.fst).Nodup) (h : ∀ m ∈ ms, Reads style m.2) :
    Reads style (.obj ms) := by
  intro fuel rest hfuel hrest
  rw [printChars] at hfuel ⊢
  simp only [List.length_append, List.length_cons, List.length_nil] at hfuel
  obtain ⟨fuel, rfl⟩ := Nat.exists_eq_succ_of_ne_zero (show fuel ≠ 0 by omega)
  rw [List.cons_append, List.append_assoc, List.singleton_append]
  cases ms with
  | nil => rfl
  | cons first more =>
    have hskip := skipSpace_printMembers style [] (by simp) first more ('}' :: rest)
    rw [List.nil_append] at hskip
    have hne : ∀ c ∈ (printMembers style true (first :: more) ++ '}' :: rest).head?, c ≠ '}' := by
      rw [printMembers_true, printString]
      exact forall_head?_cons (by decide)
    rw [value_brace (by rwa [hskip]), hskip, members_printMembers hs h (by omega)]
    simp only [Except.map, List.reverse_nil, List.nil_append, Assoc.ofPairs_of_nodup hnodup]

theorem reads (hs : style.IsPlain) {v : Json τ} (hv : v.WellFormed) : Reads style v := by
  induction v using Json.nested with
  | null => exact reads_scalar rfl isScalar_null ⟨'n', _, rfl, by decide⟩
  | bool b =>
    cases b with
    | true => exact reads_scalar rfl (isScalar_bool true) ⟨'t', _, rfl, by decide⟩
    | false => exact reads_scalar rfl (isScalar_bool false) ⟨'f', _, rfl, by decide⟩
  | int n =>
    rw [WellFormed] at hv
    exact reads_scalar (by rw [printChars]) (isScalar_int hv) (head?_printInt n)
  | float x =>
    rw [WellFormed] at hv
    exact reads_scalar (by rw [printChars, hs.float]) (isScalar_float hv) (head?_printFloat x)
  | str s =>
    intro fuel rest hfuel hrest
    rw [printChars] at hfuel ⊢
    rw [printString, List.length_cons] at hfuel
    obtain ⟨fuel, rfl⟩ := Nat.exists_eq_succ_of_ne_zero (show fuel ≠ 0 by omega)
    exact value_printString style.asciiOnly s fuel rest
  | arr vs ih =>
    rw [WellFormed, wellFormedItems_iff] at hv
    exact reads_arr hs fun item hitem => ih item hitem (hv item hitem)
  | obj ms ih =>
    rw [WellFormed, wellFormedMembers_iff] at hv
    exact reads_obj hs hv.1 fun m hm => ih m hm (hv.2 m hm)

theorem parseChars_print (hs : style.IsPlain) {v : Json τ} (hv : v.WellFormed)
    {spaces : List Char} (hspaces : ∀ c ∈ spaces, isSpace c) :
    parseChars (printChars style v ++ spaces) τ = .ok v := by
  have hskip := skipSpace_printChars hs [] (by simp) v spaces
  have hends : Ends spaces :=
    fun c hc => mem_endings_of_isSpace (hspaces c (List.mem_of_mem_head? hc))
  have hread := reads hs hv (2 * (printChars style v ++ spaces).length + 2) spaces
    (by rw [List.length_append]; omega) hends
  have hend : skipSpace spaces = [] := by
    have hrun : skipSpace (spaces ++ []) = [] := skipSpace_append hspaces (by simp)
    rwa [List.append_nil] at hrun
  rw [List.nil_append] at hskip
  rw [parseChars, parseWith, hskip, hread]
  simp only [hend]

theorem parse_print (hs : style.IsPlain) {v : Json τ} (hv : v.WellFormed) :
    parse (print style v) τ = .ok v := by
  obtain ⟨c, tail, htext, hc⟩ := head?_printChars hs v
  have hread := parseChars_print hs hv (List.forall_mem_nil _)
  rw [List.append_nil] at hread
  rw [parse, print, String.toList_ofList, ← hread, htext]
  split
  · rename_i heq
    exact absurd (List.cons.inj heq).1 (ne_of_begins hc (by decide))
  · rfl

end Texts

end SolcDispatch.Json
