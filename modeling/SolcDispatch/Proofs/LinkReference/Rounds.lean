import Mathlib.Logic.Relation
import Mathlib.Order.WellFounded
import SolcDispatch.Proofs.Decimal
import SolcDispatch.Proofs.LinkReference.Layout
import SolcDispatch.Proofs.Text.Lines

/-! The scan for placeholders in rounds. A round reports the first placeholder in what is left
of a text and goes on 20 characters after its start, so every scan comes to an end, and what it
reports stands in the text. -/

namespace SolcDispatch.LinkReference

/-- The placeholder of a name begins at a position of a text. -/
structure StandsAt (cs : List Char) (p : Nat) (name : List Char) : Prop where
  fits : p + 40 ≤ cs.length
  front : mark <+: cs.drop p
  back : mark <+: cs.drop (p + 38)
  line : '\n' ∉ (cs.drop (p + 2)).take 36
  padded : ∃ n, (cs.drop (p + 2)).take 36 = name ++ List.replicate n '_'
  trimmed : name.getLast? ≠ some '_'

theorem dropLastWhile_eq_iff {cs name : List Char} : Text.dropLastWhile (· == '_') cs = name ↔
    (∃ n, cs = name ++ List.replicate n '_') ∧ name.getLast? ≠ some '_' := by
  constructor
  · rintro rfl
    exact ⟨Text.exists_padding '_' cs, Text.getLast?_dropLastWhile_ne '_' cs⟩
  · rintro ⟨⟨n, rfl⟩, hlast⟩
    exact Piece.dropLastWhile_padding n hlast

theorem placeholder?_drop_eq_some_iff {cs name : List Char} {p : Nat} :
    placeholder? (cs.drop p) = some name ↔ StandsAt cs p name := by
  have hbody : body (cs.drop p) = (cs.drop (p + 2)).take 36 := by
    rw [body, List.drop_drop, nameWidth]
  rw [placeholder?_eq_some_iff, hbody, dropLastWhile_eq_iff, List.drop_drop]
  constructor
  · rintro ⟨hfront, hback, hline, hpadded, htrimmed⟩
    have hlen := hback.length_le
    rw [List.length_drop] at hlen
    have hmark : mark.length = 2 := rfl
    exact ⟨by omega, hfront, hback, hline, hpadded, htrimmed⟩
  · rintro ⟨-, hfront, hback, hline, hpadded, htrimmed⟩
    exact ⟨hfront, hback, hline, hpadded, htrimmed⟩

/-- Where a scan stands: how many characters it has passed, what is left of the text, and the
positions and names that it has reported. -/
structure ScanState where
  passed : Nat
  rest : List Char
  found : List (Nat × List Char)

def ScanState.start (cs : List Char) : ScanState := ⟨0, cs, []⟩

/-- The scan reports the first placeholder in what is left. -/
def Round (s t : ScanState) : Prop :=
  ∃ k name, (∀ i < k, placeholder? (s.rest.drop i) = none) ∧
    placeholder? (s.rest.drop k) = some name ∧
    t = ⟨s.passed + k + placeholderBytes, s.rest.drop (k + placeholderBytes),
      s.found ++ [(s.passed + k, name)]⟩

abbrev Rounds := Relation.ReflTransGen Round

def ScanState.IsOver (s : ScanState) : Prop := ∀ i, placeholder? (s.rest.drop i) = none

def report (found : Nat × List Char) : String × LinkReference :=
  (String.ofList found.2, ⟨found.1 / 2, placeholderBytes⟩)

variable {cs : List Char} {s t u : ScanState}

theorem isOver_or_round (s : ScanState) : s.IsOver ∨ ∃ t, Round s t := by
  by_cases hover : s.IsOver
  · exact .inl hover
  · have hfirst : ∃ k, placeholder? (s.rest.drop k) ≠ none := not_forall.mp hover
    obtain ⟨name, hname⟩ := Option.ne_none_iff_exists'.mp (Nat.find_spec hfirst)
    refine .inr ⟨_, Nat.find hfirst, name, fun i hi => ?_, hname, rfl⟩
    exact not_not.mp (Nat.find_min hfirst hi)

theorem ScanState.IsOver.not_round (h : s.IsOver) : ¬ Round s t := by
  rintro ⟨k, name, -, hname, -⟩
  rw [h k] at hname
  cases hname

theorem Round.unique (ht : Round s t) (hu : Round s u) : t = u := by
  obtain ⟨k, name, hbefore, hname, rfl⟩ := ht
  obtain ⟨l, other, hbefore', hother, rfl⟩ := hu
  obtain hlt | rfl | hlt := Nat.lt_trichotomy k l
  · rw [hbefore' k hlt] at hname
    cases hname
  · rw [hname] at hother
    cases hother
    rfl
  · rw [hbefore l hlt] at hother
    cases hother

theorem Round.length_add_le (h : Round s t) :
    t.rest.length + placeholderBytes ≤ s.rest.length := by
  obtain ⟨k, name, -, hname, rfl⟩ := h
  have hfits := (placeholder?_drop_eq_some_iff.mp hname).fits
  rw [List.length_drop, placeholderBytes]
  omega

theorem wellFounded_round : WellFounded fun t s => Round s t := by
  refine (InvImage.wf (fun s : ScanState => s.rest.length) Nat.lt_wfRel.wf).mono fun t s h => ?_
  have hlen := h.length_add_le
  simp only [placeholderBytes] at hlen
  change t.rest.length < s.rest.length
  omega

theorem Round.next_eq (h : Round s t) (hs : Rounds s u) : u = s ∨ Rounds t u := by
  obtain rfl | ⟨v, hv, hrest⟩ := Relation.ReflTransGen.cases_head hs
  · exact .inl rfl
  · exact .inr (h.unique hv ▸ hrest)

/-- A scan comes to one end, whatever rounds of it are done. -/
theorem exists_isOver (s : ScanState) : ∃ last, last.IsOver ∧ ∀ t, Rounds s t → Rounds t last := by
  induction s using wellFounded_round.induction with
  | h s ih =>
    obtain hover | ⟨next, hnext⟩ := isOver_or_round s
    · refine ⟨s, hover, fun t ht => ?_⟩
      obtain rfl | ⟨u, hu, -⟩ := Relation.ReflTransGen.cases_head ht
      · exact .refl
      · exact absurd hu hover.not_round
    · obtain ⟨last, hlast, hreach⟩ := ih next hnext
      refine ⟨last, hlast, fun t ht => ?_⟩
      obtain rfl | ht := hnext.next_eq ht
      · exact .head hnext (hreach next .refl)
      · exact hreach t ht

theorem Round.scan_eq (h : Round s t) : s.found.map report ++ scan 0 s.passed s.rest =
    t.found.map report ++ scan 0 t.passed t.rest := by
  obtain ⟨k, name, hbefore, hname, rfl⟩ := h
  rw [scan_first s.passed hbefore hname, List.map_append, List.append_assoc]
  rfl

theorem Rounds.scan_eq (h : Rounds s t) : s.found.map report ++ scan 0 s.passed s.rest =
    t.found.map report ++ scan 0 t.passed t.rest := by
  induction h with
  | refl => rfl
  | tail _ hround ih => exact ih.trans hround.scan_eq

theorem ScanState.IsOver.scan_eq_nil (h : s.IsOver) (offset : Nat) : scan 0 offset s.rest = [] := by
  have hnone := scan_of_none (k := s.rest.length) offset fun i _ => h i
  rw [hnone, List.drop_length, scan]

theorem find_eq_of_rounds {code : String} (h : Rounds (.start code.toList) s) (hover : s.IsOver) :
    find code = byLibrary (s.found.map report) := by
  have hscan := Rounds.scan_eq h
  rw [hover.scan_eq_nil, List.append_nil] at hscan
  rw [find_eq_byLibrary, ← hscan]
  rfl

/-- What the rounds so far have reported of a text. A placeholder that they passed and did not
report begins in the first half of one that they did. -/
structure Sound (cs : List Char) (s : ScanState) : Prop where
  rest_eq : s.rest = cs.drop s.passed
  standsAt : ∀ f ∈ s.found, StandsAt cs f.1 f.2
  apart : s.found.Pairwise fun f g => f.1 + 20 ≤ g.1
  behind : ∀ f ∈ s.found, f.1 + 20 ≤ s.passed
  missed : ∀ p name, StandsAt cs p name → p < s.passed → ∃ f ∈ s.found, f.1 ≤ p ∧ p < f.1 + 20

theorem sound_start (cs : List Char) : Sound cs (.start cs) where
  rest_eq := rfl
  standsAt := List.forall_mem_nil _
  apart := .nil
  behind := List.forall_mem_nil _
  missed _ _ _ h := absurd h (Nat.not_lt_zero _)

theorem Sound.round (hs : Sound cs s) (h : Round s t) : Sound cs t := by
  obtain ⟨k, name, hbefore, hname, rfl⟩ := h
  rw [hs.rest_eq] at hbefore hname
  simp only [List.drop_drop] at hbefore hname
  have hat := placeholder?_drop_eq_some_iff.mp hname
  refine ⟨?_, ?_, ?_, ?_, fun p other hp hlt => ?_⟩
  · rw [hs.rest_eq, List.drop_drop, Nat.add_assoc]
  · exact List.forall_mem_append.mpr ⟨hs.standsAt, List.forall_mem_singleton.mpr hat⟩
  · refine List.pairwise_append.mpr ⟨hs.apart, List.pairwise_singleton _ _, fun f hf => ?_⟩
    have hbehind := hs.behind f hf
    exact List.forall_mem_singleton.mpr (by dsimp only; omega)
  · refine List.forall_mem_append.mpr ⟨fun f hf => ?_, List.forall_mem_singleton.mpr ?_⟩
    · have hbehind := hs.behind f hf
      dsimp only
      omega
    · exact Nat.le_refl _
  · dsimp only [placeholderBytes] at hlt
    by_cases hpassed : p < s.passed
    · obtain ⟨f, hf, hnear⟩ := hs.missed p other hp hpassed
      exact ⟨f, List.mem_append_left _ hf, hnear⟩
    · by_cases hskipped : p < s.passed + k
      · have hnone := hbefore (p - s.passed) (by omega)
        rw [show s.passed + (p - s.passed) = p by omega,
          placeholder?_drop_eq_some_iff.mpr hp] at hnone
        cases hnone
      · exact ⟨(s.passed + k, name), by simp, by dsimp only; omega, by dsimp only; omega⟩

theorem Sound.rounds (hs : Sound cs s) (h : Rounds s t) : Sound cs t := by
  induction h with
  | refl => exact hs
  | tail _ hround ih => exact ih.round hround

/-- No placeholder is left behind at the end. -/
theorem Sound.exists_of_isOver (hs : Sound cs s) (hover : s.IsOver) {p : Nat} {name : List Char}
    (hp : StandsAt cs p name) : ∃ f ∈ s.found, f.1 ≤ p ∧ p < f.1 + 20 := by
  refine hs.missed p name hp ?_
  by_contra hle
  have hnone := hover (p - s.passed)
  rw [hs.rest_eq, List.drop_drop, show s.passed + (p - s.passed) = p by omega,
    placeholder?_drop_eq_some_iff.mpr hp] at hnone
  cases hnone

/-- Every place of a library is one of its placeholders in the text, and later ones start later. -/
structure ReportedIn (cs : List Char) (name : String) (places : List LinkReference) : Prop where
  length_eq : ∀ r ∈ places, r.length = 20
  standsAt : ∀ r ∈ places, ∃ p, StandsAt cs p name.toList ∧ r.start = p / 2
  inside : ∀ r ∈ places, 2 * (r.start + 20) ≤ cs.length
  increasing : places.Pairwise fun r s => r.start < s.start

theorem byLibrary_map_report {entry : String × List LinkReference}
    {found : List (Nat × List Char)} (h : entry ∈ byLibrary (found.map report)) :
    entry.2 =
      (found.filter fun f => String.ofList f.2 == entry.1).map fun f => (report f).2 := by
  obtain ⟨name, -, rfl⟩ := List.mem_map.mp h
  rw [List.filter_map, List.map_map]
  rfl

theorem Sound.reportedIn (hs : Sound cs s) {entry : String × List LinkReference}
    (h : entry ∈ byLibrary (s.found.map report)) : ReportedIn cs entry.1 entry.2 := by
  have hplace : ∀ r ∈ entry.2, r.length = 20 ∧
      ∃ p, StandsAt cs p entry.1.toList ∧ r.start = p / 2 := by
    intro r hr
    rw [byLibrary_map_report h] at hr
    obtain ⟨f, hf, rfl⟩ := List.mem_map.mp hr
    obtain ⟨hf, hname⟩ := List.mem_filter.mp hf
    rw [← beq_iff_eq.mp hname, String.toList_ofList]
    exact ⟨rfl, f.1, hs.standsAt f hf, rfl⟩
  refine ⟨fun r hr => (hplace r hr).1, fun r hr => (hplace r hr).2, fun r hr => ?_, ?_⟩
  · obtain ⟨-, p, hp, hstart⟩ := hplace r hr
    have hfits := hp.fits
    omega
  · rw [byLibrary_map_report h, List.pairwise_map]
    refine (hs.apart.filter _).imp fun {f g} hapart => ?_
    change f.1 / 2 < g.1 / 2
    omega

/-- Every scan ends, with the same result whatever rounds of it are done first. What it reports are
placeholders of the text, 20 characters or more apart, and each placeholder that it does not report
begins less than 20 characters after one that it does. -/
theorem scan_ends_sound (code : String) : WellFounded (fun t s => Round s t) ∧ ∃ last,
    last.IsOver ∧ (∀ s, Rounds (.start code.toList) s → Rounds s last) ∧
    find code = byLibrary (last.found.map report) ∧
    (∀ f ∈ last.found, StandsAt code.toList f.1 f.2) ∧
    last.found.Pairwise (fun f g => f.1 + 20 ≤ g.1) ∧
    (∀ p name, StandsAt code.toList p name → ∃ f ∈ last.found, f.1 ≤ p ∧ p < f.1 + 20) ∧
    ∀ entry ∈ find code, ReportedIn code.toList entry.1 entry.2 := by
  obtain ⟨last, hover, hreach⟩ := exists_isOver (.start code.toList)
  have hrounds := hreach _ .refl
  have hsound := (sound_start code.toList).rounds hrounds
  have hfind := find_eq_of_rounds hrounds hover
  refine ⟨wellFounded_round, last, hover, hreach, hfind, hsound.standsAt, hsound.apart,
    fun p name => hsound.exists_of_isOver hover, fun entry hentry => ?_⟩
  rw [hfind] at hentry
  exact hsound.reportedIn hentry

/-- A run of marks holds placeholders that overlap, at odd positions here. The scan reports each
20th of them. -/
theorem scan_ends_sound_run_of_marks :
    let code := String.ofList ('a' :: List.replicate 61 '_')
    find code = [("", [⟨0, 20⟩, ⟨10, 20⟩])] ∧
      ReportedIn code.toList "" [⟨0, 20⟩, ⟨10, 20⟩] ∧
      StandsAt code.toList 2 [] ∧ ∃ last, Rounds (.start code.toList) last ∧ last.IsOver ∧
        ∃ f ∈ last.found, f.1 ≤ 2 ∧ 2 < f.1 + 20 := by
  intro code
  have hfind : find code = [("", [⟨0, 20⟩, ⟨10, 20⟩])] := by
    rw [find_eq_byLibrary, String.toList_ofList]
    decide
  have hat : StandsAt code.toList 2 [] := by
    rw [← placeholder?_drop_eq_some_iff, String.toList_ofList]
    decide
  obtain ⟨-, last, hover, hreach, -, -, -, hmissed, hreported⟩ := scan_ends_sound code
  have hentry : ("", [⟨0, 20⟩, ⟨10, 20⟩]) ∈ find code := by simp [hfind]
  exact ⟨hfind, hreported _ hentry, hat, last, hreach _ .refl, hover, hmissed 2 [] hat⟩

end SolcDispatch.LinkReference
