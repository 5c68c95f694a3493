import Mathlib.Order.Defs.Unbundled
import SolcDispatch.Proofs.Version.Precedence
import SolcDispatch.Proofs.Version.RoundTrip

/-! The comparisons of versions tell one strict weak order of releases. Of a list of native
builds a floor keeps what is not below it in that order, so a lower floor keeps no less. -/

namespace SolcDispatch.CompilerVersion

variable {a b c floor low : CompilerVersion} {platform canonical : String} {lines : List String}
  {test : CompilerVersion → CompilerVersion → Bool}

/-- Versions that differ in their builds alone. -/
structure SameRelease (a b : CompilerVersion) : Prop extends SameCore a b where
  prerelease : a.prerelease = b.prerelease

/-- Of two versions the first is older, or the second is, or both are the same release, and
no two of these hold. -/
inductive Stands (a b : CompilerVersion) : Prop
  | older (h : a.isBefore b = true) (hnewer : b.isBefore a = false) (hsame : ¬ SameRelease a b)
  | newer (h : b.isBefore a = true) (holder : a.isBefore b = false) (hsame : ¬ SameRelease a b)
  | same (h : SameRelease a b) (holder : a.isBefore b = false) (hnewer : b.isBefore a = false)

def comparisons : List (CompilerVersion → CompilerVersion → Bool) :=
  [isBefore, isAtMost, isAfter, isAtLeast]

/-- What the comparisons of three versions have to do with one another. -/
structure Compared (a b c : CompilerVersion) : Prop where
  stands : Stands a b
  isBefore_iff : a.isBefore b = true ↔ Before (· < ·) a b
  isAfter_eq : a.isAfter b = b.isBefore a
  isAtMost_eq : a.isAtMost b = !a.isAfter b
  isAtLeast_eq : a.isAtLeast b = !a.isBefore b
  isAtMost_iff : a.isAtMost b = true ↔ a.isBefore b = true ∨ SameRelease a b
  isAtLeast_iff : a.isAtLeast b = true ↔ a.isAfter b = true ∨ SameRelease a b
  trans : ∀ test ∈ comparisons, test a b = true → test b c = true → test a c = true
  builds : ∀ test ∈ comparisons, ∀ x y, test { a with build := x } { b with build := y } = test a b
  release : SameCore a b → a.prerelease ≠ none → b.prerelease = none → a.isBefore b = true

/-- What a floor keeps of a list of native builds. -/
structure KeepsFrom (platform : String) (lines : List String) (floor : CompilerVersion) :
    Prop where
  mem_iff : ∀ canonical, canonical ∈ Index.native platform floor lines ↔ ∃ line ∈ lines, ∃ v,
    Index.Names (Artifact.nativeStart platform) "" line v ∧ v.isAtLeast floor = true ∧
      v.canonical = canonical
  isAtLeast : ∀ canonical ∈ Index.native platform floor lines, ∃ v,
    parse canonical = .ok v ∧ v.isAtLeast floor = true
  lower : ∀ low, low.isAtMost floor = true →
    ∀ canonical ∈ Index.native platform floor lines, canonical ∈ Index.native platform low lines

theorem order_eq_eq_iff : order a b = .eq ↔ SameRelease a b := by
  simp only [order, Ordering.then_eq_eq, compare_eq_iff_eq]
  constructor
  · rintro ⟨hmajor, hminor, hpatch, hnone, htext⟩
    refine ⟨⟨hmajor, hminor, hpatch⟩, ?_⟩
    -- The key of an absent prerelease has the text of an empty one, but not its mark.
    cases ha : a.prerelease <;> cases hb : b.prerelease <;> simp_all
  · rintro ⟨⟨hmajor, hminor, hpatch⟩, hprerelease⟩
    rw [hprerelease]
    exact ⟨hmajor, hminor, hpatch, rfl, rfl⟩

theorem isAfter_eq_isBefore (a b : CompilerVersion) : a.isAfter b = b.isBefore a := by
  have hswap : order a b = (order b a).swap := Std.OrientedCmp.eq_swap
  rw [isAfter, isBefore, hswap]
  cases order b a <;> rfl

theorem stands (a b : CompilerVersion) : Stands a b := by
  have hnewer := isAfter_eq_isBefore a b
  have hsame := order_eq_eq_iff (a := a) (b := b)
  unfold isAfter at hnewer
  cases h : order a b with
  | lt =>
    rw [h] at hnewer hsame
    exact .older (by rw [isBefore, h]; rfl) hnewer.symm fun hs => absurd (hsame.mpr hs) (by decide)
  | eq =>
    rw [h] at hnewer hsame
    exact .same (hsame.mp rfl) (by rw [isBefore, h]; rfl) hnewer.symm
  | gt =>
    rw [h] at hnewer hsame
    exact .newer hnewer.symm (by rw [isBefore, h]; rfl) fun hs => absurd (hsame.mpr hs) (by decide)

theorem incomparable_iff : ¬ a.isBefore b = true ∧ ¬ b.isBefore a = true ↔ SameRelease a b := by
  cases stands a b with
  | older h _ hsame => exact iff_of_false (fun hnot => hnot.1 h) hsame
  | newer h _ hsame => exact iff_of_false (fun hnot => hnot.2 h) hsame
  | same h holder hnewer => exact iff_of_true (by simp [holder, hnewer]) h

theorem SameRelease.trans (hab : SameRelease a b) (hbc : SameRelease b c) : SameRelease a c :=
  order_eq_eq_iff.mp
    (Std.TransCmp.eq_trans (order_eq_eq_iff.mpr hab) (order_eq_eq_iff.mpr hbc))

theorem isBefore_trans (hab : a.isBefore b = true) (hbc : b.isBefore c = true) :
    a.isBefore c = true := by
  rw [isBefore, beq_iff_eq] at hab hbc ⊢
  exact Std.TransCmp.lt_trans hab hbc

theorem isStrictWeakOrder_isBefore :
    IsStrictWeakOrder CompilerVersion fun a b => a.isBefore b = true where
  irrefl _ h := (incomparable_iff.mpr (order_eq_eq_iff.mp Std.ReflCmp.compare_self)).1 h
  trans _ _ _ := isBefore_trans
  incomp_trans _ _ _ hab hbc :=
    incomparable_iff.mpr ((incomparable_iff.mp hab).trans (incomparable_iff.mp hbc))

theorem isAtLeast_iff_not_isBefore : a.isAtLeast b = true ↔ a.isBefore b = false := by
  change (!a.isBefore b) = true ↔ _
  rw [Bool.not_eq_true']

theorem isAtMost_eq_isAtLeast (a b : CompilerVersion) : a.isAtMost b = b.isAtLeast a := by
  change (!a.isAfter b) = !b.isBefore a
  rw [isAfter_eq_isBefore]

/-- The other comparisons are those of the order and of its negation, turned round or not. -/
theorem trans_of_mem_comparisons (htest : test ∈ comparisons) (hab : test a b = true)
    (hbc : test b c = true) : test a c = true := by
  simp only [comparisons, List.mem_cons, List.not_mem_nil, or_false] at htest
  rcases htest with rfl | rfl | rfl | rfl
  · exact isBefore_trans hab hbc
  · rw [isAtMost_eq_isAtLeast] at hab hbc ⊢
    exact isAtLeast_trans hbc hab
  · rw [isAfter_eq_isBefore] at hab hbc ⊢
    exact isBefore_trans hbc hab
  · exact isAtLeast_trans hab hbc

theorem isAtLeast_iff_isAfter_or : a.isAtLeast b = true ↔ a.isAfter b = true ∨ SameRelease a b := by
  rw [isAfter_eq_isBefore, isAtLeast_iff_not_isBefore]
  cases stands a b with
  | older h hnewer hsame => simp [h, hnewer, hsame]
  | newer h holder _ => simp [h, holder]
  | same h holder _ => simp [h, holder]

theorem SameRelease.symm (h : SameRelease a b) : SameRelease b a :=
  ⟨h.toSameCore.symm, h.prerelease.symm⟩

theorem isAtMost_iff_isBefore_or : a.isAtMost b = true ↔ a.isBefore b = true ∨ SameRelease a b := by
  rw [isAtMost_eq_isAtLeast, isAtLeast_iff_isAfter_or, isAfter_eq_isBefore]
  exact or_congr_right ⟨SameRelease.symm, SameRelease.symm⟩

theorem compared (a b c : CompilerVersion) : Compared a b c where
  stands := stands a b
  isBefore_iff := isBefore_iff
  isAfter_eq := isAfter_eq_isBefore a b
  isAtMost_eq := rfl
  isAtLeast_eq := rfl
  isAtMost_iff := isAtMost_iff_isBefore_or
  isAtLeast_iff := isAtLeast_iff_isAfter_or
  trans _ htest := trans_of_mem_comparisons htest
  builds test htest x y := by
    simp only [comparisons, List.mem_cons, List.not_mem_nil, or_false] at htest
    rcases htest with rfl | rfl | rfl | rfl <;> rfl
  release hcore ha hb := by
    obtain ⟨p, hp⟩ := Option.ne_none_iff_exists'.mp ha
    exact CompilerVersion.isBefore_iff.mpr (.release hcore hp hb)

theorem mem_native_iff_isAtLeast : canonical ∈ Index.native platform floor lines ↔
    ∃ line ∈ lines, ∃ v, Index.Names (Artifact.nativeStart platform) "" line v ∧
      v.isAtLeast floor = true ∧ v.canonical = canonical := by
  simp only [Index.mem_native_iff, isAtLeast_iff_not_isBefore]

theorem keepsFrom (platform : String) (lines : List String) (floor : CompilerVersion) :
    KeepsFrom platform lines floor where
  mem_iff _ := mem_native_iff_isAtLeast
  isAtLeast canonical hkept := by
    obtain ⟨_, _, v, hnames, hfloor, rfl⟩ := mem_native_iff_isAtLeast.mp hkept
    exact ⟨v, parse?_eq_some_iff.mp hnames.wellFormed.parse?_canonical, hfloor⟩
  lower low hlow canonical hkept := by
    rw [isAtMost_eq_isAtLeast] at hlow
    obtain ⟨line, hline, v, hnames, hfloor, hv⟩ := mem_native_iff_isAtLeast.mp hkept
    exact mem_native_iff_isAtLeast.mpr
      ⟨line, hline, v, hnames, isAtLeast_trans hfloor hlow, hv⟩

/-- The four comparisons of any versions tell one strict weak order, whose ties are versions
that differ in their builds alone, and a floor of native builds is one place in that order. -/
theorem comparisons_tell_one_order :
    IsStrictWeakOrder CompilerVersion (fun a b => a.isBefore b = true) ∧
    (∀ a b c : CompilerVersion, Compared a b c) ∧
    ∀ platform lines floor, KeepsFrom platform lines floor :=
  ⟨isStrictWeakOrder_isBefore, compared, keepsFrom⟩

/-- An empty prerelease is the least of its numbers, and an absent one is none. -/
theorem comparisons_tell_empty_prerelease_first :
    let least : CompilerVersion := ⟨0, 6, 0, some "", some "commit.1"⟩
    let alpha : CompilerVersion := ⟨0, 6, 0, some "alpha", none⟩
    let release : CompilerVersion := ⟨0, 6, 0, none, some "commit.2"⟩
    let lines := ["solc-linux-amd64-v0.5.17", " solc-linux-amd64-v0.6.0+commit.2 "]
    least.isBefore alpha = true ∧ alpha.isBefore release = true ∧ least.isBefore release = true ∧
      least.isAtMost release = true ∧
      "v0.6.0+commit.2" ∈ Index.native "linux-amd64" release lines ∧
      "v0.6.0+commit.2" ∈ Index.native "linux-amd64" least lines := by
  intro least alpha release lines
  obtain ⟨-, hcompared, hfloor⟩ := comparisons_tell_one_order
  have hleast : least.isBefore alpha = true := by decide
  have halpha : alpha.isBefore release = true :=
    (hcompared alpha release alpha).release ⟨rfl, rfl, rfl⟩ nofun rfl
  have hrelease : least.isBefore release = true :=
    (hcompared least alpha release).trans _ (.head _) hleast halpha
  have hlow : least.isAtMost release = true :=
    (hcompared least release alpha).isAtMost_iff.mpr (.inl hrelease)
  have hkept : "v0.6.0+commit.2" ∈ Index.native "linux-amd64" release lines := by decide
  exact ⟨hleast, halpha, hrelease, hlow, hkept,
    (hfloor "linux-amd64" lines release).lower least hlow _ hkept⟩

end SolcDispatch.CompilerVersion
