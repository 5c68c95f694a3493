import SolcDispatch.Legacy.Prepare

/-! Seeds are smaller than the document that names them, so compiling seeds before
their document comes to an end. -/

namespace SolcDispatch.Legacy

theorem sizeOf_lt_of_get? {entries : Json.Members} {name : String} {value : Json}
    (h : Assoc.get? entries name = some value) : sizeOf value < sizeOf entries := by
  induction entries with
  | nil => simp [Assoc.get?] at h
  | cons entry rest ih =>
    obtain ⟨key, old⟩ := entry
    simp only [Assoc.get?] at h
    split at h
    · simp only [Option.some.injEq] at h
      subst h
      simp only [List.cons.sizeOf_spec, Prod.mk.sizeOf_spec]
      omega
    · have := ih h
      simp only [List.cons.sizeOf_spec, Prod.mk.sizeOf_spec]
      omega

theorem sizeOf_filter_le (p : String × Json → Bool) (entries : Json.Members) :
    sizeOf (entries.filter p) ≤ sizeOf entries := by
  induction entries with
  | nil => simp
  | cons entry rest ih =>
    rw [List.filter_cons]
    split <;> simp only [List.cons.sizeOf_spec] <;> omega

theorem sizeOf_checkSettings_le {value : Option Json} {settings : Json.Members} {n : Nat}
    (hn : 1 ≤ n) (hv : ∀ v, value = some v → sizeOf v ≤ n)
    (h : StandardInput.checkSettings value = .ok settings) : sizeOf settings ≤ n := by
  unfold StandardInput.checkSettings at h
  split at h
  · cases h; simpa using hn
  · cases h; simpa using hn
  · cases h
    have := hv (.obj settings) rfl
    simp only [Json.obj.sizeOf_spec] at this
    omega
  · cases h

/-- The settings of a document are smaller than the value it is read from. -/
theorem sizeOf_settings_lt {raw : Json} {document : StandardInput}
    (h : StandardInput.parse raw = .ok document) : sizeOf document.settings < sizeOf raw := by
  unfold StandardInput.parse StandardInput.check at h
  split at h
  · rename_i members
    dsimp only at h
    split at h
    · rename_i language sources settings hl hs hset
      cases h
      have : sizeOf settings ≤ sizeOf members := by
        refine sizeOf_checkSettings_le ?_ ?_ hset
        · cases members <;> simp [Nat.add_assoc]
        · intro v hv
          exact Nat.le_of_lt (sizeOf_lt_of_get? hv)
      simp only [Json.obj.sizeOf_spec]
      omega
    · cases h
  · cases h

theorem sizeOf_readSeeds_lt {index : Nat} {raws : List Json} {seeds : List StandardInput}
    (h : readSeeds index raws = .ok seeds) {seed : StandardInput} (hs : seed ∈ seeds) :
    sizeOf seed.settings < sizeOf raws := by
  induction raws generalizing index seeds with
  | nil =>
    cases h
    simp at hs
  | cons raw rest ih =>
    unfold readSeeds at h
    split at h
    · cases h
    · rename_i document hd
      cases hr : readSeeds (index + 1) rest with
      | error failure => simp [hr, Except.map] at h
      | ok others =>
        simp only [hr, Except.map, Except.ok.injEq] at h
        subst h
        rcases List.mem_cons.mp hs with rfl | hm
        · have h1 := sizeOf_settings_lt hd
          have h2 := sizeOf_filter_le (fun e => !([StandardInput.key "modelChecker"].contains e.1))
            document.settings
          simp only [StandardInput.withoutModelChecker, Assoc.without, List.cons.sizeOf_spec]
          omega
        · have := ih hr hm
          simp only [List.cons.sizeOf_spec]
          omega

theorem sizeOf_seeds_le (document : StandardInput) :
    sizeOf document.seeds ≤ sizeOf document.settings := by
  unfold StandardInput.seeds
  split
  · rename_i seeds h
    have := sizeOf_lt_of_get? h
    simp only [Json.arr.sizeOf_spec] at this
    omega
  · cases document.settings <;> simp [Nat.add_assoc]

/-- Seeds are nested less deeply than the document that names them. -/
theorem sizeOf_seed_lt {capability : Capability} {document : StandardInput} {prepared : Prepared}
    (h : prepare capability document = .ok prepared) {seed : StandardInput}
    (hs : seed ∈ prepared.seeds) : sizeOf seed.settings < sizeOf document.settings := by
  unfold prepare at h
  cases hc : contents document.sources with
  | error failure => simp [hc, bind, Except.bind] at h
  | ok sources =>
    cases hk : checkSources capability sources with
    | error failure => simp [hc, hk, bind, Except.bind] at h
    | ok _ =>
      cases hr : readSeeds 0 document.seeds with
      | error failure => simp [hc, hk, hr, bind, Except.bind] at h
      | ok seeds =>
        simp only [hc, hk, hr, bind, Except.bind, pure, Except.pure, Except.ok.injEq] at h
        subst h
        exact Nat.lt_of_lt_of_le (sizeOf_readSeeds_lt hr hs) (sizeOf_seeds_le document)

end SolcDispatch.Legacy
