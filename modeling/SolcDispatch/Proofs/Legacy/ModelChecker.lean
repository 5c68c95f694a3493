import SolcDispatch.Proofs.StandardInput.ModelChecker
import SolcDispatch.Proofs.StandardInput.NormalForm

/-! Compilations with a legacy build of documents that differ only in settings of the model
checker, their own or those of seeds at any depth. The same calls are made and the same fails;
what differs at most is what the metadata of a result record of the seeds. -/

namespace SolcDispatch

namespace Run

variable {σ α β γ δ : Type} {R : α → β → Prop} {S : γ → δ → Prop}

/-- Two runs that come to the same progress, and to values in the given relation or to the same
stop. -/
def Agree (R : α → β → Prop) : Except Stop α × Progress σ → Except Stop β × Progress σ → Prop
  | (.ok a, after), (.ok b, later) => after = later ∧ R a b
  | (.error stop, after), (.error other, later) => after = later ∧ stop = other
  | _, _ => False

theorem Agree.bind {run : Run σ α} {other : Run σ β} {next : α → Run σ γ} {follow : β → Run σ δ}
    {start : Progress σ} (h : Agree R (run start) (other start))
    (hnext : ∀ a b, R a b → ∀ start, Agree S (next a start) (follow b start)) :
    Agree S ((run >>= next) start) ((other >>= follow) start) := by
  rw [bind_apply, bind_apply]
  rcases hrun : run start with ⟨_ | a, after⟩ <;>
    rcases hother : other start with ⟨_ | b, later⟩ <;> rw [hrun, hother] at h
  · exact h
  · exact h.elim
  · exact h.elim
  · obtain ⟨rfl, hab⟩ := h
    exact hnext a b hab after

theorem Agree.mono {T : α → β → Prop} {x : Except Stop α × Progress σ}
    {y : Except Stop β × Progress σ} (h : Agree R x y) (hRT : ∀ a b, R a b → T a b) :
    Agree T x y := by
  rcases x with ⟨_ | a, after⟩ <;> rcases y with ⟨_ | b, later⟩
  · exact h
  · exact h.elim
  · exact h.elim
  · exact h.imp id (hRT a b)

theorem agree_self (run : Run σ α) (start : Progress σ) : Agree Eq (run start) (run start) := by
  rcases run start with ⟨_ | a, after⟩
  · exact ⟨rfl, rfl⟩
  · exact ⟨rfl, rfl⟩

theorem agree_pure {a : α} {b : β} (h : R a b) (start : Progress σ) :
    Agree R ((pure a : Run σ α) start) ((pure b : Run σ β) start) := ⟨rfl, h⟩

/-- Two results that are both errors, and then the same, or both values in the relation. -/
def AgreeOn (R : α → β → Prop) (x : Except Failure α) (y : Except Failure β) : Prop :=
  (∃ failure, x = .error failure ∧ y = .error failure) ∨ ∃ a b, x = .ok a ∧ y = .ok b ∧ R a b

theorem AgreeOn.lift {x : Except Failure α} {y : Except Failure β} (h : AgreeOn R x y)
    (start : Progress σ) :
    Agree R ((Run.lift x : Run σ α) start) ((Run.lift y : Run σ β) start) := by
  rcases h with ⟨failure, rfl, rfl⟩ | ⟨a, b, rfl, rfl, hab⟩
  · exact ⟨rfl, rfl⟩
  · exact ⟨rfl, hab⟩

end Run

open Run (Agree AgreeOn)

namespace StandardInput

variable {d e : StandardInput}

theorem payload_agree (h : d.bare = e.bare) : AgreeOn (fun v w => ∃ extras sources,
    v = assemble d.language extras sources d.settings ∧
      w = assemble d.language extras sources e.settings) d.payload e.payload := by
  obtain ⟨hlanguage, hsources, hextras⟩ := parts_of_bare h
  unfold payload
  rw [← hlanguage, ← hsources, ← hextras]
  cases sentExtras d.extras with
  | error failure => exact .inl ⟨failure, rfl, rfl⟩
  | ok extras =>
    cases sentSources d.sources with
    | error failure => exact .inl ⟨failure, rfl, rfl⟩
    | ok sources => exact .inr ⟨_, _, rfl, rfl, extras, sources, rfl, rfl⟩

theorem provenance_agree (h : d.bare = e.bare) :
    AgreeOn (fun _ _ => True) d.provenance e.provenance := by
  unfold provenance
  rcases payload_agree h with ⟨failure, hd, he⟩ | ⟨v, w, hd, he, -⟩
  · rw [hd, he]
    exact .inl ⟨failure, rfl, rfl⟩
  · rw [hd, he]
    exact .inr ⟨_, _, rfl, rfl, trivial⟩

/-- The record of a well-formed document tells its settings. -/
theorem eq_of_provenance {record : Json} (h : d.bare = e.bare) (hd : d.WellFormed)
    (he : e.WellFormed) (hrecord : d.provenance = .ok record)
    (hother : e.provenance = .ok record) : d = e := by
  obtain ⟨sources, -, rfl⟩ := provenance_eq_ok hrecord hd
  obtain ⟨others, -, hsame⟩ := provenance_eq_ok hother he
  refine eq_of_bare h ?_
  simp only [Json.obj.injEq, List.cons.injEq, Prod.mk.injEq, true_and, and_true] at hsame
  exact hsame.2

end StandardInput

namespace Legacy

variable {σ : Type} {interpreter : Interpreter σ} {capability : Capability}
  {d e : StandardInput} {seeds others : List StandardInput}

theorem readSeeds_bare (index : Nat) (raws : List Json) :
    readSeeds index (raws.map StandardInput.bareSeed) =
      (readSeeds index raws).map (List.map StandardInput.bare) := by
  induction raws generalizing index with
  | nil => rfl
  | cons raw raws ih =>
    rw [List.map_cons, readSeeds, readSeeds, StandardInput.parse_bareSeed, ih]
    cases StandardInput.parse raw with
    | error violations => rfl
    | ok read =>
      cases readSeeds (index + 1) raws with
      | error failure => rfl
      | ok seeds =>
        simp only [Except.map, List.map_cons, StandardInput.bare_withoutModelChecker,
          StandardInput.withoutModelChecker_bare]

theorem prepare_bare (capability : Capability) (d : StandardInput) :
    prepare capability d.bare = (prepare capability d).map fun prepared =>
      { prepared with seeds := prepared.seeds.map StandardInput.bare } := by
  unfold prepare
  rw [StandardInput.seeds_bare, StandardInput.optimizerEnabled_bare, readSeeds_bare]
  change (contents d.sources >>= _) = _
  cases contents d.sources with
  | error failure => rfl
  | ok sources =>
    cases hcheck : checkSources capability sources with
    | error failure => simp [bind, Except.bind, Except.map, hcheck]
    | ok _ =>
      cases readSeeds 0 d.seeds <;> simp [bind, Except.bind, Except.map, hcheck, pure, Except.pure]

theorem prepare_agree (h : d.bare = e.bare) : AgreeOn (fun prepared other =>
    prepared.call = other.call ∧
      prepared.seeds.map StandardInput.bare = other.seeds.map StandardInput.bare)
    (prepare capability d) (prepare capability e) := by
  have hd := prepare_bare capability d
  rw [h, prepare_bare] at hd
  cases hpd : prepare capability d with
  | error failure =>
    cases hpe : prepare capability e with
    | error other =>
      rw [hpd, hpe] at hd
      cases hd
      exact .inl ⟨_, rfl, rfl⟩
    | ok other =>
      rw [hpd, hpe] at hd
      cases hd
  | ok prepared =>
    cases hpe : prepare capability e with
    | error other =>
      rw [hpd, hpe] at hd
      cases hd
    | ok other =>
      rw [hpd, hpe] at hd
      have hsame := Except.ok.inj hd
      exact .inr ⟨_, _, rfl, rfl, (congrArg Prepared.call hsame).symm,
        (congrArg Prepared.seeds hsame).symm⟩

theorem readResult_agree (optimize : Bool) (records more : List Json) (printed : String) :
    AgreeOn (fun result other => ∃ output : Output,
        result = (output.complete (metadataText optimize records)).toJson ∧
        other = (output.complete (metadataText optimize more)).toJson)
      (readResult optimize records printed) (readResult optimize more printed) := by
  unfold readResult normalize
  cases Failure.ofParse .legacyOutputNotJson (Json.parse printed) with
  | error failure => exact .inl ⟨failure, rfl, rfl⟩
  | ok json =>
    by_cases hobject : json.isObject
    · cases houtput : Output.ofJson json with
      | error failure =>
        refine .inl ⟨failure, ?_, ?_⟩ <;>
        simp [bind, Except.bind, hobject, houtput, Except.map]
      | ok output =>
        refine .inr ⟨(output.complete (metadataText optimize records)).toJson,
          (output.complete (metadataText optimize more)).toJson, ?_, ?_, output, rfl, rfl⟩ <;>
        simp [bind, Except.bind, hobject, houtput, Except.map]
    · refine .inl ⟨.legacyOutputNotObject, ?_, ?_⟩ <;>
      simp [bind, Except.bind, hobject]

theorem finish_agree (interpreter : Interpreter σ) (call : Call) (records more : List Json)
    (start : Progress σ) :
    Agree (fun result other => ∃ output : Output,
        result = (output.complete (metadataText call.optimize records)).toJson ∧
        other = (output.complete (metadataText call.optimize more)).toJson)
      (finish interpreter call records start) (finish interpreter call more start) := by
  refine Agree.bind (Run.agree_self (Run.call interpreter call) start) ?_
  rintro printed _ rfl start
  exact (readResult_agree call.optimize records more printed).lift start

/-- Two results that are one output with the metadata of the one and of the other document. -/
def SameOutput (d e : StandardInput) (result other : Json) : Prop :=
  ∃ (output : Output) (records more : List Json),
    (seedsOf d).mapM StandardInput.provenance = .ok records ∧
    (seedsOf e).mapM StandardInput.provenance = .ok more ∧
    result = (output.complete (metadataText d.optimizerEnabled records)).toJson ∧
    other = (output.complete (metadataText d.optimizerEnabled more)).toJson

theorem seeds_agree (h : seeds.map StandardInput.bare = others.map StandardInput.bare)
    (hcompile : ∀ seed ∈ seeds, ∀ other, seed.bare = other.bare → ∀ start,
      Agree (SameOutput seed other) (Scripted.compile interpreter seed start)
        (Scripted.compile interpreter other start)) (start : Progress σ) :
    Agree (fun records more => seeds.mapM StandardInput.provenance = .ok records ∧
        others.mapM StandardInput.provenance = .ok more)
      (seeds.mapM (compileSeed interpreter) start) (others.mapM (compileSeed interpreter) start) := by
  induction seeds generalizing others start with
  | nil =>
    obtain rfl := List.map_eq_nil_iff.mp h.symm
    exact ⟨rfl, rfl, rfl⟩
  | cons seed seeds ih =>
    cases others with
    | nil => cases h
    | cons other others =>
      obtain ⟨hhead, htail⟩ := List.cons.inj h
      have hseed : Agree (fun record more => seed.provenance = .ok record ∧
          other.provenance = .ok more)
          (compileSeed interpreter seed start) (compileSeed interpreter other start) := by
        refine Agree.bind (hcompile seed List.mem_cons_self other hhead start) ?_
        intro _ _ _ start
        refine Run.AgreeOn.lift ?_ start
        exact (StandardInput.provenance_agree hhead).imp id
          fun ⟨record, more, hr, hm, _⟩ => ⟨record, more, hr, hm, hr, hm⟩
      rw [List.mapM_cons (f := compileSeed interpreter), List.mapM_cons (f := compileSeed interpreter)]
      refine hseed.bind ?_
      rintro record more ⟨hrecord, hmore⟩ start
      refine Agree.bind (ih htail (fun s hs => hcompile s (List.mem_cons_of_mem _ hs)) start) ?_
      rintro records mores ⟨hrecords, hmores⟩ start
      refine Run.agree_pure ⟨?_, ?_⟩ start
      · rw [List.mapM_cons, hrecord, hrecords]
        rfl
      · rw [List.mapM_cons, hmore, hmores]
        rfl

theorem optimize_of_prepare {prepared : Prepared} (h : prepare capability d = .ok prepared) :
    prepared.call.optimize = d.optimizerEnabled := by
  rw [prepare_call h, callOf]

/-- Both documents take the same course: nothing but the metadata of the result can differ. -/
theorem compile_agree (hlegacy : interpreter.capability ≠ .modern) {d e : StandardInput}
    (h : d.bare = e.bare) (start : Progress σ) :
    Agree (SameOutput d e) (Scripted.compile interpreter d start)
      (Scripted.compile interpreter e start) := by
  -- The induction is on the settings of the first document, which hold those of its seeds.
  rcases prepare_agree h with ⟨failure, hd, he⟩ | ⟨prepared, other, hd, he, hcall, hseeds⟩
  · rw [compile_of_refused hlegacy hd, compile_of_refused hlegacy he]
    exact ⟨rfl, rfl⟩
  · rw [compile_of_prepared hlegacy hd, compile_of_prepared hlegacy he]
    refine Agree.bind (seeds_agree hseeds (fun seed hseed other hbare start =>
      compile_agree hlegacy hbare start) start) ?_
    rintro records more ⟨hrecords, hmore⟩ start
    rw [← hcall]
    refine (finish_agree interpreter prepared.call records more start).mono ?_
    rintro result second ⟨output, rfl, rfl⟩
    rw [optimize_of_prepare hd]
    rw [prepare_seeds hd] at hrecords
    rw [prepare_seeds he] at hmore
    exact ⟨output, records, more, hrecords, hmore, rfl, rfl⟩
termination_by sizeOf d.settings
decreasing_by exact sizeOf_seed_lt hd hseed

end Legacy

end SolcDispatch
