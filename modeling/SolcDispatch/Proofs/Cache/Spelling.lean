import SolcDispatch.Proofs.Cache.SingleFlight
import SolcDispatch.Proofs.Version.Spelling

/-! A cache under other spellings of its versions. The texts by which builds were asked for
stand in its downloads and their errors alone, so each operation of a respelled cache is the
respelled operation of the cache. -/

namespace SolcDispatch

open CompilerVersion (spelling)

/-- A failure with the version that it quotes in its canonical spelling. -/
def Failure.respelled : Failure → Failure
  | .downloadUnreachable version reason => .downloadUnreachable (spelling version) reason
  | .downloadRefused version status reason => .downloadRefused (spelling version) status reason
  | failure => failure

@[simp] theorem Failure.failureClass_respelled (failure : Failure) :
    failure.respelled.failureClass = failure.failureClass := by
  cases failure <;> rfl

/-- Only what is said of a download quotes a version. -/
theorem Failure.respelled_eq_self {failure : Failure} (h : failure.failureClass ≠ .acquisition) :
    failure.respelled = failure := by
  cases failure with
  | downloadUnreachable | downloadRefused => exact absurd rfl h
  | _ => rfl

abbrev respelledAnswer {α : Type} (answer : Except Failure α) : Except Failure α :=
  answer.mapError Failure.respelled

def Download.respelled (d : Download) : Download :=
  { d with version := spelling d.version, outcome := d.outcome.map respelledAnswer }

def Ticket.respelled : Ticket → Ticket
  | .ready answer => .ready (respelledAnswer answer)
  | .waiting n => .waiting n

namespace Download

@[simp] theorem isRunning_respelled (d : Download) : d.respelled.isRunning = d.isRunning := by
  simp [isRunning, respelled]

@[simp] theorem name_respelled (d : Download) : d.respelled.name = d.name := rfl

end Download

namespace Cache

def respelled (cache : Cache) : Cache :=
  { cache with downloads := cache.downloads.map Download.respelled }

variable (cache : Cache) (known : Snapshot) (version : String)

@[simp] theorem files_respelled : cache.respelled.files = cache.files := rfl

@[simp] theorem source_respelled : cache.respelled.source = cache.source := rfl

@[simp] theorem inFlight_respelled : cache.respelled.inFlight = cache.inFlight := rfl

@[simp] theorem length_downloads_respelled :
    cache.respelled.downloads.length = cache.downloads.length := List.length_map _

@[simp] theorem getElem?_respelled (n : Nat) :
    cache.respelled.downloads[n]? = (cache.downloads[n]?).map Download.respelled :=
  List.getElem?_map

@[simp] theorem pathOf_spelling (kind : BuildKind) :
    cache.pathOf kind (spelling version) = cache.pathOf kind version := by
  rw [pathOf, Artifact.name_spelling, ← pathOf]

@[simp] theorem pathOf_respelled (kind : BuildKind) :
    cache.respelled.pathOf kind version = cache.pathOf kind version := rfl

@[simp] theorem urlOf_respelled (d : Download) :
    cache.respelled.urlOf d.respelled = cache.urlOf d := by
  simp only [urlOf, respelled, Download.respelled, Artifact.name_spelling]

theorem join_respelled (kind : BuildKind) (path : FilePath) :
    cache.respelled.join (spelling version) kind path =
      ((cache.join version kind path).1.respelled, (cache.join version kind path).2.respelled) := by
  unfold join
  rw [inFlight_respelled]
  cases Assoc.get? cache.inFlight path.fileName with
  | some n => rfl
  | none => simp [respelled, Ticket.respelled, Download.respelled]

theorem request_respelled : cache.respelled.request known (spelling version) =
    ((cache.request known version).1.respelled, (cache.request known version).2.respelled) := by
  unfold request
  rw [known.classify_spelling]
  cases hk : known.classify version with
  | error failure =>
    obtain rfl := classify_error hk
    rfl
  | ok kind =>
    simp only [pathOf_respelled, pathOf_spelling, files_respelled]
    cases cache.pathOf kind version with
    | error error => rfl
    | ok path =>
      dsimp only
      cases hf : cache.files.present path with
      | error failure =>
        obtain rfl := Files.present_error hf
        rfl
      | ok found =>
        cases found with
        | true => rfl
        | false => exact cache.join_respelled version kind path

theorem result_respelled (refused : WriteStep → Bool) (files : Files) (d : Download)
    (fetched : Fetched) : result refused files d.respelled fetched =
      ((result refused files d fetched).1.map respelledAnswer,
        (result refused files d fetched).2) := by
  cases fetched with
  | silence => rfl
  | failed reason => rfl
  | response r =>
    unfold result
    by_cases hs : r.status = 200
    · simp only [if_pos hs, Download.respelled]
      rcases hw : files.write refused d.path (kept d.kind r).1 (kept d.kind r).2 with ⟨_ | _, after⟩
      · obtain rfl := Files.write_error (congrArg Prod.fst hw)
        simp [respelledAnswer, Except.map, Except.mapError, Failure.respelled]
      · simp [respelledAnswer, Except.map, Except.mapError]
    · simp only [if_neg hs]
      rfl

theorem complete_respelled (refused : WriteStep → Bool) (n : Nat) (fetched : Fetched) :
    cache.respelled.complete refused n fetched = (cache.complete refused n fetched).respelled := by
  unfold complete
  rw [getElem?_respelled]
  cases cache.downloads[n]? with
  | none => rfl
  | some d =>
    simp only [Option.map_some, Download.isRunning_respelled, files_respelled, result_respelled]
    by_cases hrun : d.isRunning
    · rw [if_pos hrun, if_pos hrun]
      simp [respelled, Download.respelled, List.map_set]
    · rw [if_neg hrun, if_neg hrun]

@[simp] theorem forget_respelled (name : String) :
    cache.respelled.forget name = (cache.forget name).respelled := rfl

theorem answer?_respelled (ticket : Ticket) :
    cache.respelled.answer? ticket.respelled = (cache.answer? ticket).map respelledAnswer := by
  cases ticket with
  | ready answer => rfl
  | waiting n =>
    simp only [Ticket.respelled, answer?, getElem?_respelled]
    cases cache.downloads[n]? <;> rfl

variable {a b : String}

theorem pathOf_congr (kind : BuildKind) (h : spelling a = spelling b) :
    cache.pathOf kind a = cache.pathOf kind b := by
  rw [← pathOf_spelling, h, pathOf_spelling]

theorem join_again (kind : BuildKind) (path : FilePath) :
    (cache.join a kind path).2.join b kind path = cache.join a kind path := by
  unfold join
  cases h : Assoc.get? cache.inFlight path.fileName with
  | some n => simp only [h]
  | none => simp only [Assoc.get?_put_self]

theorem join_fields (kind : BuildKind) (path : FilePath) :
    (cache.join version kind path).2.root = cache.root ∧
      (cache.join version kind path).2.source = cache.source ∧
      (cache.join version kind path).2.files = cache.files := by
  unfold join
  split <;> exact ⟨rfl, rfl, rfl⟩

/-- Two spellings of a version are answered at once and alike, or both join the download of
one build. -/
theorem request_both (h : spelling a = spelling b) :
    (∃ answer, cache.request known a = (.ready answer, cache) ∧
      cache.request known b = (.ready answer, cache)) ∨
    ∃ kind path, known.classify a = .ok kind ∧ cache.pathOf kind a = .ok path ∧
      cache.files.present path = .ok false ∧
      cache.request known a = cache.join a kind path ∧
      cache.request known b = cache.join b kind path := by
  simp only [request, ← known.classify_congr h, ← cache.pathOf_congr _ h]
  cases hk : known.classify a with
  | error failure => exact .inl ⟨_, rfl, rfl⟩
  | ok kind =>
    dsimp only
    cases hp : cache.pathOf kind a with
    | error error => exact .inl ⟨_, rfl, rfl⟩
    | ok path =>
      dsimp only
      cases hf : cache.files.present path with
      | error failure => exact .inl ⟨_, rfl, rfl⟩
      | ok found =>
        cases found with
        | true => exact .inl ⟨_, rfl, rfl⟩
        | false => exact .inr ⟨kind, path, rfl, hp, hf, rfl, rfl⟩

theorem request_again (h : spelling a = spelling b) :
    (cache.request known a).2.request known b = cache.request known a := by
  rcases cache.request_both known h with ⟨_, ha, hb⟩ | ⟨kind, path, hk, hp, hf, ha, -⟩
  · rw [ha, hb]
  · -- Joining changes neither where the build is kept nor whether it is there yet.
    obtain ⟨hroot, hsource, hfiles⟩ := cache.join_fields a kind path
    have hpath : (cache.join a kind path).2.pathOf kind b = .ok path := by
      rw [pathOf, hroot, hsource, ← pathOf, ← cache.pathOf_congr kind h, hp]
    rw [ha, request, ← known.classify_congr h, hk]
    simp only [hpath, hfiles, hf]
    exact cache.join_again kind path

theorem join_ticket (kind : BuildKind) (path : FilePath) :
    (cache.join a kind path).1 = (cache.join b kind path).1 := by
  unfold join
  split <;> rfl

theorem request_ticket (h : spelling a = spelling b) :
    (cache.request known a).1 = (cache.request known b).1 := by
  rcases cache.request_both known h with ⟨_, ha, hb⟩ | ⟨kind, path, -, -, -, ha, hb⟩
  · rw [ha, hb]
  · rw [ha, hb, cache.join_ticket]

end Cache

end SolcDispatch
