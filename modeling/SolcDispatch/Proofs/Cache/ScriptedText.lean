import SolcDispatch.Proofs.Artifact.Directive
import SolcDispatch.Proofs.Cache.Acquisition
import SolcDispatch.Proofs.Text.Utf8

/-! What the files of scripted builds hold. The directive is cut out of the text that the depot
serves; only where directives stand inside one another is one left. -/

namespace SolcDispatch

variable {refused : WriteStep → Bool} {files : Files} {path other : FilePath} {d : Download}

namespace Files

theorem file?_put_cases (files : Files) (path other : FilePath) (content : Text.Bytes)
    (mode : Nat) :
    file? (files.put path (.file content mode)) other = files.file? other ∨
      other = path ∧ file? (files.put path (.file content mode)) other = some (content, mode) := by
  by_cases hother : other = path
  · subst hother
    by_cases hroot : other.parts = []
    · exact .inl (by simp [file?, entry?, hroot])
    · exact .inr ⟨rfl, by rw [file?, entry?_put_self hroot]⟩
  · exact .inl (by rw [file?, entry?_put_ne hother, file?])

end Files

namespace Cache

/-- A download changes no file but its own, which is what is stored of a good response. -/
theorem file?_result (refused : WriteStep → Bool) (files : Files) (d : Download)
    (fetched : Fetched) (other : FilePath) :
    (result refused files d fetched).2.file? other = files.file? other ∨
      other = d.path ∧ ∃ r, fetched = .response r ∧ r.status = 200 ∧
        (result refused files d fetched).2.file? other = some (stored d.kind r) := by
  cases fetched with
  | silence => exact .inl rfl
  | failed reason => exact .inl rfl
  | response r =>
    by_cases hstatus : r.status = 200
    · obtain he | he := result_good_cases refused files d hstatus
      · rw [he]
        exact .inl (files.file?_withDirectories refused d.path other)
      · rw [he]
        rcases Files.file?_put_cases (files.withDirectories refused d.path) d.path other
          (stored d.kind r).1 (stored d.kind r).2 with hsame | ⟨hother, hput⟩
        · exact .inl (hsame.trans (files.file?_withDirectories refused d.path other))
        · exact .inr ⟨hother, r, rfl, hstatus, hput⟩
    · rw [result, if_neg hstatus]
      exact .inl rfl

end Cache

namespace Broker

variable {σ : Type} {around : Surroundings σ} {cache after : Cache}

/-- The depot answers a download with a good response. -/
def Delivers (around : Surroundings σ) (cache : Cache) (d : Download) (r : Response) : Prop :=
  (around.depot.get around.followsRedirections (cache.urlOf d)).1 = .response r ∧ r.status = 200

/-- A file that a download left, with what is stored of the response to it. -/
def Left (around : Surroundings σ) (cache : Cache) (path : FilePath) (file : Text.Bytes × Nat) :
    Prop :=
  ∃ d ∈ cache.downloads, d.path = path ∧
    ∃ r, Delivers around cache d r ∧ file = Cache.stored d.kind r

/-- How far downloads that are under way may have brought a cache. -/
structure Advanced (around : Surroundings σ) (cache after : Cache) : Prop where
  source : after.source = cache.source
  running : ∀ {n : Nat} {d : Download}, after.downloads[n]? = some d → d.isRunning →
    cache.downloads[n]? = some d
  file : ∀ path, after.files.file? path = cache.files.file? path ∨
    ∃ file, after.files.file? path = some file ∧ Left around cache path file

theorem advanced_self (around : Surroundings σ) (cache : Cache) : Advanced around cache cache :=
  ⟨rfl, fun hd _ => hd, fun _ => .inl rfl⟩

theorem Advanced.complete (h : Advanced around cache after) {n : Nat} {d : Download}
    (hd : after.downloads[n]? = some d) (hrun : d.isRunning) :
    Advanced around cache (after.complete around.refused n
      (around.depot.get around.followsRedirections (after.urlOf d)).1) := by
  have hbefore : cache.downloads[n]? = some d := h.running hd hrun
  have hurl : after.urlOf d = cache.urlOf d := by simp only [Cache.urlOf, h.source]
  simp only [Cache.complete, hd, hrun, if_true]
  refine ⟨h.source, fun {m e} hm he => ?_, fun path => ?_⟩
  · by_cases hmn : n = m
    · subst hmn
      rw [List.getElem?_set_self (Sharing.lt_of_getElem?_eq_some hd)] at hm
      rw [← Option.some.inj hm] at he ⊢
      have hnone : d.outcome = none := Option.isNone_iff_eq_none.mp hrun
      have hstill := Option.isNone_iff_eq_none.mp he
      dsimp only at hstill
      rw [hbefore, hstill, ← hnone]
    · rw [List.getElem?_set_ne hmn] at hm
      exact h.running hm he
  · rcases Cache.file?_result around.refused after.files d
      (around.depot.get around.followsRedirections (after.urlOf d)).1 path with
      hsame | ⟨rfl, r, hr, hstatus, hfile⟩
    · rw [hsame]
      exact h.file path
    · exact .inr ⟨_, hfile, d, List.mem_of_getElem? hbefore, rfl, r, ⟨hurl ▸ hr, hstatus⟩, rfl⟩

theorem Advanced.forget (h : Advanced around cache after) (name : String) :
    Advanced around cache (after.forget name) := ⟨h.source, h.running, h.file⟩

theorem Advanced.download (h : Advanced around cache after) (n : Nat) :
    Advanced around cache (download around after n).2 := by
  unfold Broker.download
  cases hd : after.downloads[n]? with
  | none => exact h
  | some d =>
    dsimp only
    by_cases hrun : d.isRunning = true
    · rw [if_pos hrun]
      dsimp only
      split
      · exact h.complete hd hrun
      · exact (h.complete hd hrun).forget d.name
    · rw [if_neg hrun]
      exact h

theorem advanced_downloadAll (around : Surroundings σ) (cache : Cache) :
    Advanced around cache (downloadAll around cache).2 := by
  rw [downloadAll_eq]
  refine List.foldlRecOn (List.range cache.downloads.length) (downloadNext around)
    (motive := fun all => Advanced around cache all.2) ?_ ?_
  · exact advanced_self around cache
  · exact fun all hall n _ => hall.download n

theorem advanced_acquire (around : Surroundings σ) (b : Broker) (version : String) :
    Advanced around (b.cache.request b.known version).2 (b.acquire around version).2.2.cache := by
  rw [acquire]
  exact advanced_downloadAll around (b.cache.request b.known version).2

theorem files_request (cache : Cache) (known : Snapshot) (version : String) :
    (cache.request known version).2.files = cache.files := by
  rcases cache.request_cases known version with
    ⟨_, hr, -⟩ | ⟨kind, path, -, -, ⟨-, hr⟩ | ⟨-, hr⟩⟩
  · rw [hr]
  · rw [hr]
  · rw [hr, Cache.join]
    split <;> rfl

/-- A file that is there after a request for a build was there before, or holds what is stored of
a good response to a download; and what is stored of a text is free of the directive unless the
text has the directive with others inside. -/
theorem acquire_keeps_texts (around : Surroundings σ) (b : Broker) (version : String) :
    (∀ r : Response, ∃ kept, Cache.stored .scripted r = (Text.utf8 kept, 0o600) ∧
      Artifact.IsKeptOf r.text kept) ∧
    (∀ path file, (b.acquire around version).2.2.cache.files.file? path = some file →
      b.cache.files.file? path = some file ∨
        Left around (b.cache.request b.known version).2 path file) ∧
    (b.cache.IsIdle → ∀ path r paths, b.known.classify version = .ok .scripted →
      b.cache.pathOf .scripted version = .ok path → b.cache.files.present path = .ok false →
      around.depot.get around.followsRedirections
        (b.cache.urlOf (newDownload version .scripted path)) = (.response r, paths) →
      r.status = 200 →
      (b.acquire around version).1 = some (.error .internal) ∧
          (b.acquire around version).2.2.cache.files.file? path = none ∨
        (b.acquire around version).1 = some (.ok path) ∧
          (b.acquire around version).2.2.cache.files.file? path =
            some (Cache.stored .scripted r)) := by
  refine ⟨fun r => ?_, fun path file hfile => ?_, ?_⟩
  · exact ⟨Artifact.keptSource r.text, rfl, Artifact.isKeptOf_keptSource r.text⟩
  · rcases (advanced_acquire around b version).file path with hsame | ⟨found, hfound, hleft⟩
    · rw [files_request] at hsame
      exact .inl (hsame.symm.trans hfile)
    · obtain rfl : found = file := Option.some.inj (hfound.symm.trans hfile)
      exact .inr hleft
  · intro hidle path r paths hkind hpath habsent hget hstatus
    have hrequest : b.cache.request b.known version = b.cache.join version .scripted path := by
      rw [Cache.request_eq hkind hpath, habsent]
    have hbefore : b.cache.files.file? path = none := by
      rw [Files.file?, Files.entry?_of_present habsent]
    obtain hresult | hresult := Cache.result_good_cases around.refused b.cache.files
      (newDownload version .scripted path) hstatus
    · rw [acquire_of_absent around hidle hrequest hget hresult]
      exact .inl ⟨rfl, (Files.file?_withDirectories _ _ _ _).trans hbefore⟩
    · rw [acquire_of_absent around hidle hrequest hget hresult]
      have hne := (Cache.isPath_of_pathOf hpath).parts_ne_nil
      refine .inr ⟨rfl, ?_⟩
      dsimp only [afterDownload, newDownload]
      rw [Files.file?, Files.entry?_put_self hne]

/-- A broker that knows one scripted build, with nothing in its cache. -/
def unfurnished : Broker where
  known := { scripted := ["v0.4.11"], loaded := true }
  cache := {
    root := ⟨"/", ["builds"]⟩
    source := ⟨"https://depot", "linux-amd64", ⟨0, 6, 0, none, none⟩⟩ }
  traces := { capacity := 1 }
  timeout := .ofInt 1

/-- A depot that has one scripted build. -/
def serving (r : Response) : Surroundings Unit where
  depot := [("/bin/soljson-v0.4.11.js", .response r)]
  followsRedirections := false
  loader := {
    load := fun _ _ => .ok (.modern, ())
    answer := fun _ s => (.ok "", s)
    diagnostics := fun _ => "" }

def buildPath : FilePath := ⟨"/", ["builds", "soljson-v0.4.11.js"]⟩

def apart : Response := { body := Text.utf8 "\"use asm\";f();\"use asm\";" }

theorem acquire_keeps_rest_of_text :
    unfurnished.cache.IsIdle ∧
      (unfurnished.acquire (serving apart) "0.4.11").1 = some (.ok buildPath) ∧
      (unfurnished.acquire (serving apart) "0.4.11").2.2.cache.files.file? buildPath =
        some (Text.utf8 "f();", 0o600) := by
  have hidle : unfurnished.cache.IsIdle := ⟨by simp [unfurnished], rfl⟩
  have htext : apart.text = "\"use asm\";f();\"use asm\";" := Text.decodeUtf8_utf8 _
  have hstored : Cache.stored .scripted apart = (Text.utf8 "f();", 0o600) := by
    have hkept : Artifact.keptSource "\"use asm\";f();\"use asm\";" = "f();" := by decide
    rw [Cache.stored, htext, hkept]
  obtain ⟨-, -, hacquired⟩ := acquire_keeps_texts (serving apart) unfurnished "0.4.11"
  obtain ⟨hfailed, -⟩ | hkept := hacquired hidle buildPath apart ["/bin/soljson-v0.4.11.js"]
    (by decide +kernel) (by decide +kernel) (by decide +kernel) (by decide +kernel) rfl
  · have hacquires : (unfurnished.acquire (serving apart) "0.4.11").1 ≠
        some (.error .internal) := by
      decide +kernel
    exact absurd hfailed hacquires
  · rw [← hstored]
    exact ⟨hidle, hkept⟩

def nested : Response := { body := Text.utf8 "\"use a\"use asm\";sm\";" }

/-- The rests of a directive around another come to stand side by side. -/
theorem acquire_leaves_directive :
    (unfurnished.acquire (serving nested) "0.4.11").1 = some (.ok buildPath) ∧
      (unfurnished.acquire (serving nested) "0.4.11").2.2.cache.files.file? buildPath =
        some (Text.utf8 "\"use asm\";", 0o600) ∧
      Artifact.directive <:+: "\"use asm\";".toList ∧
      Artifact.keptSource (Artifact.keptSource nested.text) ≠ Artifact.keptSource nested.text := by
  decide +kernel

end Broker

end SolcDispatch
