import SolcDispatch.Broker.Setup
import SolcDispatch.Proofs.Artifact.Names
import SolcDispatch.Proofs.Text.Lines
import SolcDispatch.Proofs.Text.Utf8

/-! Lists of builds as the depot writes them: names of builds between blanks and other
lines, under any marks that end a line. The catalog reads back the versions that were listed,
and every name that was listed is found beside its list. -/

namespace SolcDispatch

theorem Response.text_utf8 (s : String) : text { body := Text.utf8 s } = s :=
  Text.decodeUtf8_utf8 s

namespace Artifact

def startOf (platform : String) : BuildKind → String
  | .native => nativeStart platform
  | .scripted => scriptedStart

def endOf : BuildKind → String
  | .native => ""
  | .scripted => scriptedEnd

theorem toList_nameOf (platform : String) (kind : BuildKind) (canonical : String) :
    (nameOf platform kind canonical).toList =
      (startOf platform kind).toList ++ (canonical.toList ++ (endOf kind).toList) := by
  cases kind <;> simp [nameOf, startOf, endOf]

theorem head_startOf (platform : String) (kind : BuildKind) :
    (startOf platform kind).toList.head? = some 's' := by
  cases kind with
  | native => simp [startOf, toList_nativeStart]
  | scripted => simp [startOf, scriptedStart]

end Artifact

namespace Index

/-- The version that a line names as a build of the given kind. -/
def namedIn (platform : String) (kind : BuildKind) (line : List Char) : Option CompilerVersion :=
  (between? (Artifact.startOf platform kind) (Artifact.endOf kind) (Text.trim line)).bind
    fun version => CompilerVersion.parse? (String.ofList version)

variable {platform : String} {kind : BuildKind} {v : CompilerVersion}

theorem isNameReader_namedIn (platform : String) (kind : BuildKind) :
    Text.IsNameReader (namedIn platform kind) where
  empty := by
    cases h : namedIn platform kind [] with
    | none => rfl
    | some v =>
      have hnames : Names (Artifact.startOf platform kind) (Artifact.endOf kind) "" v :=
        bind_between?_eq_some_iff.mp h
      obtain ⟨version, -, hname⟩ := hnames
      have hstart : (Artifact.startOf platform kind).toList = [] :=
        (List.append_eq_nil_iff.mp hname.symm).1
      have hhead := Artifact.head_startOf platform kind
      rw [hstart] at hhead
      cases hhead
  blanks line other h := by rw [namedIn, namedIn, h]

theorem isBlank_of_mem_canonical (hv : v.WellFormed) {c : Char} (hc : c ∈ v.canonical.toList) :
    Text.isBlank c = false := by
  rcases hv.mem_canonical hc with rfl | hc
  · decide
  · exact CompilerVersion.isBlank_of_isSuffixChar hc

theorem trim_nameOf (hv : v.WellFormed) :
    Text.trim (Artifact.nameOf platform kind v.canonical).toList =
      (Artifact.nameOf platform kind v.canonical).toList := by
  apply Text.trim_of_ends
  · intro c hc
    rw [Artifact.toList_nameOf, List.head?_append, Artifact.head_startOf] at hc
    obtain rfl : 's' = c := Option.some.inj hc
    decide
  · intro c hc
    have hne : v.canonical.toList ≠ [] := by
      have := hv.two_le_length_canonical
      rintro he
      rw [he] at this
      contradiction
    cases kind with
    | native =>
      rw [Artifact.toList_native, ← List.append_assoc, List.getLast?_append_of_ne_nil _ hne] at hc
      exact isBlank_of_mem_canonical hv (List.mem_of_getLast? hc)
    | scripted =>
      rw [Artifact.toList_scripted, ← List.append_assoc,
        List.getLast?_append_of_ne_nil _ (by decide)] at hc
      have hend : Artifact.scriptedEnd.toList.getLast? = some 's' := by decide
      obtain rfl : 's' = c := Option.some.inj (hend.symm.trans hc)
      decide

theorem namedIn_nameOf (hv : v.WellFormed) :
    namedIn platform kind (Artifact.nameOf platform kind v.canonical).toList = some v := by
  rw [namedIn, trim_nameOf hv, Artifact.toList_nameOf, between?_append, Option.bind_some,
    String.ofList_toList, hv.parse?_canonical]

theorem isLineEnd_of_mem_nameOf (hv : v.WellFormed)
    (hplatform : ∀ c ∈ platform.toList, Text.isLineEnd c = false) {c : Char}
    (hc : c ∈ (Artifact.nameOf platform kind v.canonical).toList) : Text.isLineEnd c = false := by
  have hfixed {text : String} (hc : c ∈ text.toList)
      (h : text.toList.all fun c => !Text.isLineEnd c) : Text.isLineEnd c = false := by
    simpa using List.all_eq_true.mp h c hc
  have hcanonical (hc : c ∈ v.canonical.toList) : Text.isLineEnd c = false := by
    by_contra hend
    have hblank := Text.isBlank_of_isLineEnd (by simpa using hend)
    rw [isBlank_of_mem_canonical hv hc] at hblank
    cases hblank
  cases kind with
  | native =>
    simp only [Artifact.toList_native, List.mem_append] at hc
    rcases hc with hc | (hc | hc) | hc
    · exact hfixed hc (by decide)
    · exact hplatform c hc
    · exact hfixed hc (by decide)
    · exact hcanonical hc
  | scripted =>
    simp only [Artifact.toList_scripted, List.mem_append] at hc
    rcases hc with hc | hc | hc
    · exact hfixed hc (by decide)
    · exact hcanonical hc
    · exact hfixed hc (by decide)

end Index

/-- What ends a line of a list. -/
inductive LineMark
  | feed
  | carriage
  | both

def LineMark.text : LineMark → String
  | .feed => "\n"
  | .carriage => "\r"
  | .both => "\r\n"

theorem LineMark.toList_text (mark : LineMark) :
    ∃ c blanks, mark.text.toList = c :: blanks ∧ Text.isLineEnd c ∧
      ∀ d ∈ blanks, Text.isBlank d := by
  cases mark with
  | feed => exact ⟨'\n', [], rfl, by decide, by simp⟩
  | carriage => exact ⟨'\r', [], rfl, by decide, by simp⟩
  | both =>
    exact ⟨'\r', ['\n'], rfl, by decide,
      List.all_eq_true.mp (show ['\n'].all Text.isBlank by decide)⟩

/-- A part of a list of builds: the name of the build of a version, between blanks, or lines
that name none. -/
inductive FeedPart
  | build (before : String) (version : CompilerVersion) (after : String)
  | other (text : String)

namespace FeedPart

def text (platform : String) (kind : BuildKind) : FeedPart → String
  | .build before v after => before ++ (Artifact.nameOf platform kind v.canonical ++ after)
  | .other text => text

def versions : FeedPart → List CompilerVersion
  | .build _ v _ => [v]
  | .other _ => []

def IsProper (platform : String) (kind : BuildKind) : FeedPart → Prop
  | .build before v after =>
    Text.isAllBlank before ∧ (∃ text, CompilerVersion.parse text = .ok v) ∧ Text.isAllBlank after
  | .other text => ∀ line ∈ Text.lines text, ∀ v,
    ¬ Index.Names (Artifact.startOf platform kind) (Artifact.endOf kind) line v

variable {platform : String} {kind : BuildKind}

theorem foundIn_text (part : FeedPart) (h : part.IsProper platform kind)
    (hplatform : ∀ c ∈ platform.toList, Text.isLineEnd c = false) :
    Text.foundIn (Index.namedIn platform kind) (part.text platform kind).toList =
      part.versions := by
  have hreader := Index.isNameReader_namedIn platform kind
  cases part with
  | build before v after =>
    obtain ⟨hbefore, hread, hafter⟩ := h
    have hv := CompilerVersion.exists_parse_iff.mp hread
    rw [text, String.toList_append, String.toList_append,
      Text.foundIn_blanks_append hreader (List.all_eq_true.mp hbefore),
      Text.foundIn_append_blanks hreader (List.all_eq_true.mp hafter),
      Text.foundIn_line hreader fun c hc => Index.isLineEnd_of_mem_nameOf hv hplatform hc,
      Index.namedIn_nameOf hv]
    rfl
  | other text =>
    rw [FeedPart.text, ← Text.filterMap_lines, versions, List.filterMap_eq_nil_iff]
    intro line hline
    refine Option.eq_none_iff_forall_ne_some.mpr fun v hv => ?_
    exact h line hline v (Index.bind_between?_eq_some_iff.mp hv)

end FeedPart

/-- A list of builds: its parts, with what ends a line between them. -/
structure Feed where
  first : FeedPart
  rest : List (LineMark × FeedPart) := []

namespace Feed

def text (feed : Feed) (platform : String) (kind : BuildKind) : String :=
  feed.rest.foldl (fun text (mark, part) => text ++ mark.text ++ part.text platform kind)
    (feed.first.text platform kind)

def parts (feed : Feed) : List FeedPart := feed.first :: feed.rest.map Prod.snd

/-- The versions whose builds are listed, as often as they are. -/
def versions (feed : Feed) : List CompilerVersion := feed.parts.flatMap FeedPart.versions

def IsProper (feed : Feed) (platform : String) (kind : BuildKind) : Prop :=
  ∀ part ∈ feed.parts, part.IsProper platform kind

variable {platform : String} {kind : BuildKind} {feed : Feed}

/-- A carriage return at the end of a part and a line feed at the beginning of the next one
make one mark; the cut between the parts is there all the same. -/
theorem foundIn_mark (mark : LineMark) (before after : String) :
    Text.foundIn (Index.namedIn platform kind) (before ++ mark.text ++ after).toList =
      Text.foundIn (Index.namedIn platform kind) before.toList ++
        Text.foundIn (Index.namedIn platform kind) after.toList := by
  have hreader := Index.isNameReader_namedIn platform kind
  obtain ⟨c, blanks, hmark, hend, hblanks⟩ := mark.toList_text
  rw [String.toList_append, String.toList_append, hmark, List.append_assoc, List.cons_append,
    Text.foundIn_append_cons hreader hend, Text.foundIn_blanks_append hreader hblanks]

theorem foundIn_text (h : feed.IsProper platform kind)
    (hplatform : ∀ c ∈ platform.toList, Text.isLineEnd c = false) :
    Text.foundIn (Index.namedIn platform kind) (feed.text platform kind).toList =
      feed.versions := by
  have hrest (rest : List (LineMark × FeedPart))
      (hproper : ∀ entry ∈ rest, entry.2.IsProper platform kind) (front : String) :
      Text.foundIn (Index.namedIn platform kind) (rest.foldl (fun text (mark, part) =>
        text ++ mark.text ++ part.text platform kind) front).toList =
        Text.foundIn (Index.namedIn platform kind) front.toList ++
          rest.flatMap fun entry => entry.2.versions := by
    induction rest generalizing front with
    | nil => simp
    | cons entry rest ih =>
      rw [List.foldl_cons, ih fun entry he => hproper entry (List.mem_cons_of_mem _ he),
        foundIn_mark, FeedPart.foundIn_text _ (hproper entry List.mem_cons_self) hplatform,
        List.flatMap_cons, List.append_assoc]
  rw [text, hrest, FeedPart.foundIn_text _ (h _ List.mem_cons_self) hplatform, versions, parts,
    List.flatMap_cons, List.flatMap_map]
  intro entry he
  exact h entry.2 (List.mem_cons_of_mem _ (List.mem_map_of_mem he))

end Feed

namespace ReleaseSource

/-- What the catalog keeps of a list of builds of one kind. -/
def listed (source : ReleaseSource) : BuildKind → List String → Index.Versions
  | .native, lines => Index.native source.platform source.floor lines
  | .scripted, lines => Index.scripted lines

def takes (source : ReleaseSource) : BuildKind → CompilerVersion → Bool
  | .native, v => !v.isBefore source.floor
  | .scripted, _ => true

theorem listed_lines (source : ReleaseSource) (kind : BuildKind) (text : String) :
    source.listed kind (Text.lines text) =
      ((Text.foundIn (Index.namedIn source.platform kind) text.toList).filter
        (source.takes kind)).eraseDups.map CompilerVersion.canonical := by
  rw [← Text.filterMap_lines]
  cases kind with
  | native =>
    exact CompilerVersion.collect_eq_map fun _ hv =>
      CompilerVersion.wellFormed_of_mem_native (List.mem_of_mem_filter hv)
  | scripted =>
    have hall (vs : List CompilerVersion) : vs.filter (source.takes .scripted) = vs :=
      List.filter_eq_self.mpr fun _ _ => rfl
    rw [hall]
    exact CompilerVersion.collect_eq_map fun _ => CompilerVersion.wellFormed_of_mem_scripted

end ReleaseSource

namespace Text

theorem stripSlashes_append (s : String) : ∃ slashes : String, s = stripSlashes s ++ slashes ∧
    (∀ c ∈ slashes.toList, c = '/') ∧ (stripSlashes s).toList.getLast? ≠ some '/' := by
  obtain ⟨n, hn⟩ := exists_padding '/' s.toList
  refine ⟨String.ofList (List.replicate n '/'), ?_, fun c hc => ?_, ?_⟩
  · apply String.toList_injective
    rw [String.toList_append, stripSlashes, String.toList_ofList, String.toList_ofList]
    exact hn
  · rw [String.toList_ofList] at hc
    exact List.eq_of_mem_replicate hc
  · rw [stripSlashes, String.toList_ofList]
    exact getLast?_dropLastWhile_ne '/' s.toList

end Text

namespace Artifact

/-- The part of the depot that holds the builds of one kind. -/
def folder (platform : String) : BuildKind → String
  | .native => platform
  | .scripted => "bin"

theorem directoryUrl_eq (baseUrl platform : String) (kind : BuildKind) :
    directoryUrl baseUrl platform kind =
      Text.stripSlashes baseUrl ++ "/" ++ folder platform kind ++ "/" := by
  cases kind <;> simp [directoryUrl, folder, toString, String.append_assoc]

end Artifact

namespace Feed

/-- A list in which builds stand under their names, in any order and any number of times, is
read as the versions of these builds; each of them is fetched by its name from where the list
was fetched. -/
theorem listing_agrees_with_names {settings : Settings} {cache : Cache} {feed : Feed}
    {kind : BuildKind} {r : Response}
    (hbase : cache.source.baseUrl = settings.baseUrl)
    (hname : cache.source.platform = settings.nativePlatform)
    (hplatform : ∀ c ∈ settings.nativePlatform.toList, Text.isLineEnd c = false)
    (hfeed : feed.IsProper settings.nativePlatform kind)
    (hstatus : r.status = 200) (htext : r.text = feed.text settings.nativePlatform kind) :
    (∃ lines, Catalog.readFeed (settings.indexUrl kind) (.response r) = some (.ok lines) ∧
      cache.source.listed kind lines =
        (feed.versions.filter (cache.source.takes kind)).eraseDups.map
          CompilerVersion.canonical) ∧
    ∃ base slashes directory, settings.baseUrl = base ++ slashes ∧
      (∀ c ∈ slashes.toList, c = '/') ∧ base.toList.getLast? ≠ some '/' ∧
      directory = base ++ "/" ++ Artifact.folder settings.nativePlatform kind ++ "/" ∧
      settings.indexUrl kind = directory ++ "list.txt" ∧
      cache.source.indexUrl kind = settings.indexUrl kind ∧
      ∀ version v, CompilerVersion.parse version = .ok v → ∃ name,
        Artifact.name cache.source.platform kind version = .ok name ∧
        name = Artifact.nameOf settings.nativePlatform kind v.canonical ∧
        ∀ path, cache.urlOf { version, kind, path } = directory ++ name := by
  refine ⟨⟨Text.lines r.text, by rw [Catalog.readFeed, if_pos hstatus], ?_⟩, ?_⟩
  · rw [cache.source.listed_lines, hname, htext, foundIn_text hfeed hplatform]
  · obtain ⟨slashes, hslashes, hall, hlast⟩ := Text.stripSlashes_append settings.baseUrl
    refine ⟨_, slashes, Artifact.directoryUrl settings.baseUrl settings.nativePlatform kind,
      hslashes, hall, hlast, Artifact.directoryUrl_eq .., rfl, ?_, fun version v hv => ?_⟩
    · rw [ReleaseSource.indexUrl, hbase, hname, Settings.indexUrl]
    · have hfound : Artifact.name settings.nativePlatform kind version = _ :=
        Artifact.name_of_parse hv
      rw [hname]
      refine ⟨_, hfound, rfl, fun path => ?_⟩
      simp only [Cache.urlOf, hbase, hname, hfound, Artifact.downloadUrl]

theorem mixed_listing_agrees_with_names :
    let settings : Settings := { baseUrl := "https://depot//" }
    let cache : Cache := {
      root := FilePath.ofString settings.artifactDir
      source := ⟨settings.baseUrl, settings.nativePlatform, ⟨0, 6, 0, none, none⟩⟩ }
    let recent : CompilerVersion := ⟨0, 8, 20, none, some "commit.a1b79de6"⟩
    let feed : Feed := {
      first := .other "# builds\n\nsolc-linux-amd64-latest"
      rest := [(.both, .build " " recent "\t"), (.carriage, .build "\n" ⟨0, 7, 6, none, none⟩ ""),
        (.carriage, .other "soljson-v0.8.1.js"), (.feed, .build "" recent ""),
        (.both, .build "" ⟨0, 5, 17, none, none⟩ ""), (.feed, .other "")] }
    let r : Response := { body := Text.utf8 (feed.text settings.nativePlatform .native) }
    settings.cache [] = .ok cache ∧
    (∀ c ∈ settings.nativePlatform.toList, Text.isLineEnd c = false) ∧
    feed.IsProper settings.nativePlatform .native ∧
    r.text = feed.text settings.nativePlatform .native ∧
    ∃ lines, Catalog.readFeed (settings.indexUrl .native) (.response r) = some (.ok lines) ∧
      cache.source.listed .native lines = ["v0.8.20+commit.a1b79de6", "v0.7.6"] ∧
      ∃ directory, settings.indexUrl .native = directory ++ "list.txt" ∧ ∀ path,
        cache.urlOf { version := " 0.07.6", kind := .native, path } =
          directory ++ "solc-linux-amd64-v0.7.6" := by
  intro settings cache recent feed r
  have hother (text : String) (h : (Text.lines text).all fun line =>
      (Index.namedIn "linux-amd64" .native line.toList).isNone) :
      (FeedPart.other text).IsProper "linux-amd64" .native := by
    intro line hline v hv
    have hnone := List.all_eq_true.mp h line hline
    rw [show Index.namedIn "linux-amd64" .native line.toList = some v from
      Index.bind_between?_eq_some_iff.mpr hv] at hnone
    cases hnone
  have hproper : feed.IsProper settings.nativePlatform .native := by
    have hrecent : ∃ text, CompilerVersion.parse text = .ok recent :=
      ⟨"0.8.20+commit.a1b79de6", by decide⟩
    intro part hpart
    simp only [feed, Feed.parts, List.map_cons, List.map_nil, List.mem_cons, List.not_mem_nil,
      or_false] at hpart
    rcases hpart with rfl | rfl | rfl | rfl | rfl | rfl | rfl
    · exact hother _ (by decide)
    · exact ⟨by decide, hrecent, by decide⟩
    · exact ⟨by decide, ⟨"0.7.6", by decide⟩, by decide⟩
    · exact hother _ (by decide)
    · exact ⟨by decide, hrecent, by decide⟩
    · exact ⟨by decide, ⟨"0.5.17", by decide⟩, by decide⟩
    · exact hother _ (by decide)
  have hplatform : ∀ c ∈ settings.nativePlatform.toList, Text.isLineEnd c = false := by
    have h : settings.nativePlatform.toList.all fun c => !Text.isLineEnd c := by decide
    simpa using List.all_eq_true.mp h
  have htext : r.text = feed.text settings.nativePlatform .native := Response.text_utf8 _
  have hcache : settings.cache [] = .ok cache := by
    have hfloor : CompilerVersion.parse settings.nativeFloor = .ok ⟨0, 6, 0, none, none⟩ := by decide
    rw [Settings.cache, Settings.releaseSource, hfloor]
    rfl
  have hstatus : r.status = 200 := rfl
  have hbase : cache.source.baseUrl = settings.baseUrl := rfl
  obtain ⟨⟨lines, hread, hlisted⟩, base, slashes, directory, -, -, -, -, hindex, -, hbuilds⟩ :=
    listing_agrees_with_names hbase rfl hplatform hproper hstatus htext
  obtain ⟨name, -, hname, hurl⟩ := hbuilds " 0.07.6" ⟨0, 7, 6, none, none⟩ (by decide)
  have hkept : cache.source.listed .native lines = ["v0.8.20+commit.a1b79de6", "v0.7.6"] := by
    rw [hlisted]
    decide
  refine ⟨hcache, hplatform, hproper, htext, lines, hread, hkept, directory, hindex, ?_⟩
  intro path
  rw [hurl, hname]
  rfl

end Feed

end SolcDispatch
