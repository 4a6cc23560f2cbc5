import HostConfig.Proofs.Document.GroupLine
import HostConfig.Proofs.Load.Yield
import HostConfig.Proofs.Resolution.Wrapping

/-!
# Wrapping the groups of a file

Lines of a file that follow each other and include groups can be moved to the file of a new group,
which one line includes in their place. A load gives the same configuration then, for every host
whose file is not the one of the new group; a host with such a name reads that file itself.
-/

namespace HostConfig

open HostConfig.Text

/-- How lines of a file that include groups are moved to the file of a new group, which no file
includes yet. The file is new too, and has one line in their place. -/
structure GroupWrap (site : Site) (path : Path) (name : String) where
  text : List Char
  before : List (List Char)
  names : List String
  after : List (List Char)
  bytes : List UInt8
  groupBytes : List UInt8
  read_path : site.tree.read path = .ok text
  valid : isGroupName name
  unused : ∀ path, name ∉ groupsOfFile site.tree path
  absent : site.tree.isFile (site.layout.groupFile name) = false
  names_ne_nil : names ≠ []
  lines_text : lines text = before ++ names.map groupLine ++ after
  lines_bytes : lines (ofBytes bytes) = before ++ [groupLine name] ++ after
  lines_group : properLines (ofBytes groupBytes) = names.map groupLine

/-- What lines say around others that end a list of packages. -/
def ReadsAround (before after : List (List Char)) (front back : List Form) : Prop :=
  ∃ middle last, readLines .top before = .ok ⟨front, middle⟩ ∧
    readLines (middle.before (.directive .group)) after = .ok ⟨back, last⟩

/-- Lines that say the same in every scope say it between the others. -/
theorem readLines_around {before between after : List (List Char)} {inside forms : List Form}
    (h : ∀ scope, readLines scope between = .ok ⟨inside, scope.before (.directive .group)⟩) :
    (∃ last, readLines .top (before ++ between ++ after) = .ok ⟨forms, last⟩) ↔
      ∃ front back, ReadsAround before after front back ∧ forms = front ++ inside ++ back := by
  simp only [readLines_append_eq_ok]
  constructor
  · rintro ⟨last, _, ⟨back, last'⟩, ⟨⟨front, middle⟩, _, hfront, hinside, rfl⟩, hback, heq⟩
    cases (h middle).symm.trans hinside
    cases heq
    exact ⟨front, back, ⟨middle, _, hfront, hback⟩, rfl⟩
  · rintro ⟨front, back, ⟨middle, last, hfront, hback⟩, rfl⟩
    exact ⟨last, _, _, ⟨_, _, hfront, h middle, rfl⟩, hback, rfl⟩

variable {site : Site} {path other : Path} {name : String} {forms : List Form}

namespace GroupWrap

/-- The site after the lines were moved. -/
def target (m : GroupWrap site path name) : Site :=
  (site.withFile path m.bytes).withFile (site.layout.groupFile name) m.groupBytes

theorem layout_target (m : GroupWrap site path name) : m.target.layout = site.layout := rfl

/-- The new file is not that of the group. -/
theorem key_ne (m : GroupWrap site path name) :
    FileTree.key path ≠ FileTree.key (site.layout.groupFile name) := by
  intro heq
  have hfile := FileTree.isFile_of_read m.read_path
  rw [FileTree.isFile_iff, heq, ← FileTree.isFile_iff, m.absent] at hfile
  cases hfile

/-- At other paths the same texts are read. -/
theorem read_target_of_ne (m : GroupWrap site path name)
    (hgroup : FileTree.key other ≠ FileTree.key (site.layout.groupFile name))
    (hpath : FileTree.key other ≠ FileTree.key path) {text : List Char} :
    m.target.tree.read other = .ok text ↔ site.tree.read other = .ok text :=
  (Site.read_withFile_of_ne hgroup.symm).trans (Site.read_withFile_of_ne hpath.symm)

/-- Where the file was read the new one is read. -/
theorem read_target_of_eq (m : GroupWrap site path name)
    (hpath : FileTree.key other = FileTree.key path) :
    m.target.tree.read other = .ok (ofBytes m.bytes) := by
  rw [FileTree.read_congr _ hpath]
  exact (Site.read_withFile_of_ne m.key_ne.symm).mpr (site.read_withFile_self _ _)

/-- The new line includes the group. -/
theorem readLines_new (m : GroupWrap site path name) (scope : Scope) :
    readLines scope [groupLine name] =
      .ok ⟨[.group name], scope.before (.directive .group)⟩ := by
  have hline : groupLine name ∈ lines (ofBytes m.bytes) := by simp [m.lines_bytes]
  exact readLines_of_mem_lines m.valid hline scope

/-- The new file says what stands around the moved lines, and includes the group between. -/
theorem document_new (m : GroupWrap site path name)
    (hpath : FileTree.key other = FileTree.key path) :
    (∃ document, m.target.document other = .ok document ∧ document.forms = forms) ↔
      ∃ front back, ReadsAround m.before m.after front back ∧
        forms = front ++ [.group name] ++ back := by
  simp only [Site.exists_document_of_read (m.read_target_of_eq hpath), ← readLines_properLines,
    m.lines_bytes, readLines_around m.readLines_new]

/-- The group's file says what the moved lines say. -/
theorem document_group (m : GroupWrap site path name) :
    (∃ document, m.target.document (site.layout.groupFile name) = .ok document ∧
        document.forms = forms) ↔
      ∃ scope, readLines .top (m.names.map groupLine) = .ok ⟨forms, scope⟩ := by
  have hread : m.target.tree.read (site.layout.groupFile name) = .ok (ofBytes m.groupBytes) :=
    Site.read_withFile_self _ _ _
  rw [Site.exists_document_of_read hread, m.lines_group]

/-- The old file says what its three parts say. -/
theorem document_old (m : GroupWrap site path name)
    (hpath : FileTree.key other = FileTree.key path) :
    (∃ document, site.document other = .ok document ∧ document.forms = forms) ↔
      ∃ scope, readLines .top (m.before ++ m.names.map groupLine ++ m.after) =
        .ok ⟨forms, scope⟩ := by
  have hread : site.tree.read other = .ok m.text := by
    rw [FileTree.read_congr _ hpath, m.read_path]
  simp only [Site.exists_document_of_read hread, ← readLines_properLines, m.lines_text]

/-- Documents of other files are the same, and do not include the group. -/
theorem unwraps_of_ne (m : GroupWrap site path name) (block : List Form)
    (hgroup : FileTree.key other ≠ FileTree.key (site.layout.groupFile name))
    (hpath : FileTree.key other ≠ FileTree.key path) :
    (∃ document, site.document other = .ok document ∧ document.forms = forms) ↔
      ∃ document, m.target.document other = .ok document ∧
        m.target.HasGroup name document.forms ∧ unwrap name block document.forms = forms := by
  have hunused : ∀ document, site.document other = .ok document →
      name ∉ groupsIn document.forms := by
    intro document hdocument hmem
    exact (site.group_of_document m.unused hdocument name hmem).2 rfl
  simp only [Site.document_congr fun text => m.read_target_of_ne hgroup hpath]
  constructor
  · rintro ⟨document, hdocument, rfl⟩
    have hnot := hunused document hdocument
    exact ⟨document, hdocument, fun hmem => absurd hmem hnot, unwrap_of_notMem hnot⟩
  · rintro ⟨document, hdocument, -, rfl⟩
    exact ⟨document, hdocument, (unwrap_of_notMem (hunused document hdocument)).symm⟩

/-- Lines that can be read are wrapped by the group. -/
theorem wraps_of_reads (m : GroupWrap site path name) {payloads : List String}
    (h : ∀ scope, readLines scope (m.names.map groupLine) =
      .ok ⟨payloads.map .group, scope.before (.directive .group)⟩) :
    site.Wraps name payloads m.target where
  layout_eq := rfl
  valid := m.valid
  unused := m.unused
  notMem := by
    intro hmem
    apply m.unused path
    have hgroups := groupsIn_of_readLines (h .top) path.toString 1
    rw [groupsIn_map_group] at hgroups
    rw [groupsOfFile, m.read_path]
    simp only [tokenize, m.lines_text, includedGroups_tokensFrom_append, List.mem_append]
    exact Or.inl (Or.inr (hgroups ▸ hmem))
  wrapper document hdocument := by
    obtain ⟨scope, hread⟩ := m.document_group.mp ⟨document, hdocument, rfl⟩
    have hsame := Except.ok.inj ((h .top).symm.trans hread)
    exact (congrArg Reading.forms hsame).symm
  unwraps other hgroup forms := by
    by_cases hpath : FileTree.key other = FileTree.key path
    case neg => exact m.unwraps_of_ne _ hgroup hpath
    obtain ⟨inside, hinside, -⟩ := m.document_group.mpr ⟨_, h .top⟩
    -- The old file does not include the group, so that only the new line is unwrapped.
    have hunwrap : ∀ front back, ReadsAround m.before m.after front back →
        unwrap name (payloads.map .group) (front ++ [.group name] ++ back) =
          front ++ payloads.map .group ++ back := by
      intro front back haround
      obtain ⟨document, hdocument, hforms⟩ := (m.document_old hpath).mpr
        ((readLines_around h).mpr ⟨front, back, haround, rfl⟩)
      have hunused : name ∉ groupsIn (front ++ payloads.map .group ++ back) := by
        intro hmem
        rw [← hforms] at hmem
        exact (site.group_of_document m.unused hdocument name hmem).2 rfl
      exact unwrap_around hunused
    rw [m.document_old hpath, readLines_around h]
    constructor
    · rintro ⟨front, back, haround, rfl⟩
      obtain ⟨document, hdocument, hforms⟩ :=
        (m.document_new hpath).mpr ⟨front, back, haround, rfl⟩
      exact ⟨document, hdocument, fun _ => ⟨inside, hinside⟩, hforms ▸ hunwrap front back haround⟩
    · rintro ⟨document, hdocument, -, rfl⟩
      obtain ⟨front, back, haround, hforms⟩ :=
        (m.document_new hpath).mp ⟨document, hdocument, rfl⟩
      exact ⟨front, back, haround, hforms ▸ hunwrap front back haround⟩

/-- Lines that cannot be read are wrapped by the group, since then neither file can. -/
theorem wraps_of_fails (m : GroupWrap site path name)
    (h : ∀ scope reading, readLines scope (m.names.map groupLine) ≠ .ok reading) :
    site.Wraps name [] m.target where
  layout_eq := rfl
  valid := m.valid
  unused := m.unused
  notMem := List.not_mem_nil
  wrapper document hdocument := by
    obtain ⟨scope, hread⟩ := m.document_group.mp ⟨document, hdocument, rfl⟩
    exact absurd hread (h _ _)
  unwraps other hgroup forms := by
    by_cases hpath : FileTree.key other = FileTree.key path
    case neg => exact m.unwraps_of_ne _ hgroup hpath
    rw [m.document_old hpath]
    constructor
    · rintro ⟨scope, hread⟩
      simp only [readLines_append_eq_ok] at hread
      obtain ⟨_, _, ⟨first, later, -, hlater, -⟩, -⟩ := hread
      exact absurd hlater (h _ _)
    · rintro ⟨document, hdocument, hinside, -⟩
      obtain ⟨front, back, -, hforms⟩ := (m.document_new hpath).mp ⟨document, hdocument, rfl⟩
      have hmem : name ∈ groupsIn document.forms := by
        rw [hforms]
        simp [groupsIn, Form.group?]
      -- The new file includes the group, whose own file holds the lines that cannot be read.
      obtain ⟨inside, hgroupDocument⟩ := hinside hmem
      obtain ⟨scope, hread⟩ := m.document_group.mp ⟨inside, hgroupDocument, rfl⟩
      exact absurd hread (h _ _)

/-- The group wraps what the moved lines include. -/
theorem exists_wraps (m : GroupWrap site path name) :
    ∃ payloads, site.Wraps name payloads m.target := by
  rcases readLines_groupLines_cases m.names_ne_nil with ⟨payloads, h⟩ | h
  · exact ⟨payloads, m.wraps_of_reads h⟩
  · exact ⟨[], m.wraps_of_fails h⟩

/-- The file of a host is found when it was, if there is a main file above which it may stand. -/
theorem contains_hostFile (m : GroupWrap site path name) {host : String}
    (hmain : site.tree.contains site.layout.mainFile = true)
    (hhost : FileTree.key (site.layout.hostFile host) ≠
      FileTree.key (site.layout.groupFile name)) :
    m.target.tree.contains (site.layout.hostFile host) =
      site.tree.contains (site.layout.hostFile host) := by
  have hpath : site.tree.contains path = true :=
    FileTree.contains_of_isFile (FileTree.isFile_of_read m.read_path)
  have hfile : (site.withFile path m.bytes).tree.contains (site.layout.hostFile host) =
      site.tree.contains (site.layout.hostFile host) := FileTree.contains_insert_of_contains hpath
  rw [← hfile, Bool.eq_iff_iff, target, Site.withFile, FileTree.contains_insert]
  constructor
  · rintro (hold | hsame | habove)
    · exact hold
    · exact absurd hsame.symm hhost
    · rw [hfile]
      exact FileTree.contains_of_prefix hmain (Layout.key_hostFile_prefix m.valid habove)
  · exact Or.inl

end GroupWrap

/-- A file yields the same where a group wraps inclusions, unless it is the group's file. -/
theorem Site.Wraps.fileYields_iff {site' : Site} {names : List String} {kind : SourceKind}
    {r : Resolution} (h : site.Wraps name names site')
    (hpath : FileTree.key path ≠ FileTree.key (site.layout.groupFile name)) :
    site'.FileYields path kind r ↔ site.FileYields path kind r := by
  constructor
  · rintro ⟨document', hdocument', hyields⟩
    have hnames := site'.isGroupName_of_document hdocument'
    have hgroup : site'.HasGroup name document'.forms :=
      fun hmem => hyields.exists_document_of_mem hmem
    obtain ⟨document, hdocument, hforms⟩ :=
      (h.unwraps path hpath _).mpr ⟨document', hdocument', hgroup, rfl⟩
    exact ⟨document, hdocument, hforms ▸ h.yields_unwrap hyields hnames List.nodup_nil⟩
  · rintro ⟨document, hdocument, hyields⟩
    obtain ⟨document', hdocument', hgroup, hunwrap⟩ :=
      (h.unwraps path hpath _).mp ⟨document, hdocument, rfl⟩
    have hsame := h.yields_of hyields (site.group_of_document h.unused hdocument)
    rw [← hunwrap] at hsame
    exact ⟨document', hdocument', h.wrap hgroup hsame List.nodup_nil⟩

/-- After lines of a file were moved to the file of a new group, a load gives the same configuration
for every host whose file is not that of the group. -/
theorem GroupWrap.load_wrapped_iff (m : GroupWrap site path name) {host : String}
    (hhost : FileTree.key (site.layout.hostFile host) ≠
      FileTree.key (site.layout.groupFile name))
    (journal journal' : Option Journal) (config : Config) :
    (m.target.load host journal').1 = .ok config ↔ (site.load host journal).1 = .ok config := by
  obtain ⟨payloads, hwraps⟩ := m.exists_wraps
  have hmain := site.layout.key_mainFile_ne_key_groupFile m.valid
  have hinner : site.tree.contains site.layout.mainFile = true → ∀ inner,
      m.target.HostYields host inner ↔ site.HostYields host inner := by
    intro hcontains inner
    rw [Site.HostYields, Site.HostYields, m.layout_target, m.contains_hostFile hcontains hhost,
      hwraps.fileYields_iff hhost]
  simp only [Site.load_eq_ok_iff, m.layout_target, hwraps.fileYields_iff hmain]
  constructor
  · rintro ⟨main, inner, hmainYields, hhostYields, rfl⟩
    exact ⟨main, inner, hmainYields, (hinner hmainYields.contains inner).mp hhostYields, rfl⟩
  · rintro ⟨main, inner, hmainYields, hhostYields, rfl⟩
    exact ⟨main, inner, hmainYields, (hinner hmainYields.contains inner).mpr hhostYields, rfl⟩

/-- Two groups that speak about a package of the main file are wrapped. -/
theorem GroupWrap.load_wrapped_iff_of_pair :
    let site := Site.ofTexts "/owl" [
      ("/owl/main.owl", "@package p\n@group a\n@group b\n:env L = m\n"),
      ("/owl/groups/a.owl", "@package p\n:env K = a\n:script one\n"),
      ("/owl/groups/b.owl", "@package q, p\n:env K = b\n")]
    let config : Config := ⟨[
      ⟨"p", site.layout.groupSource "b", [], ["one"], [], [⟨"K", "b"⟩, ⟨"L", "m"⟩]⟩,
      ⟨"q", site.layout.groupSource "b", [], [], [], []⟩], [], []⟩
    ∃ m : GroupWrap site site.layout.mainFile "both",
      FileTree.key (site.layout.hostFile "box") ≠ FileTree.key (site.layout.groupFile "both") ∧
        (m.target.load "box" none).1 = .ok config := by
  intro site config
  let m : GroupWrap site site.layout.mainFile "both" :=
    { text := "@package p\n@group a\n@group b\n:env L = m\n".toList
      before := ["@package p".toList]
      names := ["a", "b"]
      after := [":env L = m".toList, []]
      bytes := "@package p\n@group both\n:env L = m\n".toList.map fun c => UInt8.ofNat c.toNat
      groupBytes := "@group a\n@group b\n".toList.map fun c => UInt8.ofNat c.toNat
      read_path := by decide +kernel
      valid := by decide
      unused := notMem_groupsOfFile (by decide +kernel)
      absent := by decide +kernel
      names_ne_nil := by decide
      lines_text := by decide +kernel
      lines_bytes := by decide +kernel
      lines_group := by decide +kernel }
  have hhost : FileTree.key (site.layout.hostFile "box") ≠
      FileTree.key (site.layout.groupFile "both") := by decide +kernel
  have hload : (site.load "box" none).1 = .ok config := by decide +kernel
  exact ⟨m, hhost, (m.load_wrapped_iff hhost none none config).mpr hload⟩

/-- A host whose name leads to the new group's file has a file after the move only, so that the
group's variables come twice. -/
theorem GroupWrap.load_differs_at_group_file :
    let site := Site.ofTexts "/owl" [("/owl/main.owl", "@group a\n"),
      ("/owl/groups/a.owl", "@env K = v\n")]
    ∃ m : GroupWrap site site.layout.mainFile "w",
      (site.load "../groups/w" none).1 = .ok ⟨[], [⟨"K", "v"⟩], []⟩ ∧
        (m.target.load "../groups/w" none).1 = .ok ⟨[], [⟨"K", "v"⟩, ⟨"K", "v"⟩], []⟩ := by
  intro site
  let m : GroupWrap site site.layout.mainFile "w" :=
    { text := "@group a\n".toList
      before := []
      names := ["a"]
      after := [[]]
      bytes := "@group w\n".toList.map fun c => UInt8.ofNat c.toNat
      groupBytes := "@group a\n".toList.map fun c => UInt8.ofNat c.toNat
      read_path := by decide +kernel
      valid := by decide
      unused := notMem_groupsOfFile (by decide +kernel)
      absent := by decide +kernel
      names_ne_nil := by decide
      lines_text := by decide +kernel
      lines_bytes := by decide +kernel
      lines_group := by decide +kernel }
  have hold : (site.load "../groups/w" none).1 = .ok ⟨[], [⟨"K", "v"⟩], []⟩ := by decide +kernel
  have hnew : (m.target.load "../groups/w" none).1 = .ok ⟨[], [⟨"K", "v"⟩, ⟨"K", "v"⟩], []⟩ := by
    decide +kernel
  exact ⟨m, hold, hnew⟩

end HostConfig
