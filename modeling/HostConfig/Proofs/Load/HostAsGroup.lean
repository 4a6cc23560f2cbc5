import HostConfig.Proofs.Document.Edit
import HostConfig.Proofs.Document.GroupLine
import HostConfig.Proofs.Load.Yield
import HostConfig.Proofs.Resolution.Relabelling

/-!
# A host's file as a group

What a host's file says could as well stand in the file of a group that the last line of the main
file includes. A load for a host without a file then gives the same configuration, except that
entries of the host become entries of the group. So the way in which a load puts the host's file
over the main file is the way in which an inclusion merges a group.
-/

namespace HostConfig

open HostConfig.Text

/-- How the text of a host's file is moved to the file of a new group, which a new last line of the
main file includes. -/
structure HostMove (site : Site) (host name : String) where
  mainText : List Char
  hostText : List Char
  before : List (List Char)
  mainBytes : List UInt8
  groupBytes : List UInt8
  read_main : site.tree.read site.layout.mainFile = .ok mainText
  read_host : site.tree.read (site.layout.hostFile host) = .ok hostText
  valid : isGroupName name
  unused : ∀ path, name ∉ groupsOfFile site.tree path
  /-- The last line of the main file may be ended or not. -/
  before_eq : before = lines mainText ∨ before = properLines mainText
  lines_main : properLines (ofBytes mainBytes) = before ++ [groupLine name]
  text_group : ofBytes groupBytes = hostText

/-- The sources of a host become those of a group. -/
def Layout.hostAsGroup (l : Layout) (name : String) (source : Provenance) : Provenance :=
  if source.kind = .host then l.groupSource name else source

/-- The sources of groups stay as they are. -/
theorem Layout.hostAsGroup_groupSource (l : Layout) (name other : String) :
    l.hostAsGroup name (l.groupSource other) = l.groupSource other := by
  have hkind : (l.groupSource other).kind ≠ .host := by
    change SourceKind.group ≠ SourceKind.host
    decide
  rw [hostAsGroup, if_neg hkind]

variable {site : Site} {host name : String} {source : Provenance} {forms : List Form}
  {r : Resolution}

namespace HostMove

/-- The site after the move. -/
def target (m : HostMove site host name) : Site :=
  (site.withFile site.layout.mainFile m.mainBytes).withFile (site.layout.groupFile name)
    m.groupBytes

theorem layout_target (m : HostMove site host name) : m.target.layout = site.layout := rfl

/-- The documents of other groups are the same. -/
theorem document_group (m : HostMove site host name) {other : String}
    (hother : isGroupName other) (hne : other ≠ name) {document : Document} :
    m.target.document (site.layout.groupFile other) = .ok document ↔
      site.document (site.layout.groupFile other) = .ok document := by
  have hgroup : FileTree.key (site.layout.groupFile name) ≠
      FileTree.key (site.layout.groupFile other) :=
    fun heq => hne (site.layout.key_groupFile_injective m.valid hother heq).symm
  have hmain := site.layout.key_mainFile_ne_key_groupFile hother
  refine Site.document_congr fun text => ?_
  exact (Site.read_withFile_of_ne hgroup).trans (Site.read_withFile_of_ne hmain)

/-- The new line of the main file includes the group. -/
theorem readLines_last (m : HostMove site host name) (scope : Scope) :
    readLines scope [groupLine name] =
      .ok ⟨[.group name], scope.before (.directive .group)⟩ := by
  have hline : groupLine name ∈ lines (ofBytes m.mainBytes) :=
    properLines_subset _ (m.lines_main ▸ List.mem_append_right _ List.mem_cons_self)
  exact readLines_of_mem_lines m.valid hline scope

/-- The lines before the new one are read as the old main file is. -/
theorem readLines_before (m : HostMove site host name) {scope : Scope} {reading : Reading} :
    readLines scope m.before = .ok reading ↔
      readLines scope (properLines m.mainText) = .ok reading := by
  rcases m.before_eq with h | h
  · rw [h, readLines_properLines]
  · rw [h]

/-- The main file says what it said, and includes the group at the end. -/
theorem document_main (m : HostMove site host name) :
    (∃ document, m.target.document site.layout.mainFile = .ok document ∧
        document.forms = forms) ↔
      ∃ before, (∃ document, site.document site.layout.mainFile = .ok document ∧
        document.forms = before) ∧ forms = before ++ [.group name] := by
  have hread : m.target.tree.read site.layout.mainFile = .ok (ofBytes m.mainBytes) := by
    have hkey := (site.layout.key_mainFile_ne_key_groupFile m.valid).symm
    exact (Site.read_withFile_of_ne hkey).mpr (site.read_withFile_self _ _)
  simp only [Site.exists_document_of_read hread, Site.exists_document_of_read m.read_main,
    m.lines_main, readLines_append_eq_ok, readLines_before]
  constructor
  · rintro ⟨scope, ⟨before, middle⟩, later, hbefore, hlater, heq⟩
    cases (m.readLines_last middle).symm.trans hlater
    cases heq
    exact ⟨before, ⟨middle, hbefore⟩, rfl⟩
  · rintro ⟨before, ⟨middle, hbefore⟩, rfl⟩
    exact ⟨_, _, _, hbefore, m.readLines_last middle, rfl⟩

/-- The group's file says what the host's file said. -/
theorem document_moved (m : HostMove site host name) :
    (∃ document, m.target.document (site.layout.groupFile name) = .ok document ∧
        document.forms = forms) ↔
      ∃ document, site.document (site.layout.hostFile host) = .ok document ∧
        document.forms = forms := by
  have hread : m.target.tree.read (site.layout.groupFile name) = .ok m.hostText := by
    rw [← m.text_group]
    exact Site.read_withFile_self _ _ _
  rw [Site.exists_document_of_read hread, Site.exists_document_of_read m.read_host]

/-- What leads to used groups only yields the same after the move. -/
theorem yields_iff (m : HostMove site host name)
    (hforms : ∀ other ∈ groupsIn forms, isGroupName other ∧ other ≠ name) {final : Resolution} :
    Yields m.target source forms r final ↔ Yields site source forms r final := by
  constructor
  · intro h
    refine h.of_agree rfl hforms fun other hother document hdocument => ?_
    have hdocument' := (m.document_group hother.1 hother.2).mp hdocument
    exact ⟨hdocument', site.group_of_document m.unused hdocument'⟩
  · intro h
    refine h.of_agree rfl hforms fun other hother document hdocument => ?_
    have hdocument' := (m.document_group hother.1 hother.2).mpr hdocument
    exact ⟨hdocument', site.group_of_document m.unused hdocument⟩

/-- The group yields what the host's file did, with the sources replaced. -/
theorem yields_moved (m : HostMove site host name) :
    (∃ document, m.target.document (site.layout.groupFile name) = .ok document ∧
        Yields m.target (site.layout.groupSource name) document.forms {} r) ↔
      ∃ inner, site.FileYields (site.layout.hostFile host) .host inner ∧
        r = inner.mapSource (site.layout.hostAsGroup name) := by
  have hmap : ∀ {document : Document} {inner : Resolution},
      Yields site ⟨(site.layout.hostFile host).toString, .host, none⟩ document.forms {} inner →
        Yields site (site.layout.groupSource name) document.forms {}
          (inner.mapSource (site.layout.hostAsGroup name)) :=
    fun h => h.mapSource (site.layout.hostAsGroup_groupSource name)
  constructor
  · rintro ⟨document, hdocument, hyields⟩
    obtain ⟨old, hold, hforms⟩ := m.document_moved.mp ⟨document, hdocument, rfl⟩
    rw [← hforms, m.yields_iff (site.group_of_document m.unused hold)] at hyields
    obtain ⟨inner, hinner⟩ := hyields.exists_yields {} _
    exact ⟨inner, ⟨old, hold, hinner⟩, hyields.unique (hmap hinner)⟩
  · rintro ⟨inner, ⟨old, hold, hinner⟩, rfl⟩
    obtain ⟨document, hdocument, hforms⟩ := m.document_moved.mpr ⟨old, hold, rfl⟩
    refine ⟨document, hdocument, ?_⟩
    rw [hforms, m.yields_iff (site.group_of_document m.unused hold)]
    exact hmap hinner

/-- The new main file yields what the old one did, and merges what the group yields. -/
theorem fileYields_main (m : HostMove site host name) :
    m.target.FileYields site.layout.mainFile .main r ↔
      ∃ main inner, site.FileYields site.layout.mainFile .main main ∧
        site.FileYields (site.layout.hostFile host) .host inner ∧
        r = main.absorb (inner.mapSource (site.layout.hostAsGroup name)) := by
  constructor
  · rintro ⟨document, hdocument, hyields⟩
    obtain ⟨_, ⟨old, hold, rfl⟩, hforms⟩ := m.document_main.mp ⟨document, hdocument, rfl⟩
    rw [hforms, Yields.append_iff] at hyields
    obtain ⟨main, hmain, hlast⟩ := hyields
    rw [m.yields_iff (site.group_of_document m.unused hold)] at hmain
    cases hlast with
    | declare hform => cases hform
    | expand hgroup hinside hrest =>
      cases hrest
      obtain ⟨inner, hinner, rfl⟩ := m.yields_moved.mp ⟨_, hgroup, hinside⟩
      exact ⟨main, inner, ⟨old, hold, hmain⟩, hinner, rfl⟩
  · rintro ⟨main, inner, ⟨old, hold, hmain⟩, hinner, rfl⟩
    obtain ⟨document, hdocument, hforms⟩ := m.document_main.mpr ⟨_, ⟨old, hold, rfl⟩, rfl⟩
    obtain ⟨moved, hgroup, hinside⟩ := m.yields_moved.mpr ⟨inner, hinner, rfl⟩
    refine ⟨document, hdocument, ?_⟩
    rw [hforms, Yields.append_iff]
    refine ⟨main, ?_, .expand hgroup hinside .done⟩
    rwa [m.yields_iff (site.group_of_document m.unused hold)]

end HostMove

/-- Putting resolutions together commutes with replacing sources. -/
theorem Config.mapSource_ofResolutions (f : Provenance → Provenance) (main inner : Resolution) :
    (Config.ofResolutions main inner).mapSource f =
      .ofResolutions (main.mapSource f) (inner.mapSource f) := by
  simp only [mapSource, ofResolutions, Resolution.mapSource, Entries.map_putAll]

/-- What the main file yields has no sources of hosts. -/
theorem Site.FileYields.mapSource_main {path : Path} (h : site.FileYields path .main r)
    (name : String) : r.mapSource (site.layout.hostAsGroup name) = r := by
  obtain ⟨document, -, hyields⟩ := h
  have hmap := hyields.mapSource (site.layout.hostAsGroup_groupSource name)
  have hsource : site.layout.hostAsGroup name ⟨path.toString, .main, none⟩ =
      ⟨path.toString, .main, none⟩ := by
    have hkind : SourceKind.main ≠ SourceKind.host := by decide
    rw [Layout.hostAsGroup, if_neg hkind]
  rw [hsource] at hmap
  exact hmap.unique hyields

/-- After a host's file was moved to a group at the end of the main file, a load for a host without
a file gives the same configuration with the host's sources replaced by those of the group. -/
theorem HostMove.load_moved_iff (m : HostMove site host name) {other : String}
    (hother : m.target.tree.contains (site.layout.hostFile other) = false)
    (journal journal' : Option Journal) (config : Config) :
    (m.target.load other journal').1 = .ok config ↔
      ∃ old, (site.load host journal).1 = .ok old ∧
        old.mapSource (site.layout.hostAsGroup name) = config := by
  have hcontains : site.tree.contains (site.layout.hostFile host) = true :=
    FileTree.contains_of_isFile (FileTree.isFile_of_read m.read_host)
  simp only [Site.load_eq_ok_iff, m.layout_target, m.fileYields_main,
    Site.hostYields_of_not_contains hother, Site.hostYields_of_contains hcontains]
  constructor
  · rintro ⟨_, _, ⟨main, inner, hmain, hinner, rfl⟩, rfl, rfl⟩
    refine ⟨_, ⟨main, inner, hmain, hinner, rfl⟩, ?_⟩
    rw [Config.mapSource_ofResolutions, hmain.mapSource_main name]
    simp [Config.ofResolutions, Resolution.absorb, Entries.putAll]
  · rintro ⟨_, ⟨main, inner, hmain, hinner, rfl⟩, rfl⟩
    refine ⟨_, _, ⟨main, inner, hmain, hinner, rfl⟩, rfl, ?_⟩
    rw [Config.mapSource_ofResolutions, hmain.mapSource_main name]
    simp [Config.ofResolutions, Resolution.absorb, Entries.putAll]

/-- A host that extends an entry of the main file and shares a group with it. -/
theorem HostMove.load_moved_iff_of_shared :
    let site := Site.ofTexts "/owl" [("/owl/main.owl", "@package p\n:env K = m\n@group a\n"),
      ("/owl/hosts/box.owl", "@group a\n@package p, q\n"), ("/owl/groups/a.owl", "@env G = a\n")]
    let group := site.layout.groupSource "moved"
    ∃ m : HostMove site "box" "moved",
      m.target.tree.contains (site.layout.hostFile "other") = false ∧
      (m.target.load "other" none).1 = .ok ⟨[⟨"p", group, [], [], [], [⟨"K", "m"⟩]⟩,
        ⟨"q", group, [], [], [], []⟩], [⟨"G", "a"⟩, ⟨"G", "a"⟩], []⟩ := by
  intro site group
  let m : HostMove site "box" "moved" :=
    { mainText := "@package p\n:env K = m\n@group a\n".toList
      hostText := "@group a\n@package p, q\n".toList
      before := ["@package p".toList, ":env K = m".toList, "@group a".toList]
      mainBytes := "@package p\n:env K = m\n@group a\n@group moved\n".toList.map
        fun c => UInt8.ofNat c.toNat
      groupBytes := "@group a\n@package p, q\n".toList.map fun c => UInt8.ofNat c.toNat
      read_main := by decide +kernel
      read_host := by decide +kernel
      valid := by decide
      unused := notMem_groupsOfFile (by decide +kernel)
      before_eq := by decide +kernel
      lines_main := by decide +kernel
      text_group := by decide +kernel }
  have hother : m.target.tree.contains (site.layout.hostFile "other") = false := by decide +kernel
  let box : Provenance := ⟨"/owl/hosts/box.owl", .host, none⟩
  have hload : (site.load "box" none).1 = .ok ⟨[⟨"p", box, [], [], [], [⟨"K", "m"⟩]⟩,
      ⟨"q", box, [], [], [], []⟩], [⟨"G", "a"⟩, ⟨"G", "a"⟩], []⟩ := by decide +kernel
  exact ⟨m, hother, (m.load_moved_iff hother none none _).mpr ⟨_, hload, rfl⟩⟩

end HostConfig
