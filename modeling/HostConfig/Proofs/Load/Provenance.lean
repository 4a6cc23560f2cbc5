import HostConfig.Proofs.Load.Confinement
import HostConfig.Proofs.Load.HostOverMain
import HostConfig.Proofs.Relevant.Closure
import HostConfig.Proofs.Resolution.Flattening

/-!
# Entries tell where they come from

The source of a loaded entry is that of the main file, of the host's file or of a group's file, and
names a file that the load reads and that declares the entry's package itself. A file gives its
source only to packages that it is the first one to speak about, and those it declares; merging
hands sources on as they are.
-/

namespace HostConfig

/-- The part that a file plays in the load of a host. -/
inductive Role
  | main
  | host
  | group (name : String)

/-- The kind of a file with a role. -/
def Role.kind : Role → SourceKind
  | main => .main
  | host => .host
  | group _ => .group

/-- The group that a role names. -/
def Role.group? : Role → Option String
  | group name => some name
  | main | host => none

/-- The file with a role. -/
def Layout.roleFile (l : Layout) (host : String) : Role → Path
  | .main => l.mainFile
  | .host => l.hostFile host
  | .group name => l.groupFile name

/-- The source of the entries of the file with a role. -/
def Layout.roleSource (l : Layout) (host : String) (role : Role) : Provenance :=
  ⟨(l.roleFile host role).toString, role.kind, role.group?⟩

/-- Different roles give different sources. -/
theorem Layout.roleSource_injective {l : Layout} {host : String} {role role' : Role}
    (h : l.roleSource host role = l.roleSource host role') : role = role' := by
  have hkind : role.kind = role'.kind := congrArg Provenance.kind h
  have hgroup : role.group? = role'.group? := congrArg Provenance.group h
  cases role <;> cases role' <;>
    simp_all [Role.kind, Role.group?, SourceKind.main, SourceKind.host]

/-- The file at a path declares a package itself. -/
def Site.DeclaresPackage (site : Site) (path : Path) (package : String) : Prop :=
  ∃ document, site.document path = .ok document ∧
    ∃ s ∈ document.body, s.form = .package package ∨ s.form = .item package

/-- The document of a file with a role is read by the load of a host. -/
structure Site.Reads (site : Site) (host : String) (role : Role) (document : Document) : Prop where
  isSegmented : ∀ name, role = .group name → IsSegmented name
  relevant : site.layout.roleFile host role ∈ relevantFiles site.tree site.layout host
  document_eq : site.document (site.layout.roleFile host role) = .ok document

/-- A package has a source that tells where it comes from. -/
structure Site.TellsSource (site : Site) (host package : String) (source : Provenance)
    (role : Role) : Prop where
  source_eq : source = site.layout.roleSource host role
  isSegmented : ∀ name, role = .group name → IsSegmented name
  relevant : site.layout.roleFile host role ∈ relevantFiles site.tree site.layout host
  declares : site.DeclaresPackage (site.layout.roleFile host role) package

/-- All packages among some entries have sources that tell where they come from. -/
def Site.TellsSources (site : Site) (host : String) (es : Entries) : Prop :=
  ∀ package source, es.source? package = some source →
    ∃ role, site.TellsSource host package source role

variable {site : Site} {host : String} {role : Role} {document : Document}
  {forms : List Form} {r r' final inner : Resolution}

/-- What a document of a load declares has the document's source. -/
theorem Site.Reads.tellsSource (h : site.Reads host role document) {form : Form} {package : String}
    (hform : form ∈ document.forms) (hdeclared : form.declared? = some package) :
    site.TellsSource host package (site.layout.roleSource host role) role where
  source_eq := rfl
  isSegmented := h.isSegmented
  relevant := h.relevant
  declares := by
    obtain ⟨s, hs, rfl⟩ := List.mem_map.mp hform
    refine ⟨document, h.document_eq, s, hs, ?_⟩
    cases hsays : s.form <;> simp_all [Form.declared?]

/-- The document of an included group is read where the including one is. -/
theorem Site.Reads.of_mem_groups (h : site.Reads host role document) {name : String}
    {document' : Document} (hname : .group name ∈ document.forms)
    (hdocument : site.document (site.layout.groupFile name) = .ok document') :
    site.Reads host (.group name) document' where
  isSegmented := by
    rintro _ ⟨⟩
    obtain ⟨text, body, -, rfl, hbody⟩ := site.exists_text_of_document h.document_eq
    obtain ⟨s, hs, hform⟩ := List.mem_map.mp hname
    exact Document.isSegmented_of_mem_body (Document.ofText_eq_ok_iff.mpr ⟨rfl, hbody⟩) hs hform
  relevant := by
    have hincluded : name ∈ groupsOfFile site.tree (site.layout.roleFile host role) := by
      rw [site.groupsOfFile_of_document h.document_eq, document.groups_eq]
      exact List.mem_filterMap.mpr ⟨_, hname, rfl⟩
    exact Site.groupFile_mem_relevantFiles h.relevant hincluded (site.isFile_of_document hdocument)
  document_eq := hdocument

/-- A package is known once it is declared, and stays known. -/
theorem Resolution.append_subset_packages {source : Provenance} {s : Statement}
    (h : r.declare site.layout source s = .ok r') :
    r.entries.packages ++ s.form.declared?.toList ⊆ r'.entries.packages := by
  intro package hpackage
  rw [← Entries.isSome_source?_iff, (declares_of_declare h).source?_eq]
  rw [List.mem_append, ← Entries.isSome_source?_iff, Option.mem_toList] at hpackage
  rcases hpackage with hknown | hdeclared
  · simp [hknown]
  · simp [Form.package?_of_declared? hdeclared]

/-- Carrying out a statement of a document of a load gives its source to what it declares only. -/
theorem Site.Reads.tellsSources_declare (h : site.Reads host role document) {s : Statement}
    {rest : List Form} (hform : s.form ∈ document.forms)
    (hdeclare : r.declare site.layout (site.layout.roleSource host role) s = .ok r')
    (hintroduced : Introduced r.entries.packages (s.form :: rest))
    (hr : site.TellsSources host r.entries) : site.TellsSources host r'.entries := by
  intro package source hsource
  rw [(Resolution.declares_of_declare hdeclare).source?_eq] at hsource
  cases hbefore : r.entries.source? package with
  | some before =>
    rw [hbefore, Option.some_or] at hsource
    exact hr package source (hbefore.trans hsource)
  | none =>
    rw [hbefore, Option.none_or] at hsource
    split at hsource
    · next hpackage =>
      cases hsource
      rcases hintroduced.1 package hpackage with hdeclared | hknown
      · exact ⟨role, h.tellsSource hform hdeclared⟩
      · rw [← Entries.isSome_source?_iff, hbefore] at hknown
        cases hknown
    · cases hsource

/-- Merging entries hands their sources on. -/
theorem Site.tellsSources_putAll {es later : Entries} (hlater : later.packages.Nodup)
    (hes : site.TellsSources host es) (htells : site.TellsSources host later) :
    site.TellsSources host (es.putAll later) := by
  intro package source hsource
  rw [Entries.source?_putAll es hlater] at hsource
  rcases Option.or_eq_some_iff.mp hsource with hinner | ⟨-, houter⟩
  · exact htells package source hinner
  · exact hes package source houter

/-- What a document of a load yields has sources that tell where it comes from. -/
theorem Yields.tellsSources {source : Provenance} (h : Yields site source forms r final)
    (hreads : site.Reads host role document) (hsource : source = site.layout.roleSource host role)
    (hforms : forms ⊆ document.forms) (hintroduced : Introduced r.entries.packages forms)
    (hr : site.TellsSources host r.entries) : site.TellsSources host final.entries := by
  induction h generalizing role document with
  | done => exact hr
  | @declare _ origin form rest r r' _ hform hdeclare _ ih =>
    subst hsource
    obtain ⟨hhead, hrest⟩ := List.cons_subset.mp hforms
    have hknown : r.entries.packages ++ form.declared?.toList ⊆ r'.entries.packages :=
      Resolution.append_subset_packages hdeclare
    have hr' := hreads.tellsSources_declare (s := ⟨origin, form⟩) hhead hdeclare hintroduced hr
    exact ih hreads rfl hrest (hintroduced.2.mono hknown) hr'
  | @expand _ name document' rest r inner _ hdocument hinner _ ihinner ihrest =>
    obtain ⟨hhead, hrest⟩ := List.cons_subset.mp hforms
    have hreads' := hreads.of_mem_groups hhead hdocument
    have hnone : site.TellsSources host [] := fun _ _ hsource => by cases hsource
    have hinside := ihinner hreads' rfl (List.Subset.refl _) (site.introduced_of_document hdocument)
      hnone
    have hnodup := hinner.nodup_packages List.nodup_nil
    have hknown : r.entries.packages ++ (Form.group name).declared?.toList ⊆
        (r.absorb inner).entries.packages := by
      intro package hpackage
      change package ∈ r.entries.packages ++ [] at hpackage
      rw [List.append_nil, ← Entries.isSome_source?_iff] at hpackage
      rw [← Entries.isSome_source?_iff, Resolution.absorb, Entries.source?_putAll _ hnodup]
      simp [hpackage]
    exact ihrest hreads hsource hrest (hintroduced.2.mono hknown)
      (Site.tellsSources_putAll hnodup hr hinside)

/-- What a file of a load yields has sources that tell where it comes from. -/
theorem Site.FileYields.tellsSources (role : Role)
    (h : site.FileYields (site.layout.roleFile host role) role.kind r) (hgroup : role.group? = none)
    (hrelevant : site.tree.isFile (site.layout.roleFile host role) = true →
      site.layout.roleFile host role ∈ relevantFiles site.tree site.layout host) :
    site.TellsSources host r.entries := by
  obtain ⟨document, hdocument, hyields⟩ := h
  have hreads : site.Reads host role document :=
    { isSegmented := by
        rintro name rfl
        cases hgroup
      relevant := hrelevant (site.isFile_of_document hdocument)
      document_eq := hdocument }
  have hsource : ⟨(site.layout.roleFile host role).toString, role.kind, none⟩ =
      site.layout.roleSource host role := by rw [Layout.roleSource, hgroup]
  have hnone : site.TellsSources host [] := fun _ _ hsource => by cases hsource
  exact hyields.tellsSources hreads hsource (List.Subset.refl _)
    (site.introduced_of_document hdocument) hnone

/-- What the host's file yields has sources that tell where it comes from. -/
theorem Site.HostYields.tellsSources (h : site.HostYields host r) :
    site.TellsSources host r.entries := by
  unfold HostYields at h
  split at h
  · exact FileYields.tellsSources .host h rfl Site.hostFile_mem_relevantFiles
  · subst r
    exact fun _ _ hsource => by cases hsource

/-- Each entry of a load that succeeds has a source in exactly one role, and the file with that role
is relevant and declares the entry's package. -/
theorem Site.tellsSource_of_load {journal : Option Journal} {config : Config}
    (h : (site.load host journal).1 = .ok config) :
    ∀ e ∈ config.entries, ∃ role, site.TellsSource host e.package e.provenance role ∧
      ∀ other, e.provenance = site.layout.roleSource host other → other = role := by
  obtain ⟨main, inner, hmain, hinner, rfl⟩ := site.load_eq_ok_iff.mp h
  have htells : site.TellsSources host (main.entries.putAll inner.entries) :=
    Site.tellsSources_putAll hinner.nodup_packages
      (FileYields.tellsSources .main hmain rfl Site.mainFile_mem_relevantFiles)
      hinner.tellsSources
  intro e he
  have hnodup := Entries.nodup_packages_putAll inner.entries hmain.nodup_packages
  have hget := (Entries.get?_eq_some_iff hnodup).mpr ⟨he, rfl⟩
  have hsource : (main.entries.putAll inner.entries).source? e.package = some e.provenance := by
    rw [Entries.source?, hget, Option.map_some]
  obtain ⟨role, hrole⟩ := htells e.package e.provenance hsource
  refine ⟨role, hrole, fun other hother => ?_⟩
  exact Layout.roleSource_injective (hother.symm.trans hrole.source_eq)

/-- A package that the main file declares and a group takes over, one that only speaks on in the main
file, and one that the host's file takes over with nothing to say about it. -/
theorem Site.tellsSource_of_load_taken_over :
    let site := Site.ofTexts "/owl" [
      ("/owl/main.owl", "@package p, q, r\n:script one\n@group a/b\n:script two\n"),
      ("/owl/hosts/box.owl", "@packages\nq\n"),
      ("/owl/groups/a/b.owl", "@package p\n:script three\n")]
    let config : Config := ⟨[
      ⟨"p", ⟨"/owl/groups/a/b.owl", .group, some "a/b"⟩, [], ["three"], [], []⟩,
      ⟨"q", ⟨"/owl/hosts/box.owl", .host, none⟩, [], [], [], []⟩,
      ⟨"r", ⟨"/owl/main.owl", .main, none⟩, [], ["one", "two"], [], []⟩], [], []⟩
    (site.load "box" none).1 = .ok config ∧
      ∀ e ∈ config.entries, ∃ role, site.TellsSource "box" e.package e.provenance role ∧
        ∀ other, e.provenance = site.layout.roleSource "box" other → other = role := by
  intro site config
  have hok : (site.load "box" none).1 = .ok config := by decide +kernel
  exact ⟨hok, site.tellsSource_of_load hok⟩

end HostConfig
