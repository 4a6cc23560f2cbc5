import HostConfig.Proofs.Load.Yield

/-!
# The host's file over the main file

In a loaded configuration each package has one entry. Each list of the entry is that of the host's
file, if it is not empty there, and else that of the main file, and never a mixture of both. The
entry's source is in the host's file as soon as that speaks about the package at all.
-/

namespace HostConfig

/-- A configuration is the resolution of a host's file over that of the main file. -/
structure Config.HostOver (config : Config) (main inner : Resolution) : Prop where
  nodup : config.packages.Nodup
  get?_eq_some_iff : ∀ package e,
    config.get? package = some e ↔ e ∈ config.entries ∧ e.package = package
  isSome_get?_iff : ∀ package, (config.get? package).isSome ↔
    package ∈ main.entries.packages ∨ package ∈ inner.entries.packages
  /-- A list is the host's unless that is empty. -/
  list_eq : ∀ package e, config.get? package = some e → ∀ field,
    e.list field = if inner.entries.list package field ≠ [] then inner.entries.list package field
      else main.entries.list package field
  /-- The source is the host's if the package is there. -/
  source_eq : ∀ package e, config.get? package = some e →
    if package ∈ inner.entries.packages then inner.entries.source? package = some e.provenance
    else main.entries.source? package = some e.provenance

/-- The list of an entry that is found is the list of its package. -/
theorem Entries.list_of_get? {es : Entries} {package : String} {e : Entry}
    (h : es.get? package = some e) (field : ListField) : es.list package field = e.list field := by
  rw [list, h]

/-- Where each package stands once, the entries are those that are found. -/
theorem Entries.get?_eq_some_iff {es : Entries} (h : es.packages.Nodup) {package : String}
    {e : Entry} : es.get? package = some e ↔ e ∈ es ∧ e.package = package := by
  constructor
  · intro hget
    exact ⟨List.mem_of_find?_eq_some hget, package_of_get? hget⟩
  · rintro ⟨he, rfl⟩
    exact get?_of_mem h he

/-- Resolutions are put together with the host's over that of the main file. -/
theorem Config.hostOver_ofResolutions {main inner : Resolution}
    (hmain : main.entries.packages.Nodup) (hinner : inner.entries.packages.Nodup) :
    (Config.ofResolutions main inner).HostOver main inner where
  nodup := Entries.nodup_packages_putAll inner.entries hmain
  get?_eq_some_iff package e :=
    Entries.get?_eq_some_iff (Entries.nodup_packages_putAll inner.entries hmain)
  isSome_get?_iff package := by
    change ((main.entries.putAll inner.entries).get? package).isSome ↔ _
    rw [Entries.isSome_get?_iff, Entries.packages_putAll _ hmain, List.mem_eraseDups,
      List.mem_append]
  list_eq package e he field := by
    have hget : (main.entries.putAll inner.entries).get? package = some e := he
    rw [← Entries.list_of_get? hget, Entries.list_putAll _ hinner, lastNonEmpty]
    cases inner.entries.list package field <;> simp
  source_eq package e he := by
    have hsource : (main.entries.putAll inner.entries).source? package = some e.provenance :=
      congrArg (Option.map Entry.provenance) he
    rw [Entries.source?_putAll _ hinner] at hsource
    split
    · next hmem =>
      rw [← Entries.isSome_source?_iff, Option.isSome_iff_exists] at hmem
      obtain ⟨source, hinnerSource⟩ := hmem
      rwa [hinnerSource, Option.some_or, ← hinnerSource] at hsource
    · next hmem =>
      rw [← Entries.isSome_source?_iff, Option.not_isSome_iff_eq_none] at hmem
      rwa [hmem, Option.none_or] at hsource

/-- An outcome puts the host's file over the main file, each resolved on its own. -/
structure Site.PutsHostOverMain (site : Site) (host : String) (outcome : Except Failure Config) :
    Prop where
  /-- There is no configuration exactly when there is no main file or one of the files fails. -/
  error_iff : (∃ failure, outcome = .error failure) ↔
    site.tree.contains site.layout.mainFile = false ∨
    (∃ failure, (site.resolveFile site.layout.mainFile .main none).1 = .error failure) ∨
    site.tree.contains (site.layout.hostFile host) = true ∧
      ∃ failure, (site.resolveFile (site.layout.hostFile host) .host none).1 = .error failure
  hostOver : ∀ config, outcome = .ok config → ∃ main inner,
    (site.resolveFile site.layout.mainFile .main none).1 = .ok main ∧
    (if site.tree.contains (site.layout.hostFile host) then
      (site.resolveFile (site.layout.hostFile host) .host none).1 = .ok inner
    else inner = {}) ∧
    config.HostOver main inner

/-- There is an error exactly when there is no result. -/
theorem exists_eq_error_iff {ε α : Type} {outcome : Except ε α} :
    (∃ e, outcome = .error e) ↔ ∀ a, outcome ≠ .ok a := by
  cases outcome <;> simp

/-- A load puts the host's file over the main file. -/
theorem Site.putsHostOverMain_load (site : Site) (host : String) (journal : Option Journal) :
    site.PutsHostOverMain host (site.load host journal).1 where
  error_iff := by
    simp only [exists_eq_error_iff, ne_eq, load_eq_ok_iff, resolveFile_eq_ok_iff]
    constructor
    · intro hfail
      by_cases hmain : ∃ main, site.FileYields site.layout.mainFile .main main
      · obtain ⟨main, hmain⟩ := hmain
        cases htree : site.tree.contains (site.layout.hostFile host) with
        | true =>
          refine Or.inr (Or.inr ⟨rfl, fun inner hinner => ?_⟩)
          exact hfail _ ⟨main, inner, hmain, (hostYields_of_contains htree).mpr hinner, rfl⟩
        | false =>
          have hinner : site.HostYields host {} := (hostYields_of_not_contains htree).mpr rfl
          exact absurd ⟨main, {}, hmain, hinner, rfl⟩ (hfail _)
      · exact Or.inr (Or.inl (not_exists.mp hmain))
    · rintro (habsent | hmainFails | ⟨htree, hhostFails⟩) config ⟨main, inner, hmain, hinner, -⟩
      · rw [hmain.contains] at habsent
        cases habsent
      · exact hmainFails main hmain
      · exact hhostFails inner ((hostYields_of_contains htree).mp hinner)
  hostOver config hconfig := by
    obtain ⟨main, inner, hmain, hinner, rfl⟩ := site.load_eq_ok_iff.mp hconfig
    refine ⟨main, inner, site.resolveFile_eq_ok_iff.mpr hmain, ?_, ?_⟩
    · simpa only [HostYields, resolveFile_eq_ok_iff] using hinner
    · exact Config.hostOver_ofResolutions hmain.nodup_packages hinner.nodup_packages

/-- A host that only names a package takes its entry over, and leaves it the lists of the main
file. -/
example :
    let site := Site.ofTexts "/owl" [("/owl/main.owl", "@package p\n:env K = m\n"),
      ("/owl/hosts/box.owl", "@package p\n:script run\n")]
    (site.load "box" none).1 = .ok ⟨[⟨"p", ⟨"/owl/hosts/box.owl", .host, none⟩, [], ["run"], [],
      [⟨"K", "m"⟩]⟩], [], []⟩ := by
  decide +kernel

end HostConfig
