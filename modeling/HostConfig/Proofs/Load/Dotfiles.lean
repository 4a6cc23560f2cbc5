import HostConfig.Proofs.Layout.Dotfile
import HostConfig.Proofs.Load.HostOverMain
import HostConfig.Proofs.Load.Order

/-!
# The dotfiles of a loaded configuration

Each item in a list of a loaded entry is added by a statement about the entry's package, in one of
the files that the load is led to. So each mapping has its source from the text of a statement, and
what is known about that text decides where the source is.
-/

namespace HostConfig

variable {site : Site} {path : Path} {kind : SourceKind} {host : String} {r : Resolution}
  {journal : Option Journal} {config : Config} {package : String} {field : ListField}
  {item : field.Item} {flat : List Form}

namespace Site

/-- What a file yields for a package is added by a statement. -/
theorem FileYields.exists_form (h : site.FileYields path kind r)
    (hflat : site.FlattensFile path flat) (hitem : item ∈ r.entries.list package field) :
    ∃ form ∈ flat, item ∈ form.declares site.layout package field := by
  obtain ⟨document, hdocument, hyields⟩ := h
  obtain ⟨document', hdocument', hflattens⟩ := hflat
  cases hdocument.symm.trans hdocument'
  rcases hyields.mem_list hflattens hitem with hnone | hadded
  · cases hnone
  · exact hadded

/-- What a host's file yields for a package is added by a statement. -/
theorem HostYields.exists_form (h : site.HostYields host r) (hflat : site.FlattensHost host flat)
    (hitem : item ∈ r.entries.list package field) :
    ∃ form ∈ flat, item ∈ form.declares site.layout package field := by
  unfold HostYields FlattensHost at *
  split at h
  · next htree =>
    rw [if_pos htree] at hflat
    exact FileYields.exists_form h hflat hitem
  · rw [h] at hitem
    cases hitem

/-- What a loaded entry holds is added by a statement about its package. -/
theorem exists_form_of_load (h : (site.load host journal).1 = .ok config)
    (hflat : site.FlattensLoad host flat) {e : Entry} (he : e ∈ config.entries)
    (hitem : item ∈ e.list field) : ∃ form ∈ flat, item ∈ form.declares site.layout e.package field := by
  obtain ⟨main, inner, hmain, hinner, rfl⟩ := site.load_eq_ok_iff.mp h
  obtain ⟨mainFlat, innerFlat, hmainFlat, hinnerFlat, rfl⟩ := hflat
  have hnodup := Entries.nodup_packages_putAll inner.entries hmain.nodup_packages
  have hget := (Entries.get?_eq_some_iff hnodup).mpr ⟨he, rfl⟩
  rw [← Entries.list_of_get? hget, Entries.list_putAll _ hinner.nodup_packages] at hitem
  rcases mem_lastNonEmpty hitem with hofMain | hofHost
  · obtain ⟨form, hmem, hadds⟩ := hmain.exists_form hmainFlat hofMain
    exact ⟨form, List.mem_append_left _ hmem, hadds⟩
  · obtain ⟨form, hmem, hadds⟩ := hinner.exists_form hinnerFlat hofHost
    exact ⟨form, List.mem_append_right _ hmem, hadds⟩

end Site

/-- A mapping is added by a statement that spells its source and its destination. -/
theorem Form.mem_declares_configs {l : Layout} {form : Form} {mapping : ConfigMapping}
    (h : mapping ∈ form.declares l package .configs) :
    ∃ word, form = .packageConfig package word mapping.destination ∧
      mapping.source = (l.dotfile word).toString := by
  unfold Form.declares at h
  split at h
  · next hpackage =>
    cases form <;> simp_all [Form.additions, Form.package?]
  · cases h

/-- Below a normal root, each mapping of a load that succeeds is what a statement among all that
the files say gives the package, and its source is where the text of that statement leads. -/
theorem Site.locatesDotfile_of_load (hroot : site.layout.root.Normal)
    (h : (site.load host journal).1 = .ok config) :
    ∃ flat, site.FlattensLoad host flat ∧ ∀ e ∈ config.entries, ∀ mapping ∈ e.configs,
      ∃ word, .packageConfig e.package word mapping.destination ∈ flat ∧
        site.layout.LocatesDotfile word mapping.source := by
  obtain ⟨flat, hflat, -⟩ := Site.exists_followsOrder_of_load h
  refine ⟨flat, hflat, fun e he mapping hmapping => ?_⟩
  have hitem : mapping ∈ e.list .configs := hmapping
  obtain ⟨form, hform, hadds⟩ := exists_form_of_load h hflat he hitem
  obtain ⟨word, rfl, hsource⟩ := Form.mem_declares_configs hadds
  exact ⟨word, hform, hsource ▸ Layout.locatesDotfile hroot word⟩

/-- A text that turns back within the directory, and one that names a directory of its own. -/
theorem Site.locatesDotfile_of_load_turning :
    let site := Site.ofTexts "/owl" [
      ("/owl/main.owl", "@package p\n:config a/../b -> x\n:config c/ -> y\n")]
    let e : Entry := ⟨"p", ⟨"/owl/main.owl", .main, none⟩,
      [⟨"/owl/dotfiles/b", "x"⟩, ⟨"/owl/dotfiles/c", "y"⟩], [], [], []⟩
    (site.load "box" none).1 = .ok ⟨[e], [], []⟩ ∧
      ∃ flat, site.FlattensLoad "box" flat ∧ ∀ mapping ∈ e.configs,
        ∃ word, .packageConfig "p" word mapping.destination ∈ flat ∧
          site.layout.LocatesDotfile word mapping.source := by
  intro site e
  have hroot : site.layout.root.Normal := ⟨by decide, by decide⟩
  have hok : (site.load "box" none).1 = .ok ⟨[e], [], []⟩ := by decide +kernel
  obtain ⟨flat, hflat, hmappings⟩ := site.locatesDotfile_of_load hroot hok
  exact ⟨hok, flat, hflat, hmappings e List.mem_cons_self⟩

/-- An anchored text leads out of the directory of dotfiles, and so do double dots. -/
theorem Site.source_outside_dotfiles :
    let site := Site.ofTexts "/owl" [
      ("/owl/main.owl", "@package p\n:config /etc/passwd -> x\n:config ../main.owl -> y\n")]
    let e : Entry := ⟨"p", ⟨"/owl/main.owl", .main, none⟩,
      [⟨"/etc/passwd", "x"⟩, ⟨"/owl/main.owl", "y"⟩], [], [], []⟩
    (site.load "box" none).1 = .ok ⟨[e], [], []⟩ ∧
      ∀ mapping ∈ e.configs, ¬ (Path.ofString mapping.source).IsWithin site.layout.dotfiles := by
  intro site e
  refine ⟨by decide +kernel, fun mapping hmapping hwithin => ?_⟩
  have hprefix : ∀ mapping ∈ e.configs, ¬ site.layout.dotfiles.normalize.segments <+:
      (Path.ofString mapping.source).normalize.segments := by decide
  exact hprefix mapping hmapping hwithin.isPrefix

end HostConfig
