import HostConfig.Proofs.Load.Yield
import HostConfig.Proofs.Resolution.Flattening

/-!
# The order of a loaded configuration

All that the main file and the host's file say, with groups flattened, is one list of statements.
A loaded configuration follows it: packages come in the order in which the list declares them
first, and no variable or script is lost, moved or taken for a repetition.
-/

namespace HostConfig

/-- The file at a path flattens to a list. -/
def Site.FlattensFile (site : Site) (path : Path) (flat : List Form) : Prop :=
  ∃ document, site.document path = .ok document ∧ Flattens site document.forms flat

/-- The file of a host flattens to a list; an absent one is empty. -/
def Site.FlattensHost (site : Site) (host : String) (flat : List Form) : Prop :=
  if site.tree.contains (site.layout.hostFile host) then
    site.FlattensFile (site.layout.hostFile host) flat
  else flat = []

/-- The main file and the file of a host flatten to a list, one after the other. -/
def Site.FlattensLoad (site : Site) (host : String) (flat : List Form) : Prop :=
  ∃ main inner, site.FlattensFile site.layout.mainFile main ∧ site.FlattensHost host inner ∧
    flat = main ++ inner

/-- A configuration follows a flat list. -/
structure Config.FollowsOrder (config : Config) (flat : List Form) : Prop where
  packages_eq : config.packages = (flat.filterMap Form.declared?).eraseDups
  envs_eq : config.envs = flat.filterMap Form.env?
  scripts_eq : config.scripts = flat.filterMap Form.script?

/-- A resolution alone as a configuration. -/
def Resolution.config (r : Resolution) : Config := ⟨r.entries, r.envs, r.scripts⟩

namespace Site

variable {site : Site} {path : Path} {kind : SourceKind} {host : String} {r : Resolution}
  {flat flat' : List Form}

theorem FlattensFile.unique (h : site.FlattensFile path flat)
    (h' : site.FlattensFile path flat') : flat = flat' := by
  obtain ⟨document, hdocument, hflat⟩ := h
  obtain ⟨document', hdocument', hflat'⟩ := h'
  cases hdocument.symm.trans hdocument'
  exact hflat.unique hflat'

theorem FlattensHost.unique (h : site.FlattensHost host flat)
    (h' : site.FlattensHost host flat') : flat = flat' := by
  unfold FlattensHost at h h'
  split at h
  · next htree =>
    rw [if_pos htree] at h'
    exact FlattensFile.unique h h'
  · next htree =>
    rw [if_neg htree] at h'
    exact h.trans h'.symm

/-- A load has at most one flat list. -/
theorem FlattensLoad.unique (h : site.FlattensLoad host flat)
    (h' : site.FlattensLoad host flat') : flat = flat' := by
  obtain ⟨main, inner, hmain, hinner, rfl⟩ := h
  obtain ⟨main', inner', hmain', hinner', rfl⟩ := h'
  rw [hmain.unique hmain', hinner.unique hinner']

/-- A file that yields a resolution flattens, and the resolution follows the flat list. -/
theorem FileYields.exists_followsOrder (h : site.FileYields path kind r) :
    ∃ flat, site.FlattensFile path flat ∧ r.config.FollowsOrder flat := by
  obtain ⟨document, hdocument, hyields⟩ := h
  obtain ⟨flat, hflat⟩ := hyields.exists_flattens
  have hintroduced := site.introduced_of_document hdocument
  obtain ⟨henvs, hscripts⟩ := hyields.globals_eq hflat
  refine ⟨flat, ⟨document, hdocument, hflat⟩, ?_, henvs, hscripts⟩
  exact hyields.packages_eq hflat List.nodup_nil hintroduced

/-- What a host yields follows the flat list of the host's file. -/
theorem HostYields.exists_followsOrder (h : site.HostYields host r) :
    ∃ flat, site.FlattensHost host flat ∧ r.config.FollowsOrder flat := by
  cases htree : site.tree.contains (site.layout.hostFile host) with
  | true =>
    rw [hostYields_of_contains htree] at h
    simpa only [FlattensHost, htree, if_true] using h.exists_followsOrder
  | false =>
    rw [hostYields_of_not_contains htree] at h
    subst r
    exact ⟨[], by simp [FlattensHost, htree], rfl, rfl, rfl⟩

end Site

/-- Resolutions that follow two lists are put together to a configuration that follows both. -/
theorem Config.followsOrder_ofResolutions {main inner : Resolution} {flat flat' : List Form}
    (hmain : main.config.FollowsOrder flat) (hinner : inner.config.FollowsOrder flat') :
    (Config.ofResolutions main inner).FollowsOrder (flat ++ flat') where
  packages_eq := by
    have hpackages : main.entries.packages = _ := hmain.packages_eq
    have hpackages' : inner.entries.packages = _ := hinner.packages_eq
    have hnodup : main.entries.packages.Nodup := hpackages ▸ nodup_eraseDups _
    change (main.entries.putAll inner.entries).packages = _
    rw [Entries.packages_putAll _ hnodup, hpackages, hpackages', eraseDups_eraseDups_append,
      eraseDups_append_eraseDups, List.filterMap_append]
  envs_eq := by
    rw [List.filterMap_append, ← hmain.envs_eq, ← hinner.envs_eq]
    rfl
  scripts_eq := by
    rw [List.filterMap_append, ← hmain.scripts_eq, ← hinner.scripts_eq]
    rfl

/-- A load that succeeds has a flat list that the configuration follows. -/
theorem Site.exists_followsOrder_of_load {site : Site} {host : String} {journal : Option Journal}
    {config : Config} (h : (site.load host journal).1 = .ok config) :
    ∃ flat, site.FlattensLoad host flat ∧ config.FollowsOrder flat := by
  obtain ⟨main, inner, hmain, hinner, rfl⟩ := site.load_eq_ok_iff.mp h
  obtain ⟨flat, hflat, hmainOrder⟩ := hmain.exists_followsOrder
  obtain ⟨flat', hflat', hinnerOrder⟩ := hinner.exists_followsOrder
  exact ⟨flat ++ flat', ⟨flat, flat', hflat, hflat', rfl⟩,
    Config.followsOrder_ofResolutions hmainOrder hinnerOrder⟩

/-- A load that succeeds has exactly one flat list, which the configuration follows. -/
theorem Site.followsOrder_of_load {site : Site} {host : String} {journal : Option Journal}
    {config : Config} (h : (site.load host journal).1 = .ok config) :
    ∃ flat, (∀ other, site.FlattensLoad host other ↔ other = flat) ∧
      config.FollowsOrder flat := by
  obtain ⟨flat, hload, horder⟩ := Site.exists_followsOrder_of_load h
  refine ⟨flat, fun other => ⟨fun hother => hother.unique hload, ?_⟩, horder⟩
  rintro rfl
  exact hload

/-- A group that is included twice, between declarations that repeat its package. -/
theorem Site.followsOrder_of_load_repeated :
    let site := Site.ofTexts "/owl" [
      ("/owl/main.owl", "@package q\n@group a\n@env K = m\n@group a\n"),
      ("/owl/hosts/box.owl", "@package r, p\n@env K = h\n"),
      ("/owl/groups/a.owl", "@env G = a\n@packages\np\nq\n")]
    let group : Provenance := ⟨"/owl/groups/a.owl", .group, some "a"⟩
    let box : Provenance := ⟨"/owl/hosts/box.owl", .host, none⟩
    let config : Config := ⟨[⟨"q", group, [], [], [], []⟩, ⟨"p", box, [], [], [], []⟩,
      ⟨"r", box, [], [], [], []⟩],
      [⟨"G", "a"⟩, ⟨"K", "m"⟩, ⟨"G", "a"⟩, ⟨"K", "h"⟩], []⟩
    (site.load "box" none).1 = .ok config ∧
      ∃ flat, (∀ other, site.FlattensLoad "box" other ↔ other = flat) ∧
        config.FollowsOrder flat := by
  intro site group box config
  have hok : (site.load "box" none).1 = .ok config := by decide +kernel
  exact ⟨hok, site.followsOrder_of_load hok⟩

end HostConfig
