import HostConfig.Proofs.Document.WellFormed
import HostConfig.Proofs.Load.Dotfiles

/-!
# Well-formed configurations

All that a loaded configuration holds is well formed: it is taken from a statement of a document,
where it was so already, except for the sources of dotfiles and the scopes of services. The former
are normal paths because they are normalised from an anchored one, and the latter are checked.
-/

namespace HostConfig

/-- A text of a path that is anchored, and is its own normal form. -/
structure Path.IsNormalText (text : String) : Prop where
  normal : (Path.ofString text).Normal
  normalize_eq : (Path.ofString text).normalize.toString = text

/-- A mapping leads from a normal path to a word. -/
structure ConfigMapping.WellFormed (m : ConfigMapping) : Prop where
  source : Path.IsNormalText m.source
  destination : IsSingleWord m.destination

/-- A variable has a name and a value. -/
structure EnvVar.WellFormed (v : EnvVar) : Prop where
  key : IsSingleWord v.key
  value : IsWording v.value

/-- A service has a name and a possible scope. -/
structure Service.WellFormed (s : Service) : Prop where
  name : IsServiceName s.name
  scope : s.scope = "system" ∨ s.scope = "user"

/-- An item of a list is well formed. -/
def ListField.WellFormed : (field : ListField) → field.Item → Prop
  | .configs => ConfigMapping.WellFormed
  | .setups => IsWording
  | .services => Service.WellFormed
  | .envs => EnvVar.WellFormed

/-- A package and all that is declared for it are well formed. -/
structure Entry.WellFormed (e : Entry) : Prop where
  package : IsWording e.package
  list : ∀ field, ∀ item ∈ e.list field, field.WellFormed item

/-- All that a configuration holds is well formed. -/
structure Config.WellFormed (c : Config) : Prop where
  entries : ∀ e ∈ c.entries, e.WellFormed
  envs : ∀ v ∈ c.envs, v.WellFormed
  scripts : ∀ text ∈ c.scripts, IsWording text

variable {form : Form} {site : Site} {path : Path} {host : String} {forms flat : List Form}

/-- What comes after a step that succeeded. -/
theorem bind_eq_ok {α β : Type} {x : Except Cause α} {f : α → Except Cause β} {b : β}
    (h : (x >>= f) = .ok b) : ∃ a, x = .ok a ∧ f a = .ok b := by
  cases x with
  | error cause => cases h
  | ok a => exact ⟨a, rfl, h⟩

/-- The scope that properties give is one of two. -/
theorem mem_of_scopeOf {props : Payload.Properties} {scope : String}
    (h : scopeOf props = .ok scope) : scope = "system" ∨ scope = "user" := by
  unfold scopeOf at h
  split at h
  · cases h
    exact Or.inl rfl
  · split at h
    · next hscope =>
      cases h
      simpa using hscope
    · cases h
  · cases h

/-- A service has the name that it is declared by, and a possible scope. -/
theorem Service.of_ofProperties {name : String} {props : Payload.Properties} {service : Service}
    (h : Service.ofProperties name props = .ok service) :
    service.name = name ∧ (service.scope = "system" ∨ service.scope = "user") := by
  unfold Service.ofProperties at h
  obtain ⟨scope, hscope, h⟩ := bind_eq_ok h
  -- The five flags have no part in the name and the scope.
  iterate 5 obtain ⟨_, -, h⟩ := bind_eq_ok h
  cases h
  exact ⟨rfl, mem_of_scopeOf hscope⟩

namespace Form.WellFormed

/-- A declared package has a name. -/
theorem isWording_of_declared? (h : form.WellFormed) {name : String}
    (hname : form.declared? = some name) : IsWording name := by
  cases form with
  | item | package =>
    cases hname
    exact h
  | _ => cases hname

/-- A variable of the host is well formed. -/
theorem of_env? (h : form.WellFormed) {v : EnvVar} (hv : form.env? = some v) : v.WellFormed := by
  cases form with
  | env =>
    cases hv
    exact ⟨h.1, h.2⟩
  | _ => cases hv

/-- A script of the host is well formed. -/
theorem of_script? (h : form.WellFormed) {text : String} (htext : form.script? = some text) :
    IsWording text := by
  cases form with
  | script =>
    cases htext
    exact h
  | _ => cases htext

/-- Below a normal root, what a statement adds to a list is well formed. -/
theorem of_mem_declares {l : Layout} (hroot : l.root.Normal) (h : form.WellFormed)
    {package : String} {field : ListField} {item : field.Item}
    (hitem : item ∈ form.declares l package field) : field.WellFormed item := by
  unfold Form.declares at hitem
  split at hitem
  · cases form with
    | packageConfig _ source destination =>
      cases field with
      | configs =>
        cases List.mem_singleton.mp hitem
        have hsource := Layout.locatesDotfile hroot source
        exact ⟨⟨hsource.normal, hsource.normalize_eq⟩, h.2⟩
      | setups | services | envs => cases hitem
    | packageScript _ text legacy =>
      cases field with
      | setups =>
        cases List.mem_singleton.mp hitem
        exact h
      | configs | services | envs => cases hitem
    | packageService _ name props =>
      cases field with
      | services =>
        rw [Form.additions] at hitem
        split at hitem
        · next service hservice =>
          cases List.mem_singleton.mp hitem
          obtain ⟨hname, hscope⟩ := Service.of_ofProperties hservice
          exact ⟨hname ▸ h, hscope⟩
        · cases hitem
      | configs | setups | envs => cases hitem
    | packageEnv _ key value =>
      cases field with
      | envs =>
        cases List.mem_singleton.mp hitem
        exact ⟨h.1, h.2⟩
      | configs | setups | services => cases hitem
    | listing | item | package | group | env | script | blank => cases field <;> cases hitem
  · cases hitem

end Form.WellFormed

/-- The flat list of well-formed statements is well formed, since groups are documents too. -/
theorem Flattens.wellFormed (h : Flattens site forms flat) (hforms : ∀ form ∈ forms, form.WellFormed) :
    ∀ form ∈ flat, form.WellFormed := by
  induction h with
  | nil => exact hforms
  | keep _ _ ih =>
    obtain ⟨hfirst, hrest⟩ := List.forall_mem_cons.mp hforms
    exact List.forall_mem_cons.mpr ⟨hfirst, ih hrest⟩
  | expand hdocument _ _ ihinner ihrest =>
    have hinner := ihinner (site.wellFormed_of_document hdocument)
    exact List.forall_mem_append.mpr ⟨hinner, ihrest (List.forall_mem_cons.mp hforms).2⟩

namespace Site

/-- The flat list of a file is well formed. -/
theorem FlattensFile.wellFormed (h : site.FlattensFile path flat) :
    ∀ form ∈ flat, form.WellFormed := by
  obtain ⟨document, hdocument, hflat⟩ := h
  exact hflat.wellFormed (site.wellFormed_of_document hdocument)

/-- The flat list of a load is well formed. -/
theorem FlattensLoad.wellFormed (h : site.FlattensLoad host flat) :
    ∀ form ∈ flat, form.WellFormed := by
  obtain ⟨main, inner, hmain, hinner, rfl⟩ := h
  refine List.forall_mem_append.mpr ⟨hmain.wellFormed, ?_⟩
  unfold FlattensHost at hinner
  split at hinner
  · exact hinner.wellFormed
  · subst hinner
    exact List.forall_mem_nil _

/-- Below a normal root, a load that succeeds gives a well-formed configuration. -/
theorem wellFormed_of_load {journal : Option Journal} {config : Config}
    (hroot : site.layout.root.Normal) (h : (site.load host journal).1 = .ok config) :
    config.WellFormed := by
  obtain ⟨flat, hflat, horder⟩ := Site.exists_followsOrder_of_load h
  have hforms := hflat.wellFormed
  constructor
  case entries =>
    intro e he
    have hpackage : e.package ∈ (flat.filterMap Form.declared?).eraseDups := by
      rw [← horder.packages_eq]
      exact List.mem_map_of_mem he
    obtain ⟨form, hform, hname⟩ := List.mem_filterMap.mp (List.mem_eraseDups.mp hpackage)
    refine ⟨(hforms form hform).isWording_of_declared? hname, fun field item hitem => ?_⟩
    obtain ⟨form, hform, hadds⟩ := exists_form_of_load h hflat he hitem
    exact (hforms form hform).of_mem_declares hroot hadds
  case envs =>
    intro v hv
    rw [horder.envs_eq] at hv
    obtain ⟨form, hform, henv⟩ := List.mem_filterMap.mp hv
    exact (hforms form hform).of_env? henv
  case scripts =>
    intro text htext
    rw [horder.scripts_eq] at htext
    obtain ⟨form, hform, hscript⟩ := List.mem_filterMap.mp htext
    exact (hforms form hform).of_script? hscript

/-- Lines that end in carriage returns, and a group whose lines hold blanks at many places. -/
theorem wellFormed_of_load_blanks :
    let site := Site.ofTexts "/owl" [
      ("/owl/main.owl", "@env K =\t=v w \r\n@packages\r\n a b # c\r\n@group g\r\n"),
      ("/owl/groups/g.owl", "@package ,p ,\r:config ../x//y->z\n:service s[scope = user]\n!setup\tdo")]
    let source : Provenance := ⟨"/owl/main.owl", .main, none⟩
    let group : Provenance := ⟨"/owl/groups/g.owl", .group, some "g"⟩
    let p : Entry := ⟨"p", group, [⟨"/owl/x/y", "z"⟩], ["do"],
      [⟨"s", "user", true, true, none, none, none⟩], []⟩
    let config : Config := ⟨[⟨"a b", source, [], [], [], []⟩, p], [⟨"K", "=v w"⟩], []⟩
    (site.load "box" none).1 = .ok config ∧ config.WellFormed := by
  intro site source group p config
  have hroot : site.layout.root.Normal := ⟨by decide, by decide⟩
  have hok : (site.load "box" none).1 = .ok config := by decide +kernel
  exact ⟨hok, site.wellFormed_of_load hroot hok⟩

end Site

end HostConfig
