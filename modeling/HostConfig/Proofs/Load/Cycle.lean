import HostConfig.Proofs.Load.Outcome
import HostConfig.Proofs.Resolution.Unfolding
import Mathlib.Logic.Relation

/-!
# Cycles of groups

Groups form a graph by what their files include. If all files that a file leads to hold documents
that can be carried out, the file resolves exactly when no group in its reach leads back to itself.
One direction rests on the chain of active groups, each of which leads to the file that is being
resolved; the other on traces, which get shorter along inclusions.
-/

namespace HostConfig

open Relation

/-- The file at a path includes a group, maybe through other groups. -/
def Site.Reaches (site : Site) (path : Path) (name : String) : Prop :=
  ∃ first, site.Includes path first ∧ ReflTransGen site.Leads first name

/-- A group includes itself, maybe through other groups. -/
def Site.Cyclic (site : Site) (name : String) : Prop := TransGen site.Leads name name

/-- The services that a document declares are allowed. -/
def Document.Serviceable (d : Document) : Prop :=
  ∀ s ∈ d.body, ∀ package name props, s.form = .packageService package name props →
    (Service.ofProperties name props).isOk

/-- A path holds a document that can be carried out. -/
def Site.Usable (site : Site) (path : Path) : Prop :=
  ∃ document, site.document path = .ok document ∧ document.Serviceable

/-- The file at a path and all files of groups in its reach can be carried out. -/
structure Site.Sound (site : Site) (path : Path) : Prop where
  usable : site.Usable path
  usable_group : ∀ name, site.Reaches path name → site.Usable (site.layout.groupFile name)

/-- A problem tells of a group that includes itself, and stands at an inclusion of that group in
the file of a group that it leads to. -/
structure Site.TellsCycle (site : Site) (path : Path) (name : String) (origin : Origin) : Prop where
  reaches : site.Reaches path name
  cyclic : site.Cyclic name
  /-- The inclusion that closes a cycle. -/
  exists_statement : ∃ other document, ReflTransGen site.Leads name other ∧
    site.document (site.layout.groupFile other) = .ok document ∧
      origin.file = (site.layout.groupFile other).toString ∧
        ∃ s ∈ document.body, s.origin = origin ∧ s.form = .group name

variable {site : Site} {path : Path}

/-- What an included group reaches is reached. -/
theorem Site.Reaches.of_includes {name other : String} (h : site.Includes path name)
    (hother : site.Reaches (site.layout.groupFile name) other) : site.Reaches path other := by
  obtain ⟨first, hfirst, hreach⟩ := hother
  exact ⟨name, h, .head hfirst hreach⟩

/-- The group of a sound file's inclusion has a sound file. -/
theorem Site.Sound.of_includes {name : String} (h : site.Sound path)
    (hname : site.Includes path name) : site.Sound (site.layout.groupFile name) where
  usable := h.usable_group name ⟨name, hname, .refl⟩
  usable_group _ hother := h.usable_group _ (.of_includes hname hother)

/-- A cycle that the file of an included group tells of is one that the including file tells of. -/
theorem Site.TellsCycle.of_includes {name other : String} {origin : Origin}
    (h : site.Includes path name)
    (htells : site.TellsCycle (site.layout.groupFile name) other origin) :
    site.TellsCycle path other origin :=
  ⟨.of_includes h htells.reaches, htells.cyclic, htells.exists_statement⟩

/-- While a file is resolved, each active group leads to it. -/
def Site.Chain (site : Site) (path : Path) (active : List String) : Prop :=
  ∀ name ∈ active, ∃ last, path = site.layout.groupFile last ∧ ReflTransGen site.Leads name last

/-- Entering an included group keeps the chain. -/
theorem Site.Chain.into {name : String} {active : List String} (h : site.Chain path active)
    (hname : site.Includes path name) :
    site.Chain (site.layout.groupFile name) (name :: active) := by
  intro other hother
  refine ⟨name, rfl, ?_⟩
  cases hother with
  | head => exact .refl
  | tail _ hother =>
    obtain ⟨last, rfl, hlast⟩ := h other hother
    exact hlast.tail hname

/-- A statement of a usable document is carried out, if it includes no group. -/
theorem Document.Serviceable.declare_ne_error {document : Document} {s : Statement}
    {r : Resolution} {source : Provenance} {failure : Failure} (h : document.Serviceable)
    (hdocument : site.document path = .ok document) (hs : s ∈ document.body) :
    r.declare site.layout source s ≠ .error failure := by
  intro hdeclare
  obtain ⟨hblank, -⟩ | ⟨package, name, props, cause, hform, herror, -⟩ :=
    Resolution.declare_eq_error hdeclare
  · exact (Site.place_of_statement hdocument hs).1 hblank
  · have hok := h s hs package name props hform
    rw [herror] at hok
    cases hok

/-- A sound file does not resolve only because of a cycle that its problem tells of. -/
theorem Resolves.tellsCycle {source : Provenance} {body : List Statement} {r : Resolution}
    {run after : Run} {outcome : Except Failure Resolution} {document : Document}
    (h : Resolves site source body r run outcome after) (hsound : site.Sound path)
    (hdocument : site.document path = .ok document) (hbody : ∀ s ∈ body, s ∈ document.body)
    (hchain : site.Chain path run.active) {failure : Failure} (hfailure : outcome = .error failure) :
    ∃ name origin, failure = .problem ⟨origin, .cycle name⟩ ∧
      site.TellsCycle path name origin := by
  induction h generalizing path document with
  | done => cases hfailure
  | declare _ _ _ ih =>
    exact ih hsound hdocument (fun s hs => hbody s (List.mem_cons_of_mem _ hs)) hchain hfailure
  | reject _ hdeclare =>
    obtain ⟨document', hdocument', hserviceable⟩ := hsound.usable
    cases hdocument.symm.trans hdocument'
    exact absurd hdeclare (hserviceable.declare_ne_error hdocument (hbody _ List.mem_cons_self))
  | @cycle _ s _ _ _ name hform hactive =>
    cases hfailure
    have hs := hbody s List.mem_cons_self
    have hincludes := Site.includes_of_mem hdocument hs hform
    -- The active group leads to the one whose file is at hand, and that file includes it.
    obtain ⟨last, rfl, hlast⟩ := hchain name hactive
    obtain ⟨-, -, -, hfile, -⟩ := Site.place_of_statement hdocument hs
    exact ⟨name, s.origin, rfl, ⟨name, hincludes, .refl⟩, TransGen.tail' hlast hincludes,
      last, document, hlast, hdocument, hfile, s, hs, rfl, Form.group?_eq_some_iff.mp hform⟩
  | missing hform _ htree =>
    have hincludes := Site.includes_of_mem hdocument (hbody _ List.mem_cons_self) hform
    obtain ⟨inner, hinner, -⟩ := (hsound.of_includes hincludes).usable
    rw [site.contains_of_document hinner] at htree
    cases htree
  | unread hform _ _ herror =>
    have hincludes := Site.includes_of_mem hdocument (hbody _ List.mem_cons_self) hform
    obtain ⟨inner, hinner, -⟩ := (hsound.of_includes hincludes).usable
    cases hinner.symm.trans herror
  | fail hform _ hinner _ ih =>
    have hincludes := Site.includes_of_mem hdocument (hbody _ List.mem_cons_self) hform
    obtain ⟨name, origin, hproblem, htells⟩ := ih (hsound.of_includes hincludes) hinner
      (fun _ hs => hs) (hchain.into hincludes) hfailure
    exact ⟨name, origin, hproblem, htells.of_includes hincludes⟩
  | expand _ hactive _ hinner _ _ ih =>
    have hrest := fun s hs => hbody s (List.mem_cons_of_mem _ hs)
    refine ih hsound hdocument hrest ?_ hfailure
    rw [Run.active_absorb, Run.active_leave hactive hinner.active_eq]
    exact hchain

/-- A group that unfolds is not cyclic. -/
theorem Unfolds.not_cyclic {name : String} {trace : List String}
    (h : Unfolds site [name] trace) : ¬ site.Cyclic name := by
  have hshorter : ∀ other, TransGen site.Leads name other →
      ∃ inner, Unfolds site [other] inner ∧ inner.length < trace.length := by
    intro other hother
    induction hother with
    | single hleads => exact h.exists_of_leads hleads
    | tail _ hleads ih =>
      obtain ⟨middle, hmiddle, hless⟩ := ih
      obtain ⟨inner, hinner, hless'⟩ := hmiddle.exists_of_leads hleads
      exact ⟨inner, hinner, by omega⟩
  intro hcyclic
  obtain ⟨inner, hinner, hless⟩ := hshorter name hcyclic
  rw [hinner.unique h] at hless
  omega

/-- The trace of a document meets every group in reach. -/
theorem Unfolds.mem_of_reaches {document : Document} {trace : List String} {name : String}
    (h : Unfolds site document.groups trace) (hdocument : site.document path = .ok document)
    (hname : site.Reaches path name) : name ∈ trace := by
  obtain ⟨first, ⟨document', hdocument', hfirst⟩, hreach⟩ := hname
  cases hdocument.symm.trans hdocument'
  induction hreach with
  | refl => exact h.subset hfirst
  | tail _ hleads ih =>
    obtain ⟨inner, hinner, hother⟩ := hleads
    exact h.mem_of_document ih hinner hother

/-- A document that unfolds has no cyclic group in reach. -/
theorem Unfolds.not_cyclic_of_reaches {document : Document} {trace : List String} {name : String}
    (h : Unfolds site document.groups trace) (hdocument : site.document path = .ok document)
    (hname : site.Reaches path name) : ¬ site.Cyclic name := by
  obtain ⟨inner, rest, hinner, hrest, -⟩ := h.exists_of_mem (h.mem_of_reaches hdocument hname)
  exact (Unfolds.cons hinner hrest .nil).not_cyclic

/-- An outcome tells whether there are cycles in reach of a path. -/
structure Site.DetectsCycles (site : Site) (path : Path) (outcome : Except Failure Resolution) :
    Prop where
  cycle_iff : (∃ name origin, outcome = .error (.problem ⟨origin, .cycle name⟩)) ↔
    ∃ name, site.Reaches path name ∧ site.Cyclic name
  ok_iff : (∃ r, outcome = .ok r) ↔ ∀ name, site.Reaches path name → ¬ site.Cyclic name
  tellsCycle : ∀ name origin, outcome = .error (.problem ⟨origin, .cycle name⟩) →
    site.TellsCycle path name origin

/-- A sound file resolves, or its problem is a cycle: cycles are detected, and nothing else is. -/
theorem Site.Sound.detectsCycles (h : site.Sound path) (kind : SourceKind)
    (journal : Option Journal) :
    site.DetectsCycles path (site.resolveFile path kind journal).1 := by
  obtain ⟨document, hdocument, -⟩ := h.usable
  cases hresolve : site.resolveFile path kind journal with
  | mk outcome after =>
    obtain ⟨run, hresolves, -⟩ := site.resolves_of_resolveFile hdocument hresolve
    have hok : ∀ r, outcome = .ok r → ∀ name, site.Reaches path name → ¬ site.Cyclic name := by
      rintro r rfl name hname
      obtain ⟨trace, htrace⟩ := hresolves.exists_unfolds
      exact htrace.not_cyclic_of_reaches hdocument hname
    have herror : ∀ failure, outcome = .error failure →
        ∃ name origin, failure = .problem ⟨origin, .cycle name⟩ ∧
          site.TellsCycle path name origin := by
      have hchain : site.Chain path [] := fun _ hname => absurd hname List.not_mem_nil
      intro failure hfailure
      exact hresolves.tellsCycle h hdocument (fun _ hs => hs) hchain hfailure
    constructor
    case tellsCycle =>
      intro name origin hproblem
      obtain ⟨name', origin', heq, htells⟩ := herror _ hproblem
      cases heq
      exact htells
    case cycle_iff =>
      constructor
      · rintro ⟨name, origin, hproblem⟩
        obtain ⟨name', origin', -, htells⟩ := herror _ hproblem
        exact ⟨name', htells.reaches, htells.cyclic⟩
      · rintro ⟨name, hreaches, hcyclic⟩
        cases outcome with
        | ok r => exact absurd hcyclic (hok r rfl name hreaches)
        | error failure =>
          obtain ⟨name', origin, rfl, -⟩ := herror failure rfl
          exact ⟨name', origin, rfl⟩
    case ok_iff =>
      constructor
      · rintro ⟨r, hr⟩
        exact hok r hr
      · intro hnone
        cases outcome with
        | ok r => exact ⟨r, rfl⟩
        | error failure =>
          obtain ⟨name, origin, -, htells⟩ := herror failure rfl
          exact absurd htells.cyclic (hnone name htells.reaches)

/-- Names that inclusions do not lead out of bound what is to be checked of a sound file. -/
theorem Site.sound_of_closed {names : List String} (husable : site.Usable path)
    (hpath : ∀ name, site.Includes path name → name ∈ names)
    (hnames : ∀ name ∈ names, site.Usable (site.layout.groupFile name))
    (hclosed : ∀ name ∈ names, ∀ other, site.Leads name other → other ∈ names) :
    site.Sound path where
  usable := husable
  usable_group name hname := by
    obtain ⟨first, hfirst, hreach⟩ := hname
    refine hnames name ?_
    induction hreach with
    | refl => exact hpath first hfirst
    | tail _ hleads ih => exact hclosed _ ih _ hleads

/-- Two groups that include each other. -/
theorem Site.Sound.detectsCycles_of_pair :
    let site := Site.ofTexts "/owl" [("/owl/main.owl", "@group a\n"),
      ("/owl/groups/a.owl", "@group b\n"), ("/owl/groups/b.owl", "@package p\n@group a\n")]
    site.Sound site.layout.mainFile ∧ site.DetectsCycles site.layout.mainFile
      (site.resolveFile site.layout.mainFile .main none).1 := by
  intro site
  have hmain : site.document site.layout.mainFile = .ok ⟨"/owl/main.owl",
    [⟨⟨"/owl/main.owl", 1, "@group a"⟩, .group "a"⟩]⟩ := by decide +kernel
  have ha : site.document (site.layout.groupFile "a") = .ok ⟨"/owl/groups/a.owl",
    [⟨⟨"/owl/groups/a.owl", 1, "@group b"⟩, .group "b"⟩]⟩ := by decide +kernel
  have hb : site.document (site.layout.groupFile "b") = .ok ⟨"/owl/groups/b.owl",
    [⟨⟨"/owl/groups/b.owl", 1, "@package p"⟩, .package "p"⟩,
      ⟨⟨"/owl/groups/b.owl", 2, "@group a"⟩, .group "a"⟩]⟩ := by decide +kernel
  have hsound : site.Sound site.layout.mainFile := by
    apply Site.sound_of_closed
    case names => exact ["a", "b"]
    case husable => exact ⟨_, hmain, by simp [Document.Serviceable]⟩
    case hpath =>
      rintro name ⟨document, hdocument, hname⟩
      cases hmain.symm.trans hdocument
      simpa [Document.groups, groupsOf, Form.group?] using Or.inl hname
    case hnames =>
      intro name hname
      simp only [List.mem_cons, List.not_mem_nil, or_false] at hname
      obtain rfl | rfl := hname
      · exact ⟨_, ha, by simp [Document.Serviceable]⟩
      · exact ⟨_, hb, by simp [Document.Serviceable]⟩
    case hclosed =>
      intro name hname
      simp only [List.mem_cons, List.not_mem_nil, or_false] at hname
      rintro other ⟨document, hdocument, hother⟩
      obtain rfl | rfl := hname
      · cases ha.symm.trans hdocument
        simp_all [Document.groups, groupsOf, Form.group?]
      · cases hb.symm.trans hdocument
        simp_all [Document.groups, groupsOf, Form.group?]
  exact ⟨hsound, hsound.detectsCycles .main none⟩

end HostConfig
