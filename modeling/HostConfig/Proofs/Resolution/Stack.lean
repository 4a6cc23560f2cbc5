import HostConfig.Proofs.Layout.Confinement
import HostConfig.Proofs.Resolution.Moment
import Mathlib.Data.Set.Card

/-!
# The stack of groups

At every moment of a resolution the groups that have been entered are distinct, they were not being
expanded before, and something is at their paths. All but the first one were included by documents,
so that their paths lie below the directory of groups and differ. That bounds the stack.
-/

namespace HostConfig

/-- Something holds of all items but the last one, if it holds of the first one unless that is the
only one, and of all others but the last one. -/
theorem forall_mem_dropLast_cons {α : Type} {P : α → Prop} {x : α} {xs : List α} :
    (∀ y ∈ (x :: xs).dropLast, P y) ↔ (xs ≠ [] → P x) ∧ ∀ y ∈ xs.dropLast, P y := by
  cases xs with
  | nil => simp
  | cons y rest => simp [List.dropLast_cons_of_ne_nil]

/-- The statements include groups with possible names only. -/
def IncludesNames (body : List Statement) : Prop := ∀ name ∈ groupsOf body, isGroupName name

/-- What holds of the stack at every moment of a resolution that began while some groups were being
expanded. -/
structure Moment.Sound (site : Site) (initial : List String) (m : Moment) : Prop where
  active_eq : m.run.active = m.opened ++ initial
  nodup : m.opened.Nodup
  fresh : ∀ name ∈ m.opened, name ∉ initial
  contains : ∀ name ∈ m.opened, site.tree.contains (site.layout.groupFile name) = true
  named : ∀ name ∈ m.opened.dropLast, isGroupName name
  includes : ∀ body ∈ m.bodies.dropLast, IncludesNames body

variable {site : Site} {initial : List String} {source : Provenance} {body : List Statement}
  {r : Resolution} {run : Run} {m m' : Moment}

/-- The rest of a body includes what the body does. -/
theorem IncludesNames.of_cons {s : Statement} {rest : List Statement}
    (h : IncludesNames (s :: rest)) : IncludesNames rest := by
  intro name hname
  apply h
  rw [← List.singleton_append, groupsOf_append]
  exact List.mem_append_right _ hname

/-- Leaving the group that was entered last. -/
theorem Run.active_leave_of_cons {name : String} {rest : List String}
    (h : run.active = name :: rest) (hname : name ∉ rest) : (run.leave name).active = rest :=
  @Run.active_leave { run with active := rest } run name hname h

namespace Moment.Sound

/-- A resolution begins with nothing entered. -/
theorem start (site : Site) (source : Provenance) (body : List Statement) (r : Resolution)
    (run : Run) : (Moment.reading [] source body r run).Sound site run.active where
  active_eq := rfl
  nodup := List.nodup_nil
  fresh := List.forall_mem_nil _
  contains := List.forall_mem_nil _
  named := List.forall_mem_nil _
  includes := List.forall_mem_nil _

/-- Leaving a group takes it off the stack. -/
theorem leave {top : Waiting} {stack : List Waiting} {outcome outcome' : Except Failure Resolution}
    (h : (Moment.ended (top :: stack) outcome run).Sound site initial) :
    (Moment.ended stack outcome' (run.leave top.group)).Sound site initial := by
  obtain ⟨hnotin, hnodup⟩ := List.nodup_cons.mp h.nodup
  obtain ⟨hfresh, hothers⟩ := List.forall_mem_cons.mp h.fresh
  have hnew : top.group ∉ stack.map (·.group) ++ initial := by
    rw [List.mem_append, not_or]
    exact ⟨hnotin, hfresh⟩
  exact
    { active_eq := Run.active_leave_of_cons h.active_eq hnew
      nodup := hnodup
      fresh := hothers
      contains := (List.forall_mem_cons.mp h.contains).2
      named := (forall_mem_dropLast_cons.mp h.named).2
      includes := (forall_mem_dropLast_cons.mp h.includes).2 }

/-- Entering a group puts it on the stack. -/
theorem enter {stack : List Waiting} {s : Statement} {rest : List Statement} {name : String}
    (h : (Moment.reading stack source (s :: rest) r run).Sound site initial)
    (hform : s.form.group? = some name) (hactive : name ∉ run.active)
    (htree : site.tree.contains (site.layout.groupFile name) = true) :
    (Moment.opening ⟨source, rest, r, name⟩ stack (run.into site.layout name)).Sound site
      initial := by
  have hrun : run.active = stack.map (·.group) ++ initial := h.active_eq
  rw [hrun, List.mem_append, not_or] at hactive
  obtain ⟨hbody, hbodies⟩ := forall_mem_dropLast_cons.mp h.includes
  refine
    { active_eq := congrArg (name :: ·) hrun
      nodup := List.nodup_cons.mpr ⟨hactive.1, h.nodup⟩
      fresh := List.forall_mem_cons.mpr ⟨hactive.2, h.fresh⟩
      contains := List.forall_mem_cons.mpr ⟨htree, h.contains⟩
      named := forall_mem_dropLast_cons.mpr ⟨fun hne => ?_, h.named⟩
      includes := forall_mem_dropLast_cons.mpr ⟨fun hne => (hbody hne).of_cons, hbodies⟩ }
  -- The including statement is not of the first document, since another group was entered before.
  have hrests : stack.map (·.rest) ≠ [] := by simpa using hne
  apply hbody hrests
  rw [groupsOf_cons_of_some hform]
  exact List.mem_cons_self

/-- A step keeps the stack sound. -/
theorem step (h : m.Sound site initial) (hstep : site.Step m m') : m'.Sound site initial := by
  cases hstep with
  | finish | reject | cycle | missing =>
    exact { h with includes := (forall_mem_dropLast_cons.mp h.includes).2 }
  | declare =>
    obtain ⟨hbody, hbodies⟩ := forall_mem_dropLast_cons.mp h.includes
    exact { h with
      includes := forall_mem_dropLast_cons.mpr ⟨fun hne => (hbody hne).of_cons, hbodies⟩ }
  | enter hform hactive htree => exact h.enter hform hactive htree
  | unread => exact { h with }
  | read hdocument =>
    have hbody : IncludesNames _ := fun _ => site.isGroupName_of_mem_groups hdocument
    exact { h with includes := forall_mem_dropLast_cons.mpr ⟨fun _ => hbody, h.includes⟩ }
  | fail => exact h.leave
  | @merge top stack run inner =>
    have hleft : (Moment.ended stack (.ok inner) (run.leave top.group)).Sound site initial :=
      h.leave
    exact { hleft with includes := h.includes }

/-- The stack is sound at every moment. -/
theorem of_comesTo
    (h : site.ComesTo (.reading [] source body r run) m) : m.Sound site run.active := by
  induction h with
  | refl => exact start site source body r run
  | tail _ hstep ih => exact ih.step hstep

end Moment.Sound

/-- The texts of the normalised paths below the directory of groups at which something is. -/
def Site.groupPaths (site : Site) : Set String :=
  FileTree.key '' {p | site.tree.contains p ∧ p.IsBelow site.layout.groupDirectory}

/-- There are only so many such paths. -/
theorem Site.finite_groupPaths (site : Site) : site.groupPaths.Finite := by
  have hbegin : String.toList '' site.groupPaths ⊆ {text | text ∈ site.tree.keyPrefixes} := by
    rintro _ ⟨_, ⟨p, ⟨hp, -⟩, rfl⟩, rfl⟩
    obtain ⟨k, hk, hprefix⟩ := FileTree.exists_prefix_of_contains hp
    exact List.mem_flatMap.mpr ⟨k, hk, (List.mem_inits _ _).mpr hprefix⟩
  have hinjective : Set.InjOn String.toList site.groupPaths :=
    fun _ _ _ _ h => String.toList_injective h
  exact ((List.finite_toSet _).subset hbegin).of_finite_image hinjective

/-- Distinct groups with possible names, at whose paths something is, are no more than there are
paths below the directory of groups. -/
theorem Site.length_le_ncard_groupPaths {names : List String} (hnodup : names.Nodup)
    (hnames : ∀ name ∈ names, isGroupName name)
    (htree : ∀ name ∈ names, site.tree.contains (site.layout.groupFile name) = true) :
    names.length ≤ site.groupPaths.ncard := by
  have hkeys : (names.map fun name => FileTree.key (site.layout.groupFile name)).Nodup :=
    hnodup.map_on fun g hg h hh =>
      site.layout.key_groupFile_injective (hnames g hg) (hnames h hh)
  have hsubset : {k | k ∈ names.map fun name => FileTree.key (site.layout.groupFile name)} ⊆
      site.groupPaths := by
    intro k hk
    obtain ⟨name, hname, rfl⟩ := List.mem_map.mp hk
    exact ⟨_, ⟨htree name hname, site.layout.isBelow_groupFile (hnames name hname)⟩, rfl⟩
  have hcard := Set.ncard_le_ncard hsubset site.finite_groupPaths
  rwa [← List.coe_toFinset, Set.ncard_coe_finset, List.toFinset_card_of_nodup hkeys,
    List.length_map] at hcard

/-- The stack holds at most one group more than there are paths below the directory of groups. -/
theorem Moment.Sound.length_opened_le (h : m.Sound site initial) :
    m.opened.length ≤ 1 + site.groupPaths.ncard := by
  have hothers : ∀ name ∈ m.opened.dropLast,
      site.tree.contains (site.layout.groupFile name) = true :=
    fun name hname => h.contains name (List.dropLast_subset _ hname)
  have hnodup := h.nodup.sublist (List.dropLast_sublist _)
  have hle := site.length_le_ncard_groupPaths hnodup h.named hothers
  rw [List.length_dropLast] at hle
  omega

end HostConfig
