import HostConfig.Proofs.Resolution.Derivation
import Mathlib.Data.List.Infix

/-!
# Unfolding inclusions

A body that resolves is unfolded completely: each group that it includes is followed by the groups
that its own document includes, as often as they are included. This trace is a finite object that
nothing but the documents determines, so that what a resolution cannot do, such as to unfold a
group that includes itself, is seen from the length of traces.
-/

namespace HostConfig

variable {site : Site}

/-- Following inclusions from pending groups on meets the groups of a trace, in order. -/
inductive Unfolds (site : Site) : List String → List String → Prop
  | nil : Unfolds site [] []
  | cons {name : String} {pending inner trace : List String} {document : Document}
      (hdocument : site.document (site.layout.groupFile name) = .ok document)
      (hinner : Unfolds site document.groups inner) (hpending : Unfolds site pending trace) :
    Unfolds site (name :: pending) (name :: inner ++ trace)

namespace Unfolds

variable {pending trace : List String} {name : String}

/-- Pending groups have at most one trace. -/
theorem unique {trace' : List String} (h : Unfolds site pending trace)
    (h' : Unfolds site pending trace') : trace = trace' := by
  induction h generalizing trace' with
  | nil =>
    cases h'
    rfl
  | cons hdocument _ _ ihinner ihpending =>
    cases h' with
    | cons hdocument' hinner' hpending' =>
      cases hdocument.symm.trans hdocument'
      rw [ihinner hinner', ihpending hpending']

/-- Pending groups are met. -/
theorem subset (h : Unfolds site pending trace) : pending ⊆ trace := by
  induction h with
  | nil => exact List.nil_subset _
  | cons _ _ _ _ ih =>
    apply List.cons_subset_cons
    exact List.subset_append_of_subset_right _ ih

/-- A group that is met is followed by the trace of its own document. -/
theorem exists_of_mem (h : Unfolds site pending trace) (hname : name ∈ trace) :
    ∃ document inner, site.document (site.layout.groupFile name) = .ok document ∧
      Unfolds site document.groups inner ∧ name :: inner <:+: trace := by
  induction h with
  | nil => cases hname
  | @cons other _ inner trace document hdocument hinner _ ihinner ihpending =>
    rw [List.cons_append, List.mem_cons, List.mem_append] at hname
    obtain rfl | hmem | hmem := hname
    · exact ⟨document, inner, hdocument, hinner, (List.prefix_append _ _).isInfix⟩
    · obtain ⟨document', inner', hdocument', hinner', hinfix⟩ := ihinner hmem
      have hwhole : inner <:+: other :: inner ++ trace := ⟨[other], trace, rfl⟩
      exact ⟨document', inner', hdocument', hinner', hinfix.trans hwhole⟩
    · obtain ⟨document', inner', hdocument', hinner', hinfix⟩ := ihpending hmem
      exact ⟨document', inner', hdocument', hinner',
        hinfix.trans (List.suffix_append (other :: inner) trace).isInfix⟩

/-- What the document of a group that is met includes is met. -/
theorem mem_of_document {document : Document} (h : Unfolds site pending trace)
    (hname : name ∈ trace) (hdocument : site.document (site.layout.groupFile name) = .ok document) :
    document.groups ⊆ trace := by
  obtain ⟨document', inner, hdocument', hinner, hinfix⟩ := h.exists_of_mem hname
  cases hdocument.symm.trans hdocument'
  exact fun other hother => hinfix.subset (List.mem_cons_of_mem _ (hinner.subset hother))

/-- A group is not met again in the trace of its own document. -/
theorem notMem_of_document {document : Document} (h : Unfolds site document.groups trace)
    (hdocument : site.document (site.layout.groupFile name) = .ok document) : name ∉ trace := by
  intro hname
  obtain ⟨document', inner, hdocument', hinner, hinfix⟩ := h.exists_of_mem hname
  cases hdocument.symm.trans hdocument'
  have hlength := hinfix.length_le
  rw [hinner.unique h, List.length_cons] at hlength
  omega

/-- If pending groups have possible names, so have all groups that are met. -/
theorem isGroupName_of_mem (h : Unfolds site pending trace)
    (hpending : ∀ name ∈ pending, isGroupName name) : ∀ name ∈ trace, isGroupName name := by
  induction h with
  | nil => exact hpending
  | cons hdocument _ _ ihinner ihpending =>
    intro name hname
    rw [List.cons_append, List.mem_cons, List.mem_append] at hname
    obtain rfl | hmem | hmem := hname
    · exact hpending _ List.mem_cons_self
    · exact ihinner (fun _ => site.isGroupName_of_mem_groups hdocument) _ hmem
    · exact ihpending (fun _ hother => hpending _ (List.mem_cons_of_mem _ hother)) _ hmem

/-- Groups that are pending one after the other are met one after the other. -/
theorem append {pending' trace' : List String} (h : Unfolds site pending trace)
    (h' : Unfolds site pending' trace') : Unfolds site (pending ++ pending') (trace ++ trace') := by
  induction h with
  | nil => exact h'
  | cons hdocument hinner _ _ ih =>
    rw [List.append_assoc]
    exact .cons hdocument hinner ih

end Unfolds

/-- A body that resolves unfolds. -/
theorem Resolves.exists_unfolds {source : Provenance} {body : List Statement}
    {r final : Resolution} {run after : Run}
    (h : Resolves site source body r run (.ok final) after) :
    ∃ trace, Unfolds site (groupsOf body) trace := by
  induction h using Resolves.ok_induction with
  | done => exact ⟨[], .nil⟩
  | declare hform _ _ ih =>
    rw [groupsOf_cons_of_none hform]
    exact ih
  | @expand _ _ _ _ _ _ _ _ _ name _ hform _ hdocument _ _ ihinner ihrest =>
    obtain ⟨inner, hinner⟩ := ihinner
    obtain ⟨trace, hrest⟩ := ihrest
    rw [groupsOf_cons_of_some hform]
    exact ⟨name :: inner ++ trace, .cons hdocument hinner hrest⟩

/-- The file at a path includes a group. -/
def Site.Includes (site : Site) (path : Path) (name : String) : Prop :=
  ∃ document, site.document path = .ok document ∧ name ∈ document.groups

/-- A path includes the groups that statements of its document include. -/
theorem Site.includes_of_mem {path : Path} {document : Document} {s : Statement} {name : String}
    (hdocument : site.document path = .ok document) (hs : s ∈ document.body)
    (hform : s.form.group? = some name) : site.Includes path name :=
  ⟨document, hdocument, Document.mem_groups_of_mem_body hs hform⟩

/-- The file of a group includes another group. -/
def Site.Leads (site : Site) (name other : String) : Prop :=
  site.Includes (site.layout.groupFile name) other

/-- A group that unfolds leads to groups with shorter traces. -/
theorem Unfolds.exists_of_leads {name other : String} {trace : List String}
    (h : Unfolds site [name] trace) (hleads : site.Leads name other) :
    ∃ inner, Unfolds site [other] inner ∧ inner.length < trace.length := by
  obtain ⟨document, hdocument, hother⟩ := hleads
  cases h with
  | @cons _ _ inner _ _ hdocument' hinner hpending =>
    cases hdocument.symm.trans hdocument'
    cases hpending
    obtain ⟨d, rest, hd, hrest, hinfix⟩ := hinner.exists_of_mem (hinner.subset hother)
    have hlength := hinfix.length_le
    refine ⟨other :: rest ++ [], .cons hd hrest .nil, ?_⟩
    rw [List.length_cons] at hlength
    simp only [List.append_nil, List.length_cons]
    omega

end HostConfig
