import HostConfig.Proofs.Document.Lines
import HostConfig.Proofs.Resolution.Action
import HostConfig.Proofs.Resolution.Depth
import HostConfig.Proofs.Resolution.Unfolding

/-!
# What bodies yield

Whether a body resolves, and to what, depends on what its statements say, but neither on where they
stand nor on the journal. It does not depend on the groups being expanded either, as long as the
body leads to none of them: a group that includes itself would have to be expanded without end, so
that it yields nothing anyway. Later comparisons of resolutions are made in these terms.
-/

namespace HostConfig

/-- Carrying out forms from what was gathered on yields a resolution. -/
inductive Yields (site : Site) : Provenance → List Form → Resolution → Resolution → Prop
  | done {source : Provenance} {r : Resolution} : Yields site source [] r r
  | declare {source : Provenance} {origin : Origin} {form : Form} {rest : List Form}
      {r r' final : Resolution} (hform : form.group? = none)
      (hdeclare : r.declare site.layout source ⟨origin, form⟩ = .ok r')
      (hrest : Yields site source rest r' final) : Yields site source (form :: rest) r final
  | expand {source : Provenance} {name : String} {document : Document} {rest : List Form}
      {r inner final : Resolution}
      (hdocument : site.document (site.layout.groupFile name) = .ok document)
      (hinner : Yields site (site.layout.groupSource name) document.forms {} inner)
      (hrest : Yields site source rest (r.absorb inner) final) :
    Yields site source (.group name :: rest) r final

variable {site : Site} {source : Provenance} {forms xs ys : List Form} {r final : Resolution}

namespace Yields

/-- Forms yield at most one resolution. -/
theorem unique {final' : Resolution} (h : Yields site source forms r final)
    (h' : Yields site source forms r final') : final = final' := by
  induction h generalizing final' with
  | done =>
    cases h'
    rfl
  | declare hform hdeclare _ ih =>
    cases h' with
    | declare _ hdeclare' hrest' =>
      cases (Resolution.declare_at hdeclare _).symm.trans hdeclare'
      exact ih hrest'
    | expand => cases hform
  | expand hdocument _ _ ihinner ihrest =>
    cases h' with
    | declare hform' => cases hform'
    | expand hdocument' hinner' hrest' =>
      cases hdocument.symm.trans hdocument'
      cases ihinner hinner'
      exact ihrest hrest'

/-- Forms are carried out one part after the other. -/
theorem append_iff : Yields site source (xs ++ ys) r final ↔
    ∃ middle, Yields site source xs r middle ∧ Yields site source ys middle final := by
  constructor
  · intro h
    induction xs generalizing r with
    | nil => exact ⟨r, .done, h⟩
    | cons form xs ih =>
      cases h with
      | declare hform hdeclare hrest =>
        obtain ⟨middle, hxs, hys⟩ := ih hrest
        exact ⟨middle, .declare hform hdeclare hxs, hys⟩
      | expand hdocument hinner hrest =>
        obtain ⟨middle, hxs, hys⟩ := ih hrest
        exact ⟨middle, .expand hdocument hinner hxs, hys⟩
  · rintro ⟨middle, hxs, hys⟩
    induction hxs with
    | done => exact hys
    | declare hform hdeclare _ ih => exact .declare hform hdeclare (ih hys)
    | expand hdocument hinner _ _ ih => exact .expand hdocument hinner (ih hys)

/-- Forms that yield a resolution unfold. -/
theorem exists_unfolds (h : Yields site source forms r final) :
    ∃ trace, Unfolds site (groupsIn forms) trace := by
  induction h with
  | done => exact ⟨[], .nil⟩
  | declare hform _ _ ih =>
    rw [groupsIn_cons_of_none hform]
    exact ih
  | @expand _ name document _ _ _ _ hdocument _ _ ihinner ihrest =>
    obtain ⟨inner, hinner⟩ := ihinner
    obtain ⟨trace, hrest⟩ := ihrest
    rw [← document.groups_eq] at hinner
    exact ⟨name :: inner ++ trace, .cons hdocument hinner hrest⟩

/-- The groups that are included have documents. -/
theorem exists_document_of_mem (h : Yields site source forms r final) {name : String}
    (hname : name ∈ groupsIn forms) :
    ∃ document, site.document (site.layout.groupFile name) = .ok document := by
  obtain ⟨trace, htrace⟩ := h.exists_unfolds
  obtain ⟨document, -, hdocument, -⟩ := htrace.exists_of_mem (htrace.subset hname)
  exact ⟨document, hdocument⟩

/-- A resolution holds each package once. -/
theorem nodup_packages (h : Yields site source forms r final) (hr : r.entries.packages.Nodup) :
    final.entries.packages.Nodup := by
  induction h with
  | done => exact hr
  | declare _ hdeclare _ ih => exact ih ((Resolution.declares_of_declare hdeclare).nodup hr)
  | expand _ _ _ _ ih => exact ih (Entries.nodup_packages_putAll _ hr)

/-- What yields a resolution does so in any document, whatever was gathered. -/
theorem exists_yields (h : Yields site source forms r final) (other : Resolution)
    (otherSource : Provenance) : ∃ final', Yields site otherSource forms other final' := by
  induction h generalizing other with
  | done => exact ⟨other, .done⟩
  | declare hform hdeclare _ ih =>
    obtain ⟨other', hother⟩ := Resolution.exists_declare hdeclare other otherSource
    obtain ⟨final', hfinal⟩ := ih other'
    exact ⟨final', .declare hform hother hfinal⟩
  | @expand _ _ _ _ _ inner _ hdocument hinner _ _ ih =>
    obtain ⟨final', hfinal⟩ := ih (other.absorb inner)
    exact ⟨final', .expand hdocument hinner hfinal⟩

/-- Forms yield the same where all groups that they lead to have the same documents. -/
theorem of_agree {site' : Site} {P : String → Prop} (h : Yields site source forms r final)
    (hlayout : site'.layout = site.layout) (hforms : ∀ name ∈ groupsIn forms, P name)
    (hagree : ∀ name, P name → ∀ document,
      site.document (site.layout.groupFile name) = .ok document →
        site'.document (site.layout.groupFile name) = .ok document ∧
          ∀ other ∈ groupsIn document.forms, P other) :
    Yields site' source forms r final := by
  induction h with
  | done => exact .done
  | declare hform hdeclare _ ih =>
    rw [groupsIn_cons_of_none hform] at hforms
    exact .declare hform (hlayout ▸ hdeclare) (ih hforms)
  | expand hdocument _ _ ihinner ihrest =>
    rw [groupsIn_cons_group] at hforms
    obtain ⟨hdocument', hgroups⟩ := hagree _ (hforms _ List.mem_cons_self) _ hdocument
    have hinner := ihinner hgroups
    have hrest := ihrest fun other hother => hforms other (List.mem_cons_of_mem _ hother)
    rw [← hlayout] at hdocument' hinner
    exact .expand hdocument' hinner hrest

end Yields

/-- A body that resolves yields what it resolves to. -/
theorem Resolves.yields {body : List Statement} {run after : Run}
    (h : Resolves site source body r run (.ok final) after) :
    Yields site source (body.map (·.form)) r final := by
  induction h using Resolves.ok_induction with
  | done => exact .done
  | declare hform hdeclare _ ih => exact .declare hform hdeclare ih
  | expand hform _ hdocument _ _ ihinner ihrest =>
    rw [List.map_cons, Form.group?_eq_some_iff.mp hform]
    exact .expand hdocument ihinner ihrest

/-- A body that yields a resolution resolves to it, unless it leads to a group being expanded. -/
theorem Yields.resolves {body : List Statement} {trace : List String} {run : Run}
    (h : Yields site source forms r final) (hbody : body.map (·.form) = forms)
    (htrace : Unfolds site (groupsIn forms) trace) (hrun : ∀ name ∈ trace, name ∉ run.active) :
    ∃ after, Resolves site source body r run (.ok final) after := by
  induction h generalizing body trace run with
  | done =>
    cases List.map_eq_nil_iff.mp hbody
    exact ⟨run, .done⟩
  | @declare _ _ form _ _ _ _ hform hdeclare _ ih =>
    obtain ⟨s, rest, rfl, rfl, rfl⟩ := List.map_eq_cons_iff.mp hbody
    rw [groupsIn_cons_of_none hform] at htrace
    have hwarned : ∀ name ∈ trace, name ∉ (run.warnAll s.origin.file s.warnings).active := hrun
    obtain ⟨after, hrest⟩ := ih rfl htrace hwarned
    exact ⟨after, .declare hform (Resolution.declare_at hdeclare s.origin) hrest⟩
  | @expand _ name document _ r inner _ hdocument _ _ ihinner ihrest =>
    obtain ⟨s, rest, rfl, hform, rfl⟩ := List.map_eq_cons_iff.mp hbody
    rw [groupsIn_cons_group] at htrace
    cases htrace with
    | @cons _ _ traceInner traceRest _ hdocument' htraceInner htraceRest =>
      cases hdocument.symm.trans hdocument'
      have hactive : name ∉ run.active := hrun name List.mem_cons_self
      have hinto : ∀ other ∈ traceInner, other ∉ (run.into site.layout name).active := by
        intro other hother hmem
        obtain rfl | hmem := List.mem_cons.mp hmem
        · -- The trace of the group's document does not lead back to the group.
          exact htraceInner.notMem_of_document hdocument hother
        · exact hrun other (List.mem_cons_of_mem _ (List.mem_append_left _ hother)) hmem
      obtain ⟨inside, hinside⟩ := ihinner rfl (document.groups_eq ▸ htraceInner) hinto
      have hleave : ((inside.leave name).absorb name r inner).active = run.active :=
        Run.active_leave hactive hinside.active_eq
      have hleft : ∀ other ∈ traceRest,
          other ∉ ((inside.leave name).absorb name r inner).active := by
        intro other hother
        rw [hleave]
        exact hrun other (List.mem_append_right _ hother)
      obtain ⟨after, hafter⟩ := ihrest rfl htraceRest hleft
      have hgroup : s.form.group? = some name := Form.group?_eq_some_iff.mpr hform
      exact ⟨after, .expand hgroup hactive hdocument hinside hafter⟩

/-- While no group is being expanded, a document resolves to what it yields. -/
theorem resolve_eq_ok_iff {document : Document} {run : Run} (hrun : run.active = []) :
    (resolve site source document run).1 = .ok r ↔ Yields site source document.forms {} r := by
  constructor
  · intro h
    have hresolves := resolves_resolve site source document run
    rw [h] at hresolves
    exact hresolves.yields
  · intro h
    obtain ⟨trace, htrace⟩ := h.exists_unfolds
    have hfree : ∀ name ∈ trace, name ∉ run.active := by simp [hrun]
    obtain ⟨after, hresolves⟩ := h.resolves rfl htrace hfree
    rw [resolve_eq_iff.mpr hresolves]

end HostConfig
