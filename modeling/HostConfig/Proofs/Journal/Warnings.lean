import HostConfig.Proofs.Journal.Continuation
import HostConfig.Proofs.Journal.Telling

/-!
# Warnings in a journal

A journal holds warnings twice, by file and among its events. The two are in step as long as nothing
else is recorded at the level of warnings, which no resolution does: then the texts of a file are
those of its warning events, in order, and a file without any is not listed.
-/

namespace HostConfig

/-- The file that a notice is about, as its details tell. -/
def Notice.sourceFile? (n : Notice) : Option String :=
  match n.details.find? fun detail => detail.1 = "source_file" with
  | some (_, .str file) => some file
  | _ => none

/-- The message of a notice at the level of warnings that is about a file. -/
def Notice.warned? (file : String) (n : Notice) : Option String :=
  if n.level = "WARNING" ∧ n.sourceFile? = some file then some n.message else none

/-- The messages of the warning events about a file, in order. -/
def Journal.warned (j : Journal) (file : String) : List String := j.told (Notice.warned? file)

/-- The warnings by file and the warning events of a journal tell the same. -/
structure Journal.InStep (j : Journal) : Prop where
  texts_eq : ∀ file, j.warned file = j.warnings.texts file
  mem_files_iff : ∀ file, file ∈ j.warnings.files ↔ j.warnings.texts file ≠ []

/-- A journal is kept, and it is in step. -/
def InStepIn (journal : Option Journal) : Prop := ∃ j, journal = some j ∧ j.InStep

/-- The notice of a loaded file is about that file. -/
theorem Notice.sourceFile?_fileLoaded (file : String) (kind : SourceKind) :
    (Notice.fileLoaded file kind).sourceFile? = some file := by
  simp [sourceFile?, details]

/-- The notice of an entered group is about the group's file. -/
theorem Notice.sourceFile?_groupEntered (group file : String) :
    (Notice.groupEntered group file).sourceFile? = some file := by
  simp [sourceFile?, details]

/-- A warning is told as one about its file. -/
theorem Notice.warned?_warning (file other text : String) :
    Notice.warned? file (.warning other text) = if other = file then some text else none := by
  simp [warned?, level, sourceFile?, details, message]

/-- Nothing is warned of below the level of warnings. -/
theorem Notice.warned?_of_level {n : Notice} {file : String} (h : n.level ≠ "WARNING") :
    n.warned? file = none := if_neg fun hn => h hn.1

/-- Warnings about a file are told as such. -/
theorem filterMap_warned? (file other : String) (texts : List String) :
    (texts.filterMap fun text => Notice.warned? file (.warning other text)) =
      if other = file then texts else [] := by
  simp only [Notice.warned?_warning]
  by_cases h : other = file
  · simp only [if_pos h]
    exact List.filterMap_some
  · simp only [if_neg h]
    exact List.filterMap_none texts

theorem info_ne_warning : "INFO" ≠ "WARNING" := by decide

theorem debug_ne_warning : "DEBUG" ≠ "WARNING" := by decide

namespace Journal

variable {j : Journal}

/-- A journal in which nothing is recorded is in step. -/
theorem inStep_empty (known : Option String) : InStep { host := known } where
  texts_eq _ := rfl
  mem_files_iff _ := iff_of_false List.not_mem_nil fun hne => hne rfl

/-- What is recorded below the level of warnings keeps a journal in step. -/
theorem InStep.log (h : j.InStep) {n : Notice} (hn : n.level ≠ "WARNING") : (j.log n).InStep where
  texts_eq file := by
    rw [warned, told_log, Notice.warned?_of_level hn, Option.toList_none, List.append_nil]
    exact h.texts_eq file
  mem_files_iff := h.mem_files_iff

/-- A warning is recorded twice, and keeps a journal in step. -/
theorem InStep.warn (h : j.InStep) (file text : String) : (j.warn file text).InStep where
  texts_eq other := by
    have htold : (j.warn file text).warned other =
        j.warned other ++ if file = other then [text] else [] := by
      rw [warned, ← filterMap_warned? other file [text]]
      exact told_warnAll j file [text]
    rw [htold, h.texts_eq]
    exact (Warnings.texts_add _ _ _ _).symm
  mem_files_iff other := by
    change other ∈ (j.warnings.add file text).files ↔ (j.warnings.add file text).texts other ≠ []
    rw [Warnings.texts_add, Warnings.files_add]
    by_cases hother : file = other
    · subst hother
      by_cases hfile : file ∈ j.warnings.files <;> simp [hfile]
    · by_cases hfile : file ∈ j.warnings.files <;>
        simp [hfile, hother, Ne.symm hother, h.mem_files_iff]

/-- A host that is filled in keeps a journal in step. -/
theorem InStep.identify (h : j.InStep) (host : String) : (j.identify host).InStep where
  texts_eq := h.texts_eq
  mem_files_iff := h.mem_files_iff

/-- Warnings keep a journal in step. -/
theorem InStep.warnAll (h : j.InStep) (file : String) (texts : List String) :
    (j.warnAll file texts).InStep := by
  induction texts generalizing j with
  | nil => exact h
  | cons text rest ih => exact ih (h.warn file text)

/-- Merged entries keep a journal in step. -/
theorem InStep.mergeNotices (h : j.InStep) (es later : Entries) :
    (j.logAll (mergeNotices es later)).InStep := by
  rw [HostConfig.mergeNotices]
  induction es.overriding later generalizing j with
  | nil => exact h
  | cons e rest ih => exact ih (h.log debug_ne_warning)

end Journal

/-- What keeps journals in step keeps the one in step that is kept. -/
theorem InStepIn.map {journal : Option Journal} {record : Journal → Journal} (h : InStepIn journal)
    (hrecord : ∀ j : Journal, j.InStep → (record j).InStep) : InStepIn (journal.map record) := by
  obtain ⟨j, rfl, hj⟩ := h
  exact ⟨record j, rfl, hrecord j hj⟩

variable {site : Site}

/-- A group that is entered keeps a run's journal in step. -/
theorem Run.inStepIn_into {run : Run} (h : InStepIn run.journal) (l : Layout) (name : String) :
    InStepIn (run.into l name).journal :=
  h.map fun _ hj => hj.log debug_ne_warning

/-- A group that is merged and left keeps a run's journal in step. -/
theorem Run.inStepIn_absorb {run : Run} (h : InStepIn run.journal) (name : String)
    (r inner : Resolution) : InStepIn (run.absorb name r inner).journal := by
  have hmerged := h.map fun _ hj => hj.mergeNotices r.entries inner.entries
  exact hmerged.map fun _ hj => hj.log debug_ne_warning

/-- However a resolution ends, its journal is in step. -/
theorem Resolves.inStepIn {source : Provenance} {body : List Statement} {r : Resolution}
    {run after : Run} {outcome : Except Failure Resolution}
    (h : Resolves site source body r run outcome after) (hrun : InStepIn run.journal) :
    InStepIn after.journal := by
  induction h with
  | done | cycle | missing => exact hrun
  | @declare _ s _ _ _ _ _ _ _ _ _ ih =>
    exact ih (hrun.map fun _ hj => hj.warnAll s.origin.file s.warnings)
  | @reject _ s => exact hrun.map fun _ hj => hj.warnAll s.origin.file s.warnings
  | @unread _ _ _ _ _ name => exact Run.inStepIn_into hrun site.layout name
  | @fail _ _ _ _ _ _ name _ _ _ _ _ _ ih => exact ih (Run.inStepIn_into hrun site.layout name)
  | @expand _ _ _ r inner _ inside _ name _ _ _ _ _ _ _ ihinner ihrest =>
    have hinside := ihinner (Run.inStepIn_into hrun site.layout name)
    have hleft : InStepIn (inside.leave name).journal := hinside
    exact ihrest (Run.inStepIn_absorb hleft name r inner)

end HostConfig
