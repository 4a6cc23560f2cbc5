import HostConfig.Proofs.Resolution.Derivation

/-!
# What journals tell

A view picks something out of some of the notices in a journal. Most of what is recorded are
warnings and merged entries, and a view that passes over both sees of a resolution only that groups
are entered and left. What a view picks out of the journals of successive runs is put together.
-/

namespace HostConfig

variable {α : Type} {tell : Notice → Option α}

/-- What a view picks out of a journal, in order. -/
def Journal.told (j : Journal) (tell : Notice → Option α) : List α :=
  j.events.filterMap (tell ·.notice)

/-- What a view picks out of a journal, if one is kept. -/
def toldIn (journal : Option Journal) (tell : Notice → Option α) : Option (List α) :=
  journal.map (·.told tell)

/-- A view passes over warnings and merged entries. -/
structure IsCoarse (tell : Notice → Option α) : Prop where
  warning : ∀ file text, tell (.warning file text) = none
  entryMerged : ∀ package file, tell (.entryMerged package file) = none

/-- A view picks the same out of a later journal as out of an earlier one, and then a list. -/
def TellsMore (tell : Notice → Option α) (journal after : Option Journal) (added : List α) : Prop :=
  toldIn after tell = (toldIn journal tell).map (· ++ added)

namespace Journal

theorem told_log (j : Journal) (n : Notice) :
    (j.log n).told tell = j.told tell ++ (tell n).toList := by
  rw [told, events_log, List.filterMap_append]
  cases h : tell n <;> simp [told, h]

/-- A view that passes over merged entries is told nothing by a merge. -/
theorem told_mergeNotices (hmerged : ∀ package file, tell (.entryMerged package file) = none)
    (j : Journal) (es later : Entries) :
    (j.logAll (mergeNotices es later)).told tell = j.told tell := by
  have hnone : (mergeNotices es later).filterMap tell = [] := by
    rw [mergeNotices, List.filterMap_map, List.filterMap_eq_nil_iff]
    exact fun e _ => hmerged _ _
  rw [told, events_logAll, List.filterMap_append, List.filterMap_map]
  exact (congrArg (j.told tell ++ ·) hnone).trans (List.append_nil _)

/-- Warnings are told one after the other. -/
theorem told_warnAll (j : Journal) (file : String) (texts : List String) :
    (j.warnAll file texts).told tell =
      j.told tell ++ texts.filterMap fun text => tell (.warning file text) := by
  induction texts generalizing j with
  | nil => exact (List.append_nil _).symm
  | cons text rest ih =>
    have hwarn : (j.warn file text).told tell =
        j.told tell ++ (tell (.warning file text)).toList := by
      rw [told, events_warn, List.filterMap_append, ← told]
      cases htold : tell (.warning file text) <;> simp [htold]
    rw [warnAll, List.foldl_cons, ← warnAll, ih, hwarn, List.append_assoc]
    cases htold : tell (.warning file text) <;> simp [htold]

end Journal

section

variable {journal middle after : Option Journal} {xs ys : List α}

/-- What is recorded in a journal is told there, if a journal is kept. -/
theorem tellsMore_log (tell : Notice → Option α) (journal : Option Journal) (n : Notice) :
    TellsMore tell journal (journal.map (·.log n)) (tell n).toList := by
  cases journal with
  | none => rfl
  | some j => exact congrArg some (j.told_log n)

theorem toldIn_mergeNotices (hmerged : ∀ package file, tell (.entryMerged package file) = none)
    (journal : Option Journal) (es later : Entries) :
    toldIn (journal.map (·.logAll (mergeNotices es later))) tell = toldIn journal tell := by
  cases journal with
  | none => rfl
  | some j => exact congrArg some (j.told_mergeNotices hmerged es later)

/-- Warnings are told, if a journal is kept. -/
theorem tellsMore_of_warnAll (tell : Notice → Option α) (journal : Option Journal) (file : String)
    (texts : List String) :
    TellsMore tell journal (journal.map (·.warnAll file texts))
      (texts.filterMap fun text => tell (.warning file text)) := by
  cases journal with
  | none => rfl
  | some j => exact congrArg some (j.told_warnAll file texts)

/-- A host that is filled in is not told. -/
theorem toldIn_identify (journal : Option Journal) (host : String) :
    toldIn (journal.map (·.identify host)) tell = toldIn journal tell := by
  cases journal <;> rfl

/-- Nothing is added if the same is told. -/
theorem tellsMore_of_eq (h : toldIn after tell = toldIn journal tell) :
    TellsMore tell journal after [] := by
  rw [TellsMore, h]
  simp

/-- What is added first comes first. -/
theorem TellsMore.trans (h : TellsMore tell journal middle xs)
    (h' : TellsMore tell middle after ys) : TellsMore tell journal after (xs ++ ys) := by
  rw [TellsMore] at *
  rw [h', h, Option.map_map]
  congr 1
  funext before
  exact List.append_assoc _ _ _

end

namespace Run

/-- A coarse view passes over warnings. -/
theorem tellsMore_warnAll (htell : IsCoarse tell) (run : Run) (file : String)
    (texts : List String) : TellsMore tell run.journal (run.warnAll file texts).journal [] := by
  have hnone : (texts.filterMap fun text => tell (.warning file text)) = [] :=
    List.filterMap_eq_nil_iff.mpr fun text _ => htell.warning file text
  exact hnone ▸ tellsMore_of_warnAll tell run.journal file texts

/-- Entering a group is told. -/
theorem tellsMore_into (run : Run) (tell : Notice → Option α) (l : Layout) (name : String) :
    TellsMore tell run.journal (run.into l name).journal
      (tell (.groupEntered name (l.groupFile name).toString)).toList :=
  tellsMore_log tell run.journal _

/-- Leaving a group with a result is told. -/
theorem tellsMore_absorb (hmerged : ∀ package file, tell (.entryMerged package file) = none)
    (run : Run) (name : String) (r inner : Resolution) :
    TellsMore tell run.journal (run.absorb name r inner).journal
      (tell (.groupLeft name inner.entries.length)).toList := by
  have hmerged := tellsMore_of_eq (toldIn_mergeNotices hmerged run.journal r.entries inner.entries)
  exact hmerged.trans (tellsMore_log tell _ _)

end Run

end HostConfig
