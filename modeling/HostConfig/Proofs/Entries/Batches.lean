import HostConfig.Proofs.Entries.Merging
import HostConfig.Proofs.Occurrence
import HostConfig.Proofs.Resolution.Raising

/-!
# Merging batches of entries

Batches of entries are merged one after the other into a list that is empty at first, and what is
overridden is recorded. All that comes of it can be told from the entries in their order, so that it
does not matter how they are cut into batches.
-/

namespace HostConfig

/-- Merge a batch of entries, and record which of them met an entry of their package. -/
def mergeBatch (state : Entries × Journal) (batch : List Entry) : Entries × Journal :=
  (state.1.putAll batch, state.2.logAll (mergeNotices state.1 batch))

/-- Merge batches one after the other, into no entries at first. -/
def mergeBatches (j : Journal) (batches : List (List Entry)) : Entries × Journal :=
  batches.foldl mergeBatch ([], j)

/-- The entries that are not the first of their package, in order. -/
def repeats (E : List Entry) : List Entry :=
  (E.zipIdx.filter fun (e, i) => e.package ∈ (E.take i).map (·.package)).map (·.1)

variable {E : List Entry} {es : Entries} {j : Journal}

/-- What merging entries gives: each package stands where it came first, has each list as it was
given last, and comes from where its last entry does. -/
structure MergedFrom (E : List Entry) (es : Entries) : Prop where
  packages_eq : es.packages = (E.map (·.package)).eraseDups
  /-- A list is that of the last entry for its package in which it is not empty. -/
  list_eq : ∀ package field e, LastWith (fun e => e.package = package ∧ e.list field ≠ []) E e →
    es.list package field = e.list field
  list_eq_nil : ∀ package field, (∀ e ∈ E, e.package = package → e.list field = []) →
    es.list package field = []
  /-- The source is that of the last entry for its package. -/
  source?_eq : ∀ package e, LastWith (·.package = package) E e →
    es.source? package = some e.provenance

/-- Nothing comes of no entries. -/
theorem mergedFrom_nil : MergedFrom [] [] where
  packages_eq := rfl
  list_eq _ _ _ h := absurd h not_lastWith_nil
  list_eq_nil _ _ _ := rfl
  source?_eq _ _ h := absurd h not_lastWith_nil

/-- Merging one more entry. -/
theorem MergedFrom.concat (h : MergedFrom E es) (e : Entry) : MergedFrom (E ++ [e]) (es.put e) where
  packages_eq := by
    rw [Entries.packages_put, h.packages_eq, List.map_append, List.map_singleton, eraseDups_concat]
    simp only [List.mem_eraseDups]
  list_eq package field later hlast := by
    rw [Entries.list_put]
    rcases lastWith_concat.mp hlast with ⟨⟨hpackage, hfilled⟩, rfl⟩ | ⟨hnot, hbefore⟩
    · rw [if_pos hpackage, lastNonEmpty_of_ne_nil _ hfilled]
    · rw [h.list_eq package field later hbefore]
      split
      · next hpackage =>
        have hnil : e.list field = [] := by
          by_contra hfilled
          exact hnot ⟨hpackage, hfilled⟩
        rw [hnil, lastNonEmpty_nil]
      · rfl
  list_eq_nil package field hnone := by
    have hbefore := h.list_eq_nil package field fun e he => hnone e (List.mem_append_left _ he)
    rw [Entries.list_put, hbefore]
    split
    · next hpackage => rw [hnone e (by simp) hpackage, lastNonEmpty_nil]
    · rfl
  source?_eq package later hlast := by
    rw [Entries.source?_put]
    rcases lastWith_concat.mp hlast with ⟨hpackage, rfl⟩ | ⟨hnot, hbefore⟩
    · rw [if_pos hpackage]
    · rw [if_neg hnot, h.source?_eq package later hbefore]

/-- What comes of merging entries into none. -/
theorem mergedFrom_putAll (E : List Entry) : MergedFrom E (Entries.putAll [] E) := by
  induction E using List.reverseRecOn with
  | nil => exact mergedFrom_nil
  | append_singleton E e ih =>
    have hput : Entries.putAll [] (E ++ [e]) = (Entries.putAll [] E).put e :=
      List.foldl_concat _ _ _ _
    rw [hput]
    exact ih.concat e

/-- Merging joined lists of entries is merging one list after the other. -/
theorem putAll_append (es : Entries) (first second : List Entry) :
    es.putAll (first ++ second) = (es.putAll first).putAll second :=
  List.foldl_append

/-- What joined lists of entries override is what one overrides after the other. -/
theorem overriding_append (es : Entries) (first second : List Entry) :
    es.overriding (first ++ second) =
      es.overriding first ++ (es.putAll first).overriding second := by
  induction first generalizing es with
  | nil => rfl
  | cons e rest ih =>
    have hput : es.putAll (e :: rest) = (es.put e).putAll rest := rfl
    rw [List.cons_append, Entries.overriding, Entries.overriding, ih, hput]
    split <;> rfl

/-- Recording two lists is recording one after the other. -/
theorem Journal.logAll_append (j : Journal) (first second : List Notice) :
    j.logAll (first ++ second) = (j.logAll first).logAll second :=
  List.foldl_append

/-- One more entry is a repetition if there was an entry for its package. -/
theorem repeats_concat (E : List Entry) (e : Entry) :
    repeats (E ++ [e]) = repeats E ++ if e.package ∈ E.map (·.package) then [e] else [] := by
  have hbefore : ∀ item ∈ E.zipIdx,
      decide (item.1.package ∈ ((E ++ [e]).take item.2).map (·.package)) =
        decide (item.1.package ∈ (E.take item.2).map (·.package)) := by
    intro item hitem
    have hlt : item.2 < E.length := by simpa using List.snd_lt_of_mem_zipIdx hitem
    rw [List.take_append_of_le_length (Nat.le_of_lt hlt)]
  rw [repeats, List.zipIdx_append, List.filter_append, List.map_append, List.filter_congr hbefore]
  congr 1
  rw [List.zipIdx_singleton, Nat.zero_add, List.filter_singleton]
  dsimp only
  rw [List.take_left]
  by_cases hmem : e.package ∈ E.map (·.package)
  · rw [if_pos hmem, decide_eq_true hmem]
    rfl
  · rw [if_neg hmem, decide_eq_false hmem]
    rfl

/-- Merging entries into none overrides at each repetition. -/
theorem overriding_nil (E : List Entry) : Entries.overriding [] E = repeats E := by
  induction E using List.reverseRecOn with
  | nil => rfl
  | append_singleton E e ih =>
    have hsome : ((Entries.putAll [] E).get? e.package).isSome ↔ e.package ∈ E.map (·.package) := by
      rw [Entries.isSome_get?_iff, (mergedFrom_putAll E).packages_eq, List.mem_eraseDups]
    rw [overriding_append, ih, repeats_concat, Entries.overriding]
    simp only [hsome]
    rfl

/-- Batches are merged as the entries that they hold. -/
theorem foldl_mergeBatch (es : Entries) (j : Journal) (batches : List (List Entry)) :
    batches.foldl mergeBatch (es, j) =
      (es.putAll batches.flatten, j.logAll (mergeNotices es batches.flatten)) := by
  induction batches generalizing es j with
  | nil => rfl
  | cons batch rest ih =>
    have hnotices : mergeNotices es (batch ++ rest.flatten) =
        mergeNotices es batch ++ mergeNotices (es.putAll batch) rest.flatten := by
      rw [mergeNotices, overriding_append, List.map_append]
      rfl
    rw [List.foldl_cons, mergeBatch, ih, List.flatten_cons, putAll_append, hnotices,
      Journal.logAll_append]

/-- No batch raises a clash of packages when it is merged into a table. -/
theorem foldlM_merge_ofEntries (es : Entries) (batches : List (List Entry)) :
    batches.foldlM Raising.Table.merge (.ofEntries es) =
      .ok (.ofEntries (es.putAll batches.flatten)) := by
  induction batches generalizing es with
  | nil => rfl
  | cons batch rest ih =>
    rw [List.foldlM_cons, Raising.Table.merge_ofEntries, List.flatten_cons, putAll_append]
    exact ih _

/-- What comes of merging batches one after the other. -/
structure MergesBatches (j : Journal) (batches : List (List Entry)) : Prop where
  entries : MergedFrom batches.flatten (mergeBatches j batches).1
  /-- In a table, where no merge fails, each entry is under the name of its package. -/
  table_eq : batches.foldlM Raising.Table.merge [] = .ok (.ofEntries (mergeBatches j batches).1)
  /-- There is one event for each repetition, with the package and the file of the later entry. -/
  events_eq : (mergeBatches j batches).2.events = j.events ++
    (repeats batches.flatten).map fun e => ⟨j.host, .entryMerged e.package e.provenance.file⟩
  /-- How the entries are cut into batches has no part in it. -/
  cut : ∀ other : List (List Entry), other.flatten = batches.flatten →
    mergeBatches j other = mergeBatches j batches

/-- Batches can be merged with all that this gives. -/
theorem mergesBatches (j : Journal) (batches : List (List Entry)) : MergesBatches j batches := by
  have hflat : ∀ batches, mergeBatches j batches =
      (Entries.putAll [] batches.flatten, j.logAll (mergeNotices [] batches.flatten)) :=
    foldl_mergeBatch [] j
  refine ⟨?_, ?_, ?_, ?_⟩
  · rw [hflat]
    exact mergedFrom_putAll _
  · rw [hflat]
    exact foldlM_merge_ofEntries [] batches
  · rw [hflat, Journal.events_logAll, mergeNotices, overriding_nil, List.map_map]
    rfl
  · intro other hother
    rw [hflat, hflat, hother]

/-- After each of the batches, what has come of them can be told from their entries in order. -/
theorem mergeBatches_take (j : Journal) (batches : List (List Entry)) (n : Nat) :
    mergeBatches j batches = (batches.drop n).foldl mergeBatch (mergeBatches j (batches.take n)) ∧
      MergesBatches j (batches.take n) := by
  refine ⟨?_, mergesBatches j _⟩
  rw [mergeBatches, mergeBatches, ← List.foldl_append, List.take_append_drop]

end HostConfig
