import HostConfig.Proofs.Entries.Fields
import Mathlib.Data.List.Induction
import Mathlib.Data.List.Nodup

/-!
# Merging in any grouping

Entries in which each package stands once are told by the order of their packages and the entry of
each package. In these two views merging is the first occurrence in a joined list of packages and
an entry put over another one, so that it does not matter how a sequence of merges is grouped.
-/

namespace HostConfig

section FirstOccurrences

variable {α : Type} [DecidableEq α]

/-- An item is a new occurrence at the end unless the list holds it. -/
theorem eraseDups_concat (xs : List α) (a : α) :
    (xs ++ [a]).eraseDups = if a ∈ xs then xs.eraseDups else xs.eraseDups ++ [a] := by
  rw [List.eraseDups_append]
  by_cases ha : a ∈ xs <;> simp [List.removeAll, ha, List.eraseDups_cons]

/-- A list without repetitions consists of first occurrences. -/
theorem eraseDups_of_nodup {xs : List α} (h : xs.Nodup) : xs.eraseDups = xs := by
  induction xs using List.reverseRecOn with
  | nil => rfl
  | append_singleton xs a ih =>
    obtain ⟨hxs, -, hdisjoint⟩ := List.nodup_append.mp h
    have ha : a ∉ xs := fun ha => hdisjoint a ha a List.mem_cons_self rfl
    rw [eraseDups_concat, if_neg ha, ih hxs]

/-- First occurrences stand once. -/
theorem nodup_eraseDups (xs : List α) : xs.eraseDups.Nodup := by
  induction xs using List.reverseRecOn with
  | nil => exact List.nodup_nil
  | append_singleton xs a ih =>
    rw [eraseDups_concat]
    split
    · exact ih
    · next ha => exact List.nodup_append.mpr ⟨ih, by simp, by rintro b hb _ hc rfl; simp_all⟩

/-- Repetitions within the front part do not matter. -/
theorem eraseDups_eraseDups_append (xs ys : List α) :
    (xs.eraseDups ++ ys).eraseDups = (xs ++ ys).eraseDups := by
  induction ys using List.reverseRecOn with
  | nil => rw [List.append_nil, List.append_nil, eraseDups_of_nodup (nodup_eraseDups xs)]
  | append_singleton ys a ih =>
    rw [← List.append_assoc, ← List.append_assoc, eraseDups_concat, eraseDups_concat, ih]
    simp only [List.mem_append, List.mem_eraseDups]

/-- Repetitions within the back part do not matter. -/
theorem eraseDups_append_eraseDups (xs ys : List α) :
    (xs ++ ys.eraseDups).eraseDups = (xs ++ ys).eraseDups := by
  induction ys using List.reverseRecOn with
  | nil => rfl
  | append_singleton ys a ih =>
    rw [← List.append_assoc, eraseDups_concat, eraseDups_concat, ← ih]
    by_cases ha : a ∈ ys
    · rw [if_pos ha, if_pos (List.mem_append_right _ ha)]
    · rw [if_neg ha, ← List.append_assoc, eraseDups_concat]
      simp only [List.mem_append, List.mem_eraseDups]

end FirstOccurrences

theorem lastNonEmpty_assoc {α : Type} (first second third : List α) :
    lastNonEmpty (lastNonEmpty first second) third =
      lastNonEmpty first (lastNonEmpty second third) := by
  cases third with
  | nil => rfl
  | cons a rest => rfl

/-- Entries that are put over each other can be grouped in any way. -/
theorem Entry.override_assoc (first second third : Entry) :
    (first.override second).override third = first.override (second.override third) := by
  simp only [override, lastNonEmpty_assoc]

theorem overrideOption_assoc (first second third : Option Entry) :
    overrideOption (overrideOption first second) third =
      overrideOption first (overrideOption second third) := by
  cases third with
  | none => rfl
  | some later =>
    cases second with
    | none => cases first <;> rfl
    | some middle =>
      cases first with
      | none => rfl
      | some earlier => exact congrArg some (Entry.override_assoc earlier middle later)

namespace Entries

/-- Where each package stands once, an entry is that of its package. -/
theorem get?_of_mem {es : Entries} (h : es.packages.Nodup) {e : Entry} (he : e ∈ es) :
    es.get? e.package = some e := by
  induction es with
  | nil => cases he
  | cons first rest ih =>
    rw [packages_cons, List.nodup_cons] at h
    rw [get?_cons]
    cases he with
    | head => rw [if_pos rfl]
    | tail _ he =>
      have hne : first.package ≠ e.package :=
        fun heq => h.1 (heq ▸ List.mem_map_of_mem he)
      rw [if_neg hne, ih h.2 he]

/-- Entries are those of their packages in order. -/
theorem map_get?_packages {es : Entries} (h : es.packages.Nodup) :
    es.packages.map es.get? = es.map some := by
  rw [packages, List.map_map]
  exact List.map_congr_left fun e he => get?_of_mem h he

/-- Entries with the same packages in the same order, and the same entry for each, are equal. -/
theorem eq_of_get?_eq {es other : Entries} (h : es.packages.Nodup)
    (hpackages : other.packages = es.packages)
    (hget : ∀ package, other.get? package = es.get? package) : other = es := by
  have hmap : other.map some = es.map some := by
    rw [← map_get?_packages (hpackages ▸ h), ← map_get?_packages h, hpackages, funext hget]
  exact List.map_injective_iff.mpr (fun _ _ => Option.some.inj) hmap

/-- Merging entries adds the packages that are new, in order. -/
theorem packages_putAll {es : Entries} (later : Entries) (h : es.packages.Nodup) :
    (es.putAll later).packages = (es.packages ++ later.packages).eraseDups := by
  induction later generalizing es with
  | nil =>
    change es.packages = (es.packages ++ []).eraseDups
    rw [List.append_nil, eraseDups_of_nodup h]
  | cons e rest ih =>
    have hput : (es.put e).packages = (es.packages ++ [e.package]).eraseDups := by
      rw [packages_put, eraseDups_concat, eraseDups_of_nodup h]
    have hstep : es.putAll (e :: rest) = (es.put e).putAll rest := rfl
    rw [hstep, ih (nodup_packages_put e h), hput, eraseDups_eraseDups_append, packages_cons,
      List.append_assoc, List.singleton_append]

/-- Merges can be grouped in any way. -/
theorem putAll_assoc {first second third : Entries} (hfirst : first.packages.Nodup)
    (hsecond : second.packages.Nodup) (hthird : third.packages.Nodup) :
    (first.putAll second).putAll third = first.putAll (second.putAll third) := by
  have hmerged : (second.putAll third).packages.Nodup := nodup_packages_putAll third hsecond
  refine eq_of_get?_eq (nodup_packages_putAll _ hfirst) ?_ fun package => ?_
  · rw [packages_putAll _ (nodup_packages_putAll second hfirst), packages_putAll _ hfirst,
      packages_putAll _ hfirst, packages_putAll _ hsecond, eraseDups_eraseDups_append,
      eraseDups_append_eraseDups, List.append_assoc]
  · rw [get?_putAll _ hthird, get?_putAll _ hsecond, get?_putAll _ hmerged, get?_putAll _ hthird,
      overrideOption_assoc]

end Entries

end HostConfig
