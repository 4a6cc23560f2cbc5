import HostConfig.Proofs.Payload.FinalBreak
import HostConfig.Proofs.Payload.Service

/-!
# What a property list says

A text is a property list if each of its parts can be split into a key, an equals sign and a value.
The first part that cannot be split is the error. Otherwise each key has the value of its last part,
and stands where it came first.
-/

namespace HostConfig.Payload

open HostConfig.Text

variable {content rest part key value : List Char}

/-- A way to read a part of a property list: an assignment with its value on one line. -/
def IsSetting (part key value : List Char) : Prop :=
  IsAssignment part key value ∧ '\n' ∉ value

/-- The way with the longest key, and without blanks before the value. -/
def SetsProperty (part key value : List Char) : Prop :=
  IsLongest (fun key value => IsSetting part key value ∧ trimStart value = value) key value

/-- A text that keeps its end holds blanks and then a value exactly when trimming leaves one. -/
theorem hasValue_iff_trimStart (h : trimEnd rest = rest) :
    HasValue ('\n' ∉ ·) rest ↔ trimStart rest ≠ [] ∧ '\n' ∉ trimStart rest := by
  constructor
  · rintro ⟨gap, line, hgap, hne, hline, rfl⟩
    have hend := trimEnd_of_isSuffix h (List.suffix_append gap line)
    rw [trimStart_append_of_forall hgap]
    exact ⟨trimStart_ne_nil hend hne, fun hmem => hline ((trimStart_isSuffix line).subset hmem)⟩
  · rintro ⟨hne, hline⟩
    obtain ⟨gap, hgap, hrest⟩ := exists_gap rest
    exact ⟨gap, trimStart rest, hgap, hne, hline, hrest.symm⟩

/-- A part of a property list is split at an equals sign into the properties that it can be. -/
theorem isSplit_eq_isSetting (h : trimEnd part = part) : IsSplit ['='] assignedValue part =
    fun key value => IsSetting part key value ∧ trimStart value = value := by
  have hvalue : ∀ rest value, rest <:+ part → (assignedValue rest = some value ↔
      value = trimStart rest ∧ value ≠ [] ∧ '\n' ∉ value) := by
    intro rest value hrest
    have hend := trimEnd_of_isSuffix h hrest
    have htrim : trim rest = trimStart rest := trimEnd_of_isSuffix hend (trimStart_isSuffix rest)
    rw [assignedValue_eq_some_iff_hasValue, upToBreak_iff hend, hasValue_iff_trimStart hend, htrim]
    constructor
    · rintro ⟨hfilled, rfl⟩
      exact ⟨rfl, hfilled⟩
    · rintro ⟨rfl, hfilled⟩
      exact ⟨hfilled, rfl⟩
  funext key value
  rw [isSplit_iff_isPair hvalue, IsSetting, IsAssignment, and_assoc, and_comm (a := _ = _)]

/-- A part of a property list is read as the property that it sets. -/
theorem assignment?_eq_some_iff_setsProperty (h : trimEnd part = part) :
    assignment? part = some (key, value) ↔ SetsProperty part key value := by
  rw [assignment?_eq_split?, split?_eq_some_iff (List.cons_ne_nil _ _) isInk_of_mem_equals,
    isSplit_eq_isSetting h]
  rfl

/-- A part of a property list is read as a property if it can be split into a key and a value. -/
theorem exists_assignment?_iff_isSetting (h : trimEnd part = part) :
    (∃ key value, assignment? part = some (key, value)) ↔ ∃ key value, IsSetting part key value :=
  exists_assignment?_iff.trans (upToBreak_iff h)

/-- A part of a property list sets a property if it can be split into a key and a value. -/
theorem exists_setsProperty_iff (h : trimEnd part = part) :
    (∃ key value, SetsProperty part key value) ↔ ∃ key value, IsSetting part key value := by
  simp only [← assignment?_eq_some_iff_setsProperty h]
  exact exists_assignment?_iff_isSetting h

/-- Adding parts stops at the first one that is no assignment. -/
theorem addProperties_eq_error_iff {parts : List (List Char)} {props : Properties} :
    addProperties props parts = .error part ↔
      FirstFailing (fun part => assignment? part ≠ none) parts part := by
  induction parts generalizing props with
  | nil => simp [addProperties]
  | cons first rest ih =>
    rw [addProperties, firstFailing_cons]
    cases hfirst : assignment? first with
    | none => simp [eq_comm]
    | some pair => simp [ih]

/-- How the text of a property list is read, by its parts. -/
structure ReadsPropertyList (content : List Char) (parts : List (List Char)) : Prop where
  /-- These are the parts between the commas: trimmed, without the empty ones, in order. -/
  hasParts_iff : ∀ other, HasParts content other ↔ other = parts
  exists_iff : (∃ props, properties content = .ok props) ↔
    ∀ part ∈ parts, ∃ key value, IsSetting part key value
  /-- It is read as the properties that its parts set: each key has the value of its last part, and
  stands where it came first. -/
  ok_iff : ∀ props, properties content = .ok props ↔ SetByParts SetsProperty parts props
  /-- Otherwise the first part that cannot be split is the error. -/
  error_iff : ∀ part, properties content = .error part ↔
    FirstFailing (fun part => ∃ key value, IsSetting part key value) parts part
  /-- On one line, any key and any value will do. -/
  isSetting_iff : '\n' ∉ content → ∀ part ∈ parts, ∀ key value,
    IsSetting part key value ↔ IsAssignment part key value

/-- A value is a part of its assignment. -/
theorem IsAssignment.value_subset (h : IsAssignment part key value) : value ⊆ part := by
  obtain ⟨-, -, -, gap, gap', -, -, rfl⟩ := h
  intro c hc
  simp [hc]

/-- Every text is read as a property list, or its first part that cannot be split is the error. -/
theorem readsPropertyList (content : List Char) :
    ReadsPropertyList content (propertyParts content) := by
  have hend : ∀ part ∈ propertyParts content, trimEnd part = part := trimEnd_of_mem_propertyParts
  have hok : ∀ props, properties content = .ok props ↔
      SetByParts SetsProperty (propertyParts content) props := fun _ =>
    properties_eq_ok_iff_setByParts fun part hpart =>
      assignment?_eq_some_iff_setsProperty (hend part hpart)
  have hsome : ∀ part ∈ propertyParts content,
      (assignment? part ≠ none ↔ ∃ key value, IsSetting part key value) := fun part hpart => by
    rw [← exists_assignment?_iff_isSetting (hend part hpart)]
    rcases assignment? part with _ | ⟨key, value⟩ <;> simp
  constructor
  case hasParts_iff => exact fun _ => hasParts_iff
  case exists_iff =>
    simp only [hok, exists_setByParts_iff]
    exact forall₂_congr fun part hpart => exists_setsProperty_iff (hend part hpart)
  case ok_iff => exact hok
  case error_iff =>
    exact fun _ => addProperties_eq_error_iff.trans (firstFailing_congr hsome)
  case isSetting_iff =>
    intro hline part hpart key value
    refine and_iff_left_of_imp fun hassignment hmem => ?_
    exact (isLinePart_of_mem_propertyParts hline part hpart).notMem (hassignment.value_subset hmem)

end HostConfig.Payload
