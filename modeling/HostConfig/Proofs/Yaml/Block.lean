import HostConfig.Export
import HostConfig.Proofs.Yaml.Scalar

/-!
# Blocks are told apart

A field ends in front of a line that is indented no further than the field, and that is not one more
item of the list that the field may hold. Behind a field stands the key of another one, which begins
with neither a space nor a dash. So fields are told apart one after the other, and items too, in front
of a line that is indented less than what follows their dash.
-/

namespace HostConfig.Yaml

open HostConfig.Text

/-- A text ends a field at an indent. -/
def EndsField (indent : Nat) (t : List Char) : Prop :=
  Outdents (indent + 1) t ∧ ¬ newLine indent ++ ['-'] <+: t

/-- Fields at an indent, each on lines of its own. -/
def fieldLines (indent : Nat) (fields : List (List Char)) : List Char :=
  fields.flatMap fun field => newLine indent ++ field

/-- A key may begin with a character. -/
def BeginsKey (field : List Char) : Prop := ∃ c ∈ field.head?, c ≠ ' ' ∧ c ≠ '-'

instance (field : List Char) : Decidable (BeginsKey field) :=
  match field with
  | [] => isFalse fun ⟨_, hc, _⟩ => Option.not_mem_none _ hc
  | c :: _ => decidable_of_iff (c ≠ ' ' ∧ c ≠ '-')
    ⟨fun h => ⟨c, rfl, h⟩, fun ⟨_, hc, h⟩ => Option.some.inj hc ▸ h⟩

/-- Values are told apart by their field, which begins with a key. -/
structure IsField {α : Type} (indent : Nat) (field : α → List Char) : Prop where
  discerns : Discerns (EndsField indent) field
  begins : ∀ a, BeginsKey (field a)

/-- Values are told apart by their fields in front of some texts. -/
structure AreFields {α : Type} (indent : Nat) (Ends : List Char → Prop)
    (fields : α → List (List Char)) : Prop where
  discerns : Discerns Ends fun a => fieldLines indent (fields a)
  ends : ∀ a t, Ends t → EndsField indent (fieldLines indent (fields a) ++ t)

variable {α β : Type} {indent : Nat} {key : String} {t : List Char} {Ends : List Char → Prop}

theorem Outdents.endsField (h : Outdents indent t) : EndsField indent t :=
  ⟨h.mono (Nat.le_succ indent), fun hdash => h.not_prefix ((List.prefix_append _ _).trans hdash)⟩

/-- A field is ended by the next one. -/
theorem BeginsKey.endsField {field : List Char} (h : BeginsKey field) (indent : Nat)
    (rest : List Char) : EndsField indent (newLine indent ++ field ++ rest) := by
  obtain ⟨c, hc, hspace, hdash⟩ := h
  obtain ⟨more, rfl⟩ := List.head?_eq_some_iff.mp hc
  refine ⟨⟨indent, c :: more ++ rest, List.append_assoc _ _ _, ?_, Nat.lt_succ_self indent⟩, ?_⟩
  · exact fun heq => hspace (Option.some.inj heq)
  · rw [List.append_assoc, List.prefix_append_right_inj, List.cons_append, List.cons_prefix_cons]
    exact fun heq => hdash heq.1.symm

theorem fieldLines_append (fields fields' : List (List Char)) :
    fieldLines indent (fields ++ fields') = fieldLines indent fields ++ fieldLines indent fields' :=
  List.flatMap_append

theorem areFields_nil (h : ∀ t, Ends t → EndsField indent t) :
    AreFields indent Ends fun _ : Unit => [] where
  discerns _ _ _ _ _ _ heq := ⟨rfl, heq⟩
  ends _ t ht := h t ht

/-- No fields at all are told, in front of a line that is indented by less. -/
theorem areFields_none : AreFields indent (Outdents indent) fun _ : Unit => [] :=
  areFields_nil fun _ ht => ht.endsField

/-- One more field is told apart in front of others. -/
theorem AreFields.cons {field : α → List Char} {fields : β → List (List Char)}
    (h : AreFields indent Ends fields) (hfield : IsField indent field) :
    AreFields indent Ends fun p : α × β => field p.1 :: fields p.2 where
  discerns := (hfield.discerns.marked (newLine indent)).append h.discerns h.ends
  ends p t ht := by
    have hnext := (hfield.begins p.1).endsField indent (fieldLines indent (fields p.2) ++ t)
    rwa [← List.append_assoc] at hnext

theorem BeginsKey.append (h : BeginsKey key.toList) (rest : List Char) :
    BeginsKey (key.toList ++ rest) := by
  obtain ⟨c, hhead, hc⟩ := h
  exact ⟨c, List.mem_head?_append_of_mem_head? hhead, hc⟩

/-- A key with a colon stands before what tells the value. -/
theorem discerns_keyed {write field : α → List Char} (h : Discerns Ends write)
    (hfield : ∀ a, field a = key.toList ++ ':' :: write a) : Discerns Ends field := by
  have heq : field = fun a => (key.toList ++ [':']) ++ write a := by
    funext a
    rw [hfield, List.append_assoc, List.singleton_append]
  exact heq ▸ h.marked _

/-- A field with a string tells it. -/
theorem isField_textField (key : String) (hkey : BeginsKey key.toList)
    (hmargin : indent + 2 < margin) : IsField indent (textField indent key) where
  discerns := by
    have hstring : Discerns (EndsField indent)
        (writeString (indent + 2) (indent + key.length + 1)) :=
      (discerns_writeString (Nat.le_add_left 1 (indent + 1)) hmargin).mono
        fun t ht => ht.1.mono (Nat.le_succ _)
    exact discerns_keyed hstring fun _ => rfl
  begins _ := hkey.append _

/-- Truth values are told apart. -/
theorem discerns_flag :
    Discerns Ends fun b : Bool => ' ' :: (if b then "true" else "false").toList := by
  rintro (_ | _) (_ | _) t u - - heq
  all_goals simp_all

/-- A field with a flag tells it. -/
theorem isField_flagField (key : String) (hkey : BeginsKey key.toList) :
    IsField indent (flagField key) where
  discerns := discerns_keyed discerns_flag fun _ => rfl
  begins _ := hkey.append _

/-- A field with a string or null tells which of them it has. -/
theorem isField_optionalField (key : String) (hkey : BeginsKey key.toList)
    (hmargin : indent + 2 < margin) : IsField indent (optionalField indent key) where
  discerns := by
    have hnull : ∀ {s t u}, EndsField indent t → EndsField indent u →
        optionalField indent key none ++ t ≠ optionalField indent key (some s) ++ u := by
      intro s t u ht hu heq
      rw [optionalField, optionalField, textField, List.append_assoc, List.append_assoc] at heq
      exact null_append_ne_writeString (ht.1.mono (Nat.le_succ _)) (hu.1.mono (Nat.le_succ _))
        (List.cons.inj (List.append_cancel_left heq)).2
    rintro (_ | s) (_ | s') t u ht hu heq
    · exact ⟨rfl, List.append_cancel_left heq⟩
    · exact absurd heq (hnull ht hu)
    · exact absurd heq.symm (hnull hu ht)
    · obtain ⟨rfl, htu⟩ := (isField_textField key hkey hmargin).discerns s s' t u ht hu heq
      exact ⟨rfl, htu⟩
  begins s := by
    cases s with
    | none => exact hkey.append _
    | some s => exact hkey.append _

/-- Items stand on lines below their key. -/
theorem listField_map_cons (item : α → List Char) (x : α) (xs : List α) (t : List Char) :
    listField indent key ((x :: xs).map item) ++ t =
      key.toList ++
        ':' :: (((x :: xs).flatMap fun x => (newLine indent ++ ['-']) ++ item x) ++ t) := by
  simp [listField, List.flatMap_map]

/-- A field with a list tells its items. -/
theorem isField_listField {item : α → List Char} (key : String) (hkey : BeginsKey key.toList)
    (hitem : Discerns (Outdents (indent + 1)) item) :
    IsField indent fun xs : List α => listField indent key (xs.map item) where
  discerns := by
    have hdash : ∀ t, Outdents (indent + 1) (newLine indent ++ ['-'] ++ t) := fun t =>
      ⟨indent, '-' :: t, List.append_assoc _ _ _, by simp, Nat.lt_succ_self indent⟩
    have hitems : Discerns (EndsField indent) fun xs : List α =>
        xs.flatMap fun x => (newLine indent ++ ['-']) ++ item x :=
      hitem.list hdash fun _ ht => ht
    -- No item stands behind the colon, but a bracket does if there are no items.
    have hnone : ∀ {x xs t u}, listField indent key [] ++ t ≠
        listField indent key ((x :: xs).map item) ++ u := by
      intro x xs t u heq
      rw [listField_map_cons, listField, List.append_assoc] at heq
      have hspace := (List.cons.inj (List.append_cancel_left heq)).2
      exact absurd (List.cons.inj hspace).1 (by decide)
    rintro (_ | ⟨x, xs⟩) (_ | ⟨y, ys⟩) t u ht hu heq
    · exact ⟨rfl, List.append_cancel_left heq⟩
    · exact absurd heq hnone
    · exact absurd heq.symm hnone
    · have hsame := (listField_map_cons item x xs t).symm.trans
        (heq.trans (listField_map_cons item y ys u))
      exact hitems _ _ t u ht hu (List.cons.inj (List.append_cancel_left hsame)).2
  begins xs := by
    cases xs with
    | nil => exact hkey.append _
    | cons x xs => exact hkey.append _

/-- A key does not come next if the first field has another one and what follows is indented by
less. -/
theorem not_prefix_fieldLines {fields : List (List Char)} (ht : Outdents indent t)
    (h : ∀ field ∈ fields.head?, ∀ rest, ¬ key.toList <+: field ++ rest) :
    ¬ newLine indent ++ key.toList <+: fieldLines indent fields ++ t := by
  cases fields with
  | nil => exact fun hkey => ht.not_prefix ((List.prefix_append _ _).trans hkey)
  | cons field fields =>
    rw [fieldLines, List.flatMap_cons, List.append_assoc, List.append_assoc,
      List.prefix_append_right_inj]
    exact h field rfl _

/-- A flag that is not defined is told from one that is, if the field behind it has another key. -/
theorem AreFields.cons_definedFlag {fields : α → List (List Char)} (h : AreFields indent Ends fields)
    (key : String) (hkey : BeginsKey key.toList)
    (hother : ∀ a t, Ends t → ¬ newLine indent ++ key.toList <+: fieldLines indent (fields a) ++ t) :
    AreFields indent Ends fun p : Option Bool × α => definedFlag key p.1 ++ fields p.2 where
  discerns := by
    have hflag : Discerns (fun t => EndsField indent t ∧ ¬ newLine indent ++ key.toList <+: t)
        fun o : Option Bool => fieldLines indent (definedFlag key o) := by
      have hvalue : Discerns (EndsField indent)
          fun b : Bool => ':' :: ' ' :: (if b then "true" else "false").toList :=
        discerns_flag.marked [':']
      convert hvalue.option fun t ht => ht using 2 with o
      cases o <;> simp [fieldLines, definedFlag, flagField]
    have hboth := hflag.append h.discerns fun a t ht => ⟨h.ends a t ht, hother a t ht⟩
    simpa only [fieldLines_append] using hboth
  ends p t ht := by
    obtain ⟨_ | b, a⟩ := p
    · exact h.ends a t ht
    · have hbegins : BeginsKey (flagField key b) := hkey.append _
      have hnext := hbegins.endsField indent (fieldLines indent (fields a) ++ t)
      rwa [← List.append_assoc] at hnext

/-- A value that is made into another one is told apart by the fields of that one. -/
theorem AreFields.comp {fields : α → List (List Char)} (h : AreFields indent Ends fields)
    {f : β → α} (hf : Function.Injective f) : AreFields indent Ends fun b => fields (f b) where
  discerns := h.discerns.comp hf
  ends b := h.ends (f b)

/-- A mapping has its fields on lines, the first one behind an indent. -/
theorem newLine_append_mapping {fields : List (List Char)} (h : fields ≠ []) :
    newLine indent ++ mapping indent fields = fieldLines indent fields := by
  induction fields with
  | nil => exact absurd rfl h
  | cons field fields ih =>
    cases fields with
    | nil => simp [mapping, joinWith, fieldLines]
    | cons next others =>
      have hjoin : mapping indent (field :: next :: others) =
          field ++ (newLine indent ++ mapping indent (next :: others)) := List.append_assoc _ _ _
      rw [hjoin, ih (List.cons_ne_nil next others), ← List.append_assoc]
      rfl

/-- Mappings are told apart by their fields. -/
theorem AreFields.mapping {fields : α → List (List Char)} (h : AreFields indent Ends fields)
    (hsome : ∀ a, fields a ≠ []) : Discerns Ends fun a => mapping indent (fields a) := by
  intro a b t u ht hu heq
  refine h.discerns a b t u ht hu ?_
  simp only [← newLine_append_mapping (hsome _), List.append_assoc]
  exact congrArg _ heq

/-- A field with a list of mappings tells them if their fields do. -/
theorem isField_mappings {fields : α → List (List Char)} (key : String)
    (hkey : BeginsKey key.toList) (h : AreFields (indent + 2) (Outdents (indent + 2)) fields)
    (hsome : ∀ a, fields a ≠ []) :
    IsField indent fun xs : List α =>
      listField indent key (xs.map fun x => mappingItem indent (fields x)) := by
  have hitem : Discerns (Outdents (indent + 2)) fun a => mappingItem indent (fields a) :=
    (h.mapping hsome).marked [' ']
  exact isField_listField key hkey (hitem.mono fun t ht => ht.mono (Nat.le_succ _))

/-- A field with a list of strings tells them. -/
theorem isField_texts (key : String) (hkey : BeginsKey key.toList) (hmargin : indent + 2 < margin) :
    IsField indent fun xs : List String => listField indent key (xs.map (textItem indent)) := by
  have hitem : Discerns (Outdents (indent + 2)) (textItem indent) :=
    discerns_writeString (Nat.le_add_left 1 (indent + 1)) hmargin
  exact isField_listField key hkey (hitem.mono fun t ht => ht.mono (Nat.le_succ _))

end HostConfig.Yaml
