import Mathlib.Data.List.Basic

/-!
# First and last items

Checks that are made one after the other stop at the first item that fails. What was the case last
is so until something else is the case, and of values that are given one after the other the last
one counts. These items are told by what stands before or behind them.
-/

namespace HostConfig

section FirstFailing

variable {α β ε : Type} {ok : α → Prop} {xs rest : List α} {x first : α}

/-- The first item of a list without a property: all items before it have the property. -/
def FirstFailing (ok : α → Prop) (xs : List α) (x : α) : Prop :=
  ∃ before after, xs = before ++ x :: after ∧ (∀ other ∈ before, ok other) ∧ ¬ ok x

/-- In an empty list nothing fails. -/
@[simp]
theorem not_firstFailing_nil : ¬ FirstFailing ok [] x := by
  rintro ⟨before, after, hxs, -⟩
  simp at hxs

/-- The first item fails, or else what fails first behind it. -/
theorem firstFailing_cons : FirstFailing ok (first :: rest) x ↔
    (¬ ok first ∧ x = first) ∨ (ok first ∧ FirstFailing ok rest x) := by
  constructor
  · rintro ⟨before, after, hxs, hbefore, hx⟩
    cases before with
    | nil =>
      obtain ⟨rfl, rfl⟩ := List.cons.inj hxs
      exact Or.inl ⟨hx, rfl⟩
    | cons other before =>
      obtain ⟨rfl, rfl⟩ := List.cons.inj hxs
      obtain ⟨hfirst, hbefore⟩ := List.forall_mem_cons.mp hbefore
      exact Or.inr ⟨hfirst, before, after, rfl, hbefore, hx⟩
  · rintro (⟨hfirst, rfl⟩ | ⟨hfirst, before, after, rfl, hbefore, hx⟩)
    · exact ⟨[], rest, rfl, by simp, hfirst⟩
    · exact ⟨first :: before, after, rfl, List.forall_mem_cons.mpr ⟨hfirst, hbefore⟩, hx⟩

/-- What fails first is an item of the list. -/
theorem FirstFailing.mem (h : FirstFailing ok xs x) : x ∈ xs := by
  obtain ⟨before, after, rfl, -⟩ := h
  simp

/-- What fails first fails. -/
theorem FirstFailing.fails (h : FirstFailing ok xs x) : ¬ ok x := by
  obtain ⟨-, -, -, -, hx⟩ := h
  exact hx

/-- Which item fails first is decided by the items of the list. -/
theorem firstFailing_congr {ok' : α → Prop} (h : ∀ x ∈ xs, (ok x ↔ ok' x)) :
    FirstFailing ok xs x ↔ FirstFailing ok' xs x := by
  induction xs with
  | nil => simp
  | cons first rest ih =>
    obtain ⟨hfirst, hrest⟩ := List.forall_mem_cons.mp h
    rw [firstFailing_cons, firstFailing_cons, hfirst, ih hrest]

/-- Checks in a row fail as the first one that fails does. -/
theorem mapM_eq_error_iff {f : α → Except ε β} {e : ε} : xs.mapM f = .error e ↔
    ∃ x, FirstFailing (fun x => ∃ b, f x = .ok b) xs x ∧ f x = .error e := by
  induction xs with
  | nil => simp [pure, Except.pure]
  | cons first rest ih =>
    simp only [List.mapM_cons, firstFailing_cons]
    cases hfirst : f first with
    | error e' => simp [bind, Except.bind, hfirst]
    | ok b =>
      have hrest : (do let bs ← rest.mapM f; pure (b :: bs)) = .error e ↔
          rest.mapM f = .error e := by
        cases rest.mapM f <;> simp [bind, Except.bind, pure, Except.pure]
      refine hrest.trans (ih.trans ?_)
      simp

end FirstFailing

section Since

variable {α : Type} {P Q P' Q' : α → Prop} {xs : List α} {a : α}

/-- Something was the case with an item, and something else has been with all items since. -/
def Since (P Q : α → Prop) (xs : List α) : Prop :=
  ∃ before a after, xs = before ++ a :: after ∧ P a ∧ ∀ b ∈ after, Q b

theorem not_since_nil : ¬ Since P Q [] := by
  rintro ⟨before, a, after, h, -⟩
  simp at h

/-- Either it is the case with the last item, or it still was before. -/
theorem since_concat : Since P Q (xs ++ [a]) ↔ P a ∨ Q a ∧ Since P Q xs := by
  constructor
  · rintro ⟨before, b, after, h, hb, hafter⟩
    rcases List.eq_nil_or_concat after with rfl | ⟨middle, c, rfl⟩
    · obtain ⟨-, hlast⟩ := List.append_inj' h rfl
      cases hlast
      exact Or.inl hb
    · rw [List.concat_eq_append, ← List.cons_append, ← List.append_assoc] at h
      obtain ⟨rfl, hlast⟩ := List.append_inj' h rfl
      cases hlast
      refine Or.inr ⟨hafter a (by simp), before, b, middle, rfl, hb, fun d hd => hafter d ?_⟩
      simp [hd]
  · rintro (ha | ⟨ha, before, b, after, rfl, hb, hafter⟩)
    · exact ⟨xs, a, [], rfl, ha, by simp⟩
    · refine ⟨before, b, after ++ [a], by simp, hb, fun c hc => ?_⟩
      rcases List.mem_append.mp hc with hc | hc
      · exact hafter c hc
      · exact List.mem_singleton.mp hc ▸ ha

theorem Since.mono (h : Since P Q xs) (hP : ∀ a, P a → P' a) (hQ : ∀ a, Q a → Q' a) :
    Since P' Q' xs := by
  obtain ⟨before, a, after, rfl, ha, hafter⟩ := h
  exact ⟨before, a, after, rfl, hP a ha, fun b hb => hQ b (hafter b hb)⟩

end Since

section LastWith

variable {α : Type} {P : α → Prop} {xs : List α} {x y : α}

/-- The last item of a list with a property: no item behind it has the property. -/
def LastWith (P : α → Prop) (xs : List α) (x : α) : Prop :=
  ∃ before after, xs = before ++ x :: after ∧ P x ∧ ∀ other ∈ after, ¬ P other

/-- An item is the last one with a property if it has it and no item since does. -/
theorem lastWith_iff_since : LastWith P xs x ↔ Since (fun y => P y ∧ y = x) (¬ P ·) xs := by
  constructor
  · rintro ⟨before, after, rfl, hx, hafter⟩
    exact ⟨before, x, after, rfl, ⟨hx, rfl⟩, hafter⟩
  · rintro ⟨before, _, after, rfl, ⟨hx, rfl⟩, hafter⟩
    exact ⟨before, after, rfl, hx, hafter⟩

/-- An empty list has no last item. -/
@[simp]
theorem not_lastWith_nil : ¬ LastWith P [] x := by
  rw [lastWith_iff_since]
  exact not_since_nil

/-- The item at the end is the last one with a property, or else the last one of before is. -/
theorem lastWith_concat :
    LastWith P (xs ++ [x]) y ↔ (P x ∧ y = x) ∨ (¬ P x ∧ LastWith P xs y) := by
  rw [lastWith_iff_since, since_concat, ← lastWith_iff_since, eq_comm]

end LastWith

end HostConfig
