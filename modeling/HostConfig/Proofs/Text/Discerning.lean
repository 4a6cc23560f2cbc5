/-!
# Texts that tell values apart

A way of writing values tells them apart, in front of texts of some kind, if two written values that
are followed by such texts are only then the same text when the values and what follows them are the
same. Values that are written one after the other are told apart if each of them is in front of the
next one, and so are lists and optional values if what follows cannot be taken for one more item.
-/

namespace HostConfig.Text

/-- Written values, followed by texts of some kind, are only the same text if the values are the same
and the same text follows. -/
def Discerns {α : Type} (Follows : List Char → Prop) (write : α → List Char) : Prop :=
  ∀ a b t u, Follows t → Follows u → write a ++ t = write b ++ u → a = b ∧ t = u

namespace Discerns

variable {α β : Type} {Follows Ends : List Char → Prop} {write : α → List Char}
  {write' : β → List Char} {mark : List Char}

/-- What is told apart in front of some texts is so in front of fewer. -/
theorem mono (h : Discerns Follows write) (hends : ∀ t, Ends t → Follows t) :
    Discerns Ends write :=
  fun a b t u ht hu heq => h a b t u (hends t ht) (hends u hu) heq

/-- Values are told apart by what they are made into, if that tells them apart. -/
theorem comp (h : Discerns Follows write) {f : β → α} (hf : Function.Injective f) :
    Discerns Follows fun b => write (f b) := by
  intro a b t u ht hu heq
  obtain ⟨hab, htu⟩ := h (f a) (f b) t u ht hu heq
  exact ⟨hf hab, htu⟩

/-- A mark may stand before every value. -/
theorem marked (h : Discerns Follows write) (mark : List Char) :
    Discerns Follows fun a => mark ++ write a := by
  intro a b t u ht hu heq
  rw [List.append_assoc, List.append_assoc] at heq
  exact h a b t u ht hu (List.append_cancel_left heq)

/-- Two values are told apart one after the other. -/
theorem append (h : Discerns Follows write) (h' : Discerns Ends write')
    (hfollows : ∀ b t, Ends t → Follows (write' b ++ t)) :
    Discerns Ends fun p : α × β => write p.1 ++ write' p.2 := by
  rintro ⟨a, b⟩ ⟨a', b'⟩ t u ht hu heq
  rw [List.append_assoc, List.append_assoc] at heq
  obtain ⟨rfl, hrest⟩ := h a a' _ _ (hfollows b t ht) (hfollows b' u hu) heq
  obtain ⟨rfl, rfl⟩ := h' b b' t u ht hu hrest
  exact ⟨rfl, rfl⟩

/-- An optional value is told apart, also from none, if what follows does not begin with its mark. -/
theorem option (h : Discerns Follows write)
    (hends : ∀ t, Ends t → Follows t ∧ ¬ mark <+: t) :
    Discerns Ends fun o : Option α => o.elim [] fun a => mark ++ write a := by
  rintro (_ | a) (_ | b) t u ht hu heq
  · exact ⟨rfl, heq⟩
  · refine absurd ?_ (hends t ht).2
    exact ⟨write b ++ u, by rw [← List.append_assoc]; exact heq.symm⟩
  · refine absurd ?_ (hends u hu).2
    exact ⟨write a ++ t, by rw [← List.append_assoc]; exact heq⟩
  · obtain ⟨rfl, rfl⟩ := h.marked mark a b t u (hends t ht).1 (hends u hu).1 heq
    exact ⟨rfl, rfl⟩

/-- The items of a list are told apart, also from no more items, if what follows does not begin with
the mark of an item. -/
theorem list (h : Discerns Follows write) (hmark : ∀ t, Follows (mark ++ t))
    (hends : ∀ t, Ends t → Follows t ∧ ¬ mark <+: t) :
    Discerns Ends fun xs : List α => xs.flatMap fun a => mark ++ write a := by
  -- Behind an item stands the next one or what follows the list.
  have hitems : ∀ (xs : List α) t, Ends t → Follows ((xs.flatMap fun a => mark ++ write a) ++ t) := by
    rintro (_ | ⟨a, xs⟩) t ht
    · exact (hends t ht).1
    · simp only [List.flatMap_cons, List.append_assoc]
      exact hmark _
  intro xs
  induction xs with
  | nil =>
    rintro (_ | ⟨b, ys⟩) t u ht - heq
    · exact ⟨rfl, heq⟩
    · refine absurd ?_ (hends t ht).2
      simp only [List.flatMap_nil, List.flatMap_cons, List.nil_append, List.append_assoc] at heq
      exact ⟨_, heq.symm⟩
  | cons a xs ih =>
    rintro (_ | ⟨b, ys⟩) t u ht hu heq
    · refine absurd ?_ (hends u hu).2
      simp only [List.flatMap_nil, List.flatMap_cons, List.nil_append, List.append_assoc] at heq
      exact ⟨_, heq⟩
    · simp only [List.flatMap_cons, List.append_assoc] at heq
      obtain ⟨rfl, hrest⟩ := h a b _ _ (hitems xs t ht) (hitems ys u hu)
        (List.append_cancel_left heq)
      obtain ⟨rfl, rfl⟩ := ih ys t u ht hu hrest
      exact ⟨rfl, rfl⟩

end Discerns

end HostConfig.Text
