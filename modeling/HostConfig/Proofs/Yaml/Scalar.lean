import HostConfig.Proofs.Yaml.Escaped
import HostConfig.Proofs.Yaml.Plain

/-!
# Scalars are told apart

The first character of a scalar tells its style, as no text that begins with a quote is written
without quotes. In each style the text is told by what is written, so that strings are told apart in
front of a line that is indented by less.
-/

namespace HostConfig.Yaml

open HostConfig.Text

variable {indent column : Nat} {a b cs t u : List Char} {s : String}

/-- A text without quotes has no line feeds. -/
theorem not_mem_of_canBePlain (h : canBePlain cs = true) : '\n' ∉ cs := by
  intro hmem
  have hbreak : cs.any isBreak = true := List.any_eq_true.mpr ⟨'\n', hmem, rfl⟩
  simp [canBePlain, hbreak] at h

/-- A text without quotes does not read as null. -/
theorem ne_null_of_canBePlain (h : canBePlain cs = true) : cs ≠ "null".toList := by
  rintro rfl
  exact absurd h (by decide)

/-- A text without quotes begins with neither a space nor a quote, and its first character is written
as it is. -/
theorem exists_writePlain_eq (indent column : Nat) (previous : Option Char)
    (h : canBePlain cs = true) :
    ∃ c rest, writePlain indent column previous cs = c :: rest ∧ c ≠ '\'' ∧ c ≠ '"' := by
  cases cs with
  | nil => exact absurd h (by decide)
  | cons c rest =>
    simp only [canBePlain, looksStructural, Bool.not_eq_true', Bool.or_eq_false_iff] at h
    obtain ⟨⟨⟨-, hspace⟩, -⟩, ⟨-, hlead⟩, -⟩ := h
    have hc : c ≠ ' ' := by
      rintro rfl
      exact absurd hspace (by simp)
    have hlead : "#,[]\x7b\x7d&*!|>'\"%@\x60".toList.contains c = false :=
      (Bool.or_eq_false_iff.mp hlead).1
    refine ⟨c, writePlain indent (column + 1) (some c) rest, ?_, ?_, ?_⟩
    · rw [writePlain, if_neg (by simp [hc])]
    · rintro rfl
      exact absurd hlead (by decide)
    · rintro rfl
      exact absurd hlead (by decide)

/-- A text in single quotes has no break in front of a space. -/
theorem hasNeighbours_of_canBeSingle (h : canBeSingle cs = true) :
    hasNeighbours isBreak (· == ' ') cs = false := by
  simp only [canBeSingle, Bool.not_eq_true', Bool.or_eq_false_iff] at h
  exact h.2

/-- Texts in single quotes are told apart, in front of what does not begin with one more quote. -/
theorem eq_of_writeSingle_append_eq (hindent : 1 ≤ indent) (ha : canBeSingle a = true)
    (hb : canBeSingle b = true) (ht : t.head? ≠ some '\'') (hu : u.head? ≠ some '\'')
    (h : writeSingle indent column none a ++ '\'' :: t =
      writeSingle indent column none b ++ '\'' :: u) :
    a = b ∧ t = u := by
  have hread : ∀ {cs t}, canBeSingle cs = true → t.head? ≠ some '\'' →
      scan SinglePhase.next .text (writeSingle indent column none cs ++ '\'' :: t) = (cs, t) := by
    intro cs t hcs ht
    have hphase : SinglePhase.before none cs = .text := SinglePhase.before_eq_text (Or.inl rfl)
    exact hphase ▸ scan_writeSingle hindent (hasNeighbours_of_canBeSingle hcs) ht
  have hsame := (hread ha ht).symm.trans ((congrArg _ h).trans (hread hb hu))
  exact ⟨congrArg Prod.fst hsame, congrArg Prod.snd hsame⟩

/-- Texts in double quotes are told apart. -/
theorem eq_of_writeDouble_append_eq (hmargin : indent < margin)
    (h : writeDouble indent column [] true a ++ '"' :: t =
      writeDouble indent column [] true b ++ '"' :: u) :
    a = b ∧ t = u := by
  have hread : ∀ {cs t}, scan DoublePhase.next .text
      (writeDouble indent column [] true cs ++ '"' :: t) = (cs, t) :=
    scan_writeDouble hmargin (by simp)
  have hsame := hread.symm.trans ((congrArg _ h).trans hread)
  exact ⟨congrArg Prod.fst hsame, congrArg Prod.snd hsame⟩

theorem canBePlain_of_styleOf (h : styleOf cs = .plain) : canBePlain cs = true := by
  rw [styleOf] at h
  split_ifs at h with hplain
  exact hplain

theorem canBeSingle_of_styleOf (h : styleOf cs = .single) : canBeSingle cs = true := by
  rw [styleOf] at h
  split_ifs at h with hplain hsingle
  exact hsingle

/-- The style that the first character behind the space tells. -/
def toldStyle (text : List Char) : Style :=
  match text.tail.head? with
  | some '\'' => .single
  | some '"' => .double
  | _ => .plain

/-- A written string tells its style. -/
theorem toldStyle_writeString (indent column : Nat) (s : String) (t : List Char) :
    toldStyle (writeString indent column s ++ t) = styleOf s.toList := by
  rw [writeString]
  cases hstyle : styleOf s.toList with
  | single => rfl
  | double => rfl
  | plain =>
    obtain ⟨c, rest, hwritten, hsingle, hdouble⟩ :=
      exists_writePlain_eq indent (column + 1) none (canBePlain_of_styleOf hstyle)
    simp only [hwritten, List.cons_append, toldStyle, List.tail_cons, List.head?_cons]
    split
    · next heq => exact absurd (Option.some.inj heq) hsingle
    · next heq => exact absurd (Option.some.inj heq) hdouble
    · rfl

/-- Strings are told apart, in front of a line that is indented by less. -/
theorem discerns_writeString (hindent : 1 ≤ indent) (hmargin : indent < margin) :
    Discerns (Outdents indent) (writeString indent column) := by
  intro a b t u ht hu h
  have hquote : ∀ {t : List Char}, Outdents indent t → t.head? ≠ some '\'' :=
    fun ht heq => absurd (ht.head?.symm.trans heq) (by decide)
  have hstyle := congrArg toldStyle h
  rw [toldStyle_writeString, toldStyle_writeString] at hstyle
  suffices a.toList = b.toList ∧ t = u from ⟨String.toList_injective this.1, this.2⟩
  cases hb : styleOf b.toList with
  | plain =>
    have ha := hstyle.trans hb
    simp only [writeString, ha, hb, List.cons_append] at h
    exact eq_of_writePlain_append_eq (not_mem_of_canBePlain (canBePlain_of_styleOf ha))
      (not_mem_of_canBePlain (canBePlain_of_styleOf hb)) ht hu (List.cons.inj h).2
  | single =>
    have ha := hstyle.trans hb
    simp only [writeString, ha, hb, List.cons_append, List.append_assoc, List.nil_append,
      List.cons.injEq, true_and] at h
    exact eq_of_writeSingle_append_eq hindent (canBeSingle_of_styleOf ha)
      (canBeSingle_of_styleOf hb) (hquote ht) (hquote hu) h
  | double =>
    have ha := hstyle.trans hb
    simp only [writeString, ha, hb, List.cons_append, List.append_assoc, List.nil_append,
      List.cons.injEq, true_and] at h
    exact eq_of_writeDouble_append_eq hmargin h

/-- No string is written as null is. -/
theorem null_append_ne_writeString (ht : Outdents indent t) (hu : Outdents indent u) :
    " null".toList ++ t ≠ writeString indent column s ++ u := by
  intro h
  have hstyle := congrArg toldStyle h
  rw [toldStyle_writeString] at hstyle
  have hplain : styleOf s.toList = .plain := hstyle.symm
  have hs := canBePlain_of_styleOf hplain
  have hnull : " null".toList = ' ' :: writePlain indent (column + 1) none "null".toList := rfl
  simp only [hnull, writeString, hplain, List.cons_append, List.cons.injEq, true_and] at h
  have hsame := eq_of_writePlain_append_eq (by decide) (not_mem_of_canBePlain hs) ht hu h
  exact ne_null_of_canBePlain hs hsame.1.symm

example : writeString 2 1 "null" = " 'null'".toList := by decide

example : writeString 2 1 "a\nb" = " 'a\n\n  b'".toList := by decide

end HostConfig.Yaml
