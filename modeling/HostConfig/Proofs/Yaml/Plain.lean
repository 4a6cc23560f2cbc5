import HostConfig.Proofs.Text.Discerning
import HostConfig.Yaml.Printer
import Mathlib.Data.List.Basic

/-!
# Scalars without quotes

A scalar without quotes may be folded onto lines that are indented further than what follows the
scalar. So where it ends is told by the indent, and each line feed before that end is a folded space,
as the scalar itself holds none.
-/

namespace HostConfig.Yaml

open HostConfig.Text

/-- A text begins with a line that is indented by less than some number of columns. -/
def Outdents (n : Nat) (t : List Char) : Prop :=
  ∃ k rest, t = newLine k ++ rest ∧ rest.head? ≠ some ' ' ∧ k < n

variable {n k indent column : Nat} {previous : Option Char} {c : Char}
  {rest x t u cs cs' : List Char}

/-- What stands behind an indent is no further indent. -/
theorem le_of_newLine_append_eq (h : newLine n ++ x = newLine k ++ rest)
    (hrest : rest.head? ≠ some ' ') : n ≤ k := by
  by_contra hlt
  obtain ⟨m, rfl⟩ : ∃ m, n = k + (m + 1) := ⟨n - k - 1, by omega⟩
  rw [newLine, newLine, List.cons_append, List.cons_append, List.replicate_add,
    List.append_assoc] at h
  have hspaces := List.append_cancel_left (List.cons.inj h).2
  rw [← hspaces, List.replicate_succ] at hrest
  exact hrest rfl

/-- A line that is indented by at least that much is not such a line. -/
theorem Outdents.not_prefix (h : Outdents n t) : ¬ newLine n <+: t := by
  rintro ⟨x, hx⟩
  obtain ⟨k, rest, rfl, hrest, hlt⟩ := h
  have hle := le_of_newLine_append_eq hx hrest
  omega

theorem Outdents.mono (h : Outdents k t) (hle : k ≤ n) : Outdents n t := by
  obtain ⟨m, rest, ht, hrest, hlt⟩ := h
  exact ⟨m, rest, ht, hrest, Nat.lt_of_lt_of_le hlt hle⟩

/-- What begins with a line begins with a line feed. -/
theorem Outdents.head? (h : Outdents n t) : t.head? = some '\n' := by
  obtain ⟨k, rest, rfl, -⟩ := h
  rfl

/-- What follows a scalar without quotes is not what it goes on with: that is a character, or a line
that is indented further. -/
theorem Outdents.ne_writePlain_cons (h : Outdents indent t) (hc : '\n' ≠ c) :
    t ≠ writePlain indent column previous (c :: rest) ++ u := by
  intro heq
  rw [writePlain] at heq
  split at heq
  · rw [List.append_assoc] at heq
    exact h.not_prefix ⟨_, heq.symm⟩
  · have hhead := h.head?
    rw [heq] at hhead
    exact hc (Option.some.inj hhead).symm

/-- Texts without line feeds that are written without quotes are told apart, in front of a line that
is indented by less. -/
theorem eq_of_writePlain_append_eq (hcs : '\n' ∉ cs) (hcs' : '\n' ∉ cs') (ht : Outdents indent t)
    (hu : Outdents indent u)
    (h : writePlain indent column previous cs ++ t = writePlain indent column previous cs' ++ u) :
    cs = cs' ∧ t = u := by
  induction cs generalizing column previous cs' with
  | nil =>
    cases cs' with
    | nil => exact ⟨rfl, h⟩
    | cons c' rest' => exact absurd h (ht.ne_writePlain_cons (List.ne_of_not_mem_cons hcs'))
  | cons c rest ih =>
    cases cs' with
    | nil => exact absurd h.symm (hu.ne_writePlain_cons (List.ne_of_not_mem_cons hcs))
    | cons c' rest' =>
      have hrest := List.not_mem_of_not_mem_cons hcs
      have hrest' := List.not_mem_of_not_mem_cons hcs'
      rw [writePlain, writePlain] at h
      split at h <;> split at h
      · next hfold hfold' =>
        -- Both are folded here, so that both have a space.
        simp only [Bool.and_eq_true, decide_eq_true_eq] at hfold hfold'
        obtain ⟨rfl, -⟩ := hfold
        obtain ⟨rfl, -⟩ := hfold'
        rw [List.append_assoc, List.append_assoc] at h
        obtain ⟨rfl, rfl⟩ := ih hrest hrest' (List.append_cancel_left h)
        exact ⟨rfl, rfl⟩
      · exact absurd (List.cons.inj h).1 (List.ne_of_not_mem_cons hcs')
      · exact absurd (List.cons.inj h).1.symm (List.ne_of_not_mem_cons hcs)
      · obtain ⟨rfl, hmore⟩ := List.cons.inj h
        obtain ⟨rfl, rfl⟩ := ih hrest hrest' hmore
        exact ⟨rfl, rfl⟩

end HostConfig.Yaml
