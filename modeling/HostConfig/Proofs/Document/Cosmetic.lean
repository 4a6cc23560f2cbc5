import HostConfig.Proofs.Document.Comment
import HostConfig.Proofs.Document.LineEnd
import HostConfig.Proofs.Document.Lines
import HostConfig.Proofs.FileTree.Insertion
import Mathlib.Logic.Relation

/-!
# Cosmetic edits

The edits to a text that change its layout and its comments only: lines are inserted that say
nothing, lines are indented or get a comment at their end, and line ends are spelled differently.
After any number of them all lines of a file say what they said, in every scope.
-/

namespace HostConfig

open HostConfig.Text

/-- An edit to one line that changes its layout or comments only: a line that says nothing is
inserted, blanks or a comment are put behind a line, or blanks in front of one. -/
inductive CosmeticEdit : List (List Char) → List (List Char) → Prop
  | insert (before after : List (List Char)) {filler : List Char} (hfiller : IsFiller filler) :
    CosmeticEdit (before ++ after) (before ++ filler :: after)
  | append (before after : List (List Char)) {line filler : List Char} (hline : EndsPlain line)
      (hfiller : IsFiller filler) :
    CosmeticEdit (before ++ line :: after) (before ++ (line ++ filler) :: after)
  | indent (before after : List (List Char)) (line : List Char) {gap : List Char}
      (hgap : IsGap gap) :
    CosmeticEdit (before ++ line :: after) (before ++ (gap ++ line) :: after)

/-- An edit to the bytes of a file that changes its layout or comments only. -/
inductive CosmeticFileEdit (bytes bytes' : List UInt8) : Prop
  | line (h : CosmeticEdit (lines (ofBytes bytes)) (lines (ofBytes bytes')))
  | lineEnd {before after : List Char} (h : decodeFrom none bytes = before ++ '\n' :: after)
      (h' : decodeFrom none bytes' = before ++ '\r' :: '\n' :: after)

/-- An edit to one file of a tree that changes its layout or comments only. -/
def FileTree.CosmeticStep (t t' : FileTree) : Prop :=
  ∃ path bytes bytes', t.get? path = some (.file bytes) ∧ CosmeticFileEdit bytes bytes' ∧
    t' = t.insert path (.file bytes')

/-- Lines with the same text before their comments are read alike. -/
theorem readLine_congr {raw raw' : List Char} (h : stripComment raw' = stripComment raw)
    (scope : Scope) : readLine scope raw' = readLine scope raw := by
  rw [readLine, readLine, h]

/-- Behind the same lines, what is read alike in every scope is read alike. -/
theorem readLines_append_congr {ys ys' : List (List Char)}
    (h : ∀ scope, readLines scope ys' = readLines scope ys) (xs : List (List Char))
    (scope : Scope) :
    readLines scope (xs ++ ys') = readLines scope (xs ++ ys) := by
  induction xs generalizing scope with
  | nil => exact h scope
  | cons raw xs ih => simp only [List.cons_append, readLines, ih]

/-- A line of which nothing is left before its comment says nothing. -/
theorem readLines_cons_of_strip_eq_nil {raw : List Char} (h : stripComment raw = [])
    (rest : List (List Char)) (scope : Scope) :
    readLines scope (raw :: rest) = readLines scope rest := by
  have hline : readLine scope raw = .ok ⟨[], scope⟩ := by rw [readLine, h]
  rw [readLines, hline]
  change (readLines scope rest).map (Reading.followedBy ⟨[], scope⟩) = readLines scope rest
  cases readLines scope rest <;> rfl

/-- After a cosmetic edit the lines say what they said. -/
theorem CosmeticEdit.readLines_eq {ls ls' : List (List Char)} (h : CosmeticEdit ls ls')
    (scope : Scope) : readLines scope ls' = readLines scope ls := by
  have hsame : ∀ {line line' : List Char}, stripComment line' = stripComment line →
      ∀ before after scope,
        readLines scope (before ++ line' :: after) = readLines scope (before ++ line :: after) := by
    intro line line' hstrip before after
    refine readLines_append_congr (fun scope => ?_) before
    rw [readLines, readLines, readLine_congr hstrip]
  cases h with
  | insert before after hfiller =>
    exact readLines_append_congr (readLines_cons_of_strip_eq_nil hfiller.stripComment_eq after)
      before scope
  | append before after hline hfiller =>
    exact hsame (stripComment_append hline hfiller) before after scope
  | indent before after line hgap =>
    exact hsame (stripComment_gap_append hgap line) before after scope

/-- After a cosmetic edit to its bytes a file says what it said. -/
theorem CosmeticFileEdit.readLines_eq {bytes bytes' : List UInt8}
    (h : CosmeticFileEdit bytes bytes') (scope : Scope) :
    readLines scope (lines (ofBytes bytes')) = readLines scope (lines (ofBytes bytes)) := by
  cases h with
  | line h => exact h.readLines_eq scope
  | @lineEnd before after h h' =>
    rcases doublesFeed_unifyLineEnds before after with hequal | ⟨head, tail, htext, htext'⟩
    · rw [ofBytes, ofBytes, h, h', hequal]
    · have hhead : head.getLast? ≠ some '\r' := by
        intro hlast
        have hmem : '\r' ∈ head ++ '\n' :: tail :=
          List.mem_append_left _ (List.mem_of_getLast? hlast)
        exact return_not_mem_unifyLineEnds _ (htext ▸ hmem)
      have hempty : lines ('\n' :: tail) = [] :: lines tail := rfl
      rw [ofBytes, ofBytes, h, h', htext, htext', lines_append_feed hhead, lines_append_feed hhead,
        hempty]
      exact (CosmeticEdit.insert _ _ (.gap (List.forall_mem_nil _))).readLines_eq scope

namespace FileTree

/-- What the lines of a file say from a scope on, if the file can be read. -/
def said (t : FileTree) (p : Path) : Except String (Scope → Except Cause Reading) :=
  (t.read p).map fun text scope => readLines scope (lines text)

/-- Two trees have the same paths, and the files there say the same. -/
structure SaysAlike (t t' : FileTree) : Prop where
  contains_eq (p : Path) : t'.contains p = t.contains p
  said_eq (p : Path) : t'.said p = t.said p

theorem SaysAlike.refl (t : FileTree) : t.SaysAlike t := ⟨fun _ => rfl, fun _ => rfl⟩

theorem SaysAlike.trans {t t' t'' : FileTree} (h : t.SaysAlike t') (h' : t'.SaysAlike t'') :
    t.SaysAlike t'' where
  contains_eq p := (h'.contains_eq p).trans (h.contains_eq p)
  said_eq p := (h'.said_eq p).trans (h.said_eq p)

variable {t t' : FileTree}

/-- A cosmetic edit changes nothing that is said. -/
theorem CosmeticStep.saysAlike (h : t.CosmeticStep t') : t.SaysAlike t' := by
  obtain ⟨path, bytes, bytes', hget, hedit, rfl⟩ := h
  have hcontains : t.contains path = true := by rw [contains, hget]; rfl
  have hsame : ∀ {p}, (t.insert path (.file bytes')).contains p = t.contains p :=
    contains_insert_of_contains hcontains
  refine ⟨fun p => hsame, fun p => ?_⟩
  by_cases hkey : key path = key p
  · have hread : t.read p = .ok (ofBytes bytes) := by
      rw [← t.read_congr hkey, read, hget]
    rw [said, said, hread, read_insert_of_eq hkey]
    exact congrArg Except.ok (funext hedit.readLines_eq)
  · rw [said, said, read, read, get?_insert_of_contains_eq hkey hsame]

/-- Cosmetic edits change nothing that is said. -/
theorem saysAlike_of_cosmeticSteps (h : Relation.ReflTransGen CosmeticStep t t') :
    t.SaysAlike t' := by
  induction h with
  | refl => exact SaysAlike.refl t
  | tail _ hstep ih => exact ih.trans hstep.saysAlike

end FileTree

end HostConfig
