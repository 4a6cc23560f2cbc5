import HostConfig.Proofs.Document.Lines
import HostConfig.Proofs.Layout.Separation
import HostConfig.Proofs.Payload.LinePart

/-!
# Lines that include a group

The line that includes a group is read as an inclusion or not at all, whatever scope it stands in,
and it ends a list of packages. If the group has a possible name, and the name does not break the
line, it is that group that is included.
-/

namespace HostConfig

open HostConfig.Text

/-- The line that includes a group. -/
def groupLine (name : String) : List Char := "@group".toList ++ ' ' :: name.toList

/-- A line that includes a group is stripped behind the keyword only. -/
theorem stripComment_groupLine (name : String) :
    stripComment (groupLine name) = trimEnd ("@group".toList ++
      ' ' :: beforeComment .start name.toList) := by
  have hbefore : beforeComment .start (groupLine name) =
      "@group".toList ++ ' ' :: beforeComment .start name.toList := rfl
  rw [stripComment, hbefore]
  rfl

/-- A line that includes a group is classified as such. -/
theorem kind_of_groupLine (name : String) :
    (classify (stripComment (groupLine name))).1 = .directive .group := by
  have hword : firstWord (stripComment (groupLine name)) = "@group".toList := by
    rw [stripComment_groupLine, trimEnd_append]
    split
    · decide
    · next hne =>
      -- What is left behind the keyword still begins with the blank.
      obtain ⟨rest, hrest⟩ := trimEnd_isPrefix (' ' :: beforeComment .start name.toList)
      rcases htrim : trimEnd (' ' :: beforeComment .start name.toList) with _ | ⟨c, more⟩
      · exact absurd htrim hne
      · rw [htrim, List.cons_append] at hrest
        rw [(List.cons.inj hrest).1]
        rfl
  have hkeyword : Directive.ofKeyword? "@group".toList = some .group := by decide
  rw [classify, hword, hkeyword]

/-- A line that includes a group is read from what is left behind the keyword. -/
theorem readLine_groupLine (scope : Scope) (name : String) :
    readLine scope (groupLine name) = readGroup (scope.before (.directive .group))
      (String.ofList (classify (stripComment (groupLine name))).2) := by
  have hkind := kind_of_groupLine name
  cases hstrip : stripComment (groupLine name) with
  | nil =>
    rw [hstrip] at hkind
    cases hkind
  | cons c rest =>
    rw [readLine, hstrip]
    rw [hstrip] at hkind
    simp only [hkind, Token.read, readDirective]

/-- A line that includes a group does so in every scope, or else it is read in none. -/
theorem readLine_groupLine_cases (name : String) :
    (∃ payload, ∀ scope, readLine scope (groupLine name) =
      .ok ⟨[.group payload], scope.before (.directive .group)⟩) ∨
    ∀ scope reading, readLine scope (groupLine name) ≠ .ok reading := by
  simp only [readLine_groupLine, readGroup]
  split
  · exact Or.inr fun _ _ h => by cases h
  · split
    · exact Or.inl ⟨_, fun _ => rfl⟩
    · exact Or.inr fun _ _ h => by cases h

/-- A list of packages ends once. -/
theorem Scope.before_before_group (scope : Scope) :
    (scope.before (.directive .group)).before (.directive .group) =
      scope.before (.directive .group) := by
  cases scope <;> rfl

/-- Lines that include groups do so in every scope, or else they are read in none. -/
theorem readLines_groupLines_cases {names : List String} (hnames : names ≠ []) :
    (∃ payloads : List String, ∀ scope, readLines scope (names.map groupLine) =
      .ok ⟨payloads.map .group, scope.before (.directive .group)⟩) ∨
    ∀ scope reading, readLines scope (names.map groupLine) ≠ .ok reading := by
  induction names with
  | nil => contradiction
  | cons name rest ih =>
    rcases readLine_groupLine_cases name with ⟨payload, hfirst⟩ | hfails
    · by_cases hrest : rest = []
      · subst rest
        refine Or.inl ⟨[payload], fun scope => readLines_cons_eq_ok.mpr ?_⟩
        exact ⟨_, _, hfirst scope, rfl, rfl⟩
      · rcases ih hrest with ⟨payloads, hlater⟩ | hfails
        · refine Or.inl ⟨payload :: payloads, fun scope => readLines_cons_eq_ok.mpr ?_⟩
          refine ⟨_, _, hfirst scope, hlater _, ?_⟩
          rw [Reading.followedBy, Scope.before_before_group]
          rfl
        · refine Or.inr fun scope reading h => ?_
          obtain ⟨first, later, -, hlater, -⟩ := readLines_cons_eq_ok.mp h
          exact hfails first.scope later hlater
    · refine Or.inr fun scope reading h => ?_
      obtain ⟨first, later, hfirst, -, -⟩ := readLines_cons_eq_ok.mp h
      exact hfails scope first hfirst

/-- The group characters lie in a range of codes. -/
theorem toNat_of_isGroupChar {c : Char} (h : isGroupChar c) :
    0x2D ≤ c.toNat ∧ c.toNat ≤ 0x7A := by
  delta isGroupChar Char.isAlphanum Char.isAlpha Char.isUpper Char.isLower Char.isDigit at h
  simp only [Bool.or_eq_true, Bool.and_eq_true, decide_eq_true_eq, beq_iff_eq,
    UInt32.le_iff_toNat_le, ge_iff_le] at h
  rcases h with (((⟨hlow, hhigh⟩ | ⟨hlow, hhigh⟩) | ⟨hlow, hhigh⟩) | rfl) | rfl
  · change 0x41 ≤ c.toNat at hlow
    change c.toNat ≤ 0x5A at hhigh
    omega
  · change 0x61 ≤ c.toNat at hlow
    change c.toNat ≤ 0x7A at hhigh
    omega
  · change 0x30 ≤ c.toNat at hlow
    change c.toNat ≤ 0x39 at hhigh
    omega
  · decide
  · decide

/-- A group character is not blank. -/
theorem isBlank_of_isGroupChar {c : Char} (h : isGroupChar c) : isBlank c = false := by
  -- No blank lies in the range of the group characters.
  have hrange := toNat_of_isGroupChar h
  simp only [isBlank, Bool.or_eq_false_iff, Bool.and_eq_false_iff, decide_eq_false_iff_not,
    beq_eq_false_iff_ne]
  omega

/-- A possible name that does not break a line holds neither blanks nor the sign of a comment. -/
theorem plain_of_mem_groupName {name : String} (hname : isGroupName name)
    (hbreak : '\n' ∉ name.toList) {c : Char} (hc : c ∈ name.toList) :
    isBlank c = false ∧ c ≠ '#' := by
  rcases char_of_mem_groupName hname hc with hchar | rfl | rfl
  · refine ⟨isBlank_of_isGroupChar hchar, ?_⟩
    rintro rfl
    exact absurd hchar (by decide)
  · decide
  · exact absurd hc hbreak

/-- A text without the sign of a comment holds no comment. -/
theorem Text.beforeComment_of_notMem {cs : List Char} (state : QuoteState) (h : '#' ∉ cs) :
    beforeComment state cs = cs := by
  induction cs generalizing state with
  | nil => rfl
  | cons c rest ih =>
    rw [List.mem_cons, not_or] at h
    have hopens : state.opensComment c = false := by
      simp [QuoteState.opensComment, Ne.symm h.1]
    rw [beforeComment, hopens, ih _ h.2]
    rfl

/-- A possible name that does not break a line is what its line includes. -/
theorem readLine_groupLine_of_isGroupName {name : String} (hname : isGroupName name)
    (hbreak : '\n' ∉ name.toList) (scope : Scope) :
    readLine scope (groupLine name) =
      .ok ⟨[.group name], scope.before (.directive .group)⟩ := by
  have hplain : ∀ c ∈ name.toList, isBlank c = false ∧ c ≠ '#' :=
    fun c hc => plain_of_mem_groupName hname hbreak hc
  have hempty : name ≠ "" := by
    rintro rfl
    exact absurd hname (by decide)
  have hne : name.toList ≠ [] := by simpa using hempty
  have hcomment : beforeComment .start name.toList = name.toList :=
    beforeComment_of_notMem _ fun hsign => (hplain _ hsign).2 rfl
  have htrim : trimEnd name.toList = name.toList :=
    trimEnd_of_forall fun c hc => (hplain c hc).1
  have hstrip : stripComment (groupLine name) = groupLine name := by
    have hblank : trimEnd (' ' :: name.toList) = ' ' :: name.toList := by
      rw [← List.singleton_append, trimEnd_append, htrim, if_neg hne]
    rw [stripComment_groupLine, hcomment, trimEnd_append, hblank, if_neg (List.cons_ne_nil _ _)]
    rfl
  have hpayload : (classify (stripComment (groupLine name))).2 = name.toList := by
    have hkeyword : classify (groupLine name) = (.directive .group, trim (' ' :: name.toList)) := rfl
    have hstart : trimStart (' ' :: name.toList) = name.toList := by
      have hdrop : name.toList.dropWhile isBlank = name.toList := by
        cases htext : name.toList with
        | nil => rfl
        | cons c rest =>
          have hc := (hplain c (htext ▸ List.mem_cons_self)).1
          rw [List.dropWhile_cons_of_neg (by simp [hc])]
      exact hdrop
    rw [hstrip, hkeyword, trim, hstart, htrim]
  have hfilled : name.isEmpty = false := by simpa using hempty
  rw [readLine_groupLine, hpayload, String.ofList_toList, readGroup, hfilled, hname]
  rfl

/-- A line of a text that includes a group with a possible name includes that group. -/
theorem readLines_of_mem_lines {name : String} {text : List Char} (hname : isGroupName name)
    (hline : groupLine name ∈ lines text) (scope : Scope) :
    readLines scope [groupLine name] =
      .ok ⟨[.group name], scope.before (.directive .group)⟩ := by
  have hbreak : '\n' ∉ name.toList := fun hmem =>
    notMem_of_mem_lines hline (List.mem_append_right _ (List.mem_cons_of_mem _ hmem))
  have hread := readLine_groupLine_of_isGroupName hname hbreak scope
  exact readLines_cons_eq_ok.mpr ⟨_, _, hread, rfl, rfl⟩

end HostConfig
