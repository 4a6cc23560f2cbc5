import HostConfig.Document
import HostConfig.Proofs.Payload.LinePart

/-!
# Places in a text

Every token of a text but the last one stands on a line of the text: its number counts from one
and its raw text is that line, unchanged. What it carries is a part of the line, without blanks at
the end. Statements, and the problem that ends a reading, take their place from the token that they
are read from.
-/

namespace HostConfig

open HostConfig.Text

/-- The place is a line of the text, and holds that line as it stands there. -/
def Origin.IsLineOf (o : Origin) (text : List Char) : Prop :=
  1 ≤ o.line ∧ o.line ≤ (lines text).length ∧ (lines text)[(o.line - 1).toNat]? = some o.raw.toList

/-- The token of a line holds the kind and the payload of the stripped line. -/
theorem Token.eq_of_ofLine? {file : String} {number : Nat} {raw : List Char} {t : Token}
    (h : Token.ofLine? file number raw = some t) :
    t = ⟨(classify (stripComment raw)).1, ⟨file, number, String.ofList raw⟩,
      String.ofList (classify (stripComment raw)).2⟩ := by
  unfold Token.ofLine? at h
  split at h
  · cases h
  · next hstrip =>
    rw [hstrip]
    exact (Option.some.inj h).symm

/-- No line is the end of the text. -/
theorem classify_ne_eof (line : List Char) : (classify line).1 ≠ .eof := by
  unfold classify
  split <;> simp

/-- The token of a line is not the end of the text. -/
theorem Token.kind_of_ofLine? {file : String} {number : Nat} {raw : List Char} {t : Token}
    (h : Token.ofLine? file number raw = some t) : t.kind ≠ .eof := by
  rw [Token.eq_of_ofLine? h]
  exact classify_ne_eof _

/-- A token before the end is that of one of the lines. -/
theorem exists_line_of_mem_tokensFrom {file : String} {number : Nat} {ls : List (List Char)}
    {t : Token} (h : t ∈ tokensFrom file number ls) (hkind : t.kind ≠ .eof) :
    ∃ i raw, ls[i]? = some raw ∧ Token.ofLine? file (number + i) raw = some t := by
  induction ls generalizing number with
  | nil =>
    rw [tokensFrom, List.mem_singleton] at h
    subst t
    exact absurd rfl hkind
  | cons raw rest ih =>
    rcases List.mem_append.mp h with hfirst | hrest
    · exact ⟨0, raw, rfl, by simpa using hfirst⟩
    · obtain ⟨i, raw', hi, ht⟩ := ih hrest
      exact ⟨i + 1, raw', hi, by rw [← ht, Nat.add_assoc, Nat.add_comm 1]⟩

/-- A token before the end stands on a line of the text. -/
theorem isLineOf_of_mem_tokenize {file : String} {text : List Char} {t : Token}
    (h : t ∈ tokenize file text) (hkind : t.kind ≠ .eof) :
    t.origin.file = file ∧ t.origin.IsLineOf text := by
  obtain ⟨i, raw, hi, ht⟩ := exists_line_of_mem_tokensFrom h hkind
  obtain ⟨hlength, -⟩ := List.getElem?_eq_some_iff.mp hi
  rw [Token.origin_of_ofLine? ht]
  refine ⟨rfl, ?_, ?_, ?_⟩
  · change (1 : Int) ≤ ((1 + i : Nat) : Int)
    omega
  · change ((1 + i : Nat) : Int) ≤ ((lines text).length : Int)
    omega
  · have hindex : (((1 + i : Nat) : Int) - 1).toNat = i := by omega
    simp only [hindex, hi, String.toList_ofList]

/-- All tokens of a text are of the text's file. -/
theorem file_of_mem_tokensFrom {file : String} {number : Nat} {ls : List (List Char)} {t : Token}
    (h : t ∈ tokensFrom file number ls) : t.origin.file = file := by
  induction ls generalizing number with
  | nil =>
    rw [tokensFrom, List.mem_singleton] at h
    rw [h]
  | cons raw rest ih =>
    rcases List.mem_append.mp h with hfirst | hrest
    · rw [Token.origin_of_ofLine? (by simpa using hfirst)]
    · exact ih hrest

/-- The tokens of a text tell its file. -/
theorem fileOfTokens_tokenize (file : String) (text : List Char) :
    fileOfTokens (tokenize file text) = file := by
  rcases htokens : tokenize file text with _ | ⟨t, rest⟩
  · have hlast := getLast?_tokensFrom file 1 (lines text)
    rw [← tokenize, htokens] at hlast
    cases hlast
  · have ht : t ∈ tokenize file text := htokens ▸ List.mem_cons_self
    exact file_of_mem_tokensFrom ht

/-- A text forms a document of its file when its tokens are read. -/
theorem Document.ofText_eq_ok_iff {file : String} {text : List Char} {document : Document} :
    Document.ofText file text = .ok document ↔ document.file = file ∧
      (readTokens 0 .top (tokenize file text)).outcome = .ok document.body := by
  rw [ofText, ofTokens, Parse.ofTokens, fileOfTokens_tokenize]
  obtain ⟨file', body⟩ := document
  cases (readTokens 0 .top (tokenize file text)).outcome with
  | error p => simp [Except.map]
  | ok body' => simp [Except.map, eq_comm]

/-- Tokens are read when the first one is, and the others are in the scope after it. -/
theorem outcome_cons_eq_ok_iff {position : Nat} {s : Scope} {t : Token} {rest : List Token}
    {body : List Statement} (hkind : t.kind ≠ .eof) :
    (readTokens position s (t :: rest)).outcome = .ok body ↔
      ∃ reading later, t.read (s.before t.kind) = .ok reading ∧
        (readTokens (position + 1) reading.scope rest).outcome = .ok later ∧
        body = reading.forms.map (⟨t.origin, ·⟩) ++ later := by
  simp only [readTokens, hkind, if_false]
  cases t.read (s.before t.kind) with
  | error cause => simp
  | ok reading =>
    simp only [Parse.prepend, Except.ok.injEq, exists_and_left, exists_eq_left']
    cases (readTokens (position + 1) reading.scope rest).outcome with
    | error p => simp [Except.map]
    | ok later => simp [Except.map, eq_comm (a := body)]

/-- At the end token nothing more is read. -/
theorem outcome_of_eof {position : Nat} {s : Scope} {t : Token} {rest : List Token}
    (hkind : t.kind = .eof) :
    (readTokens position s (t :: rest)).outcome = .ok [] := by
  rw [readTokens, if_pos hkind]

/-- A statement is read from one of the tokens, and stands where that token does. -/
theorem exists_token_of_mem_body {position : Nat} {scope : Scope} {tokens : List Token}
    {body : List Statement} {s : Statement}
    (h : (readTokens position scope tokens).outcome = .ok body) (hs : s ∈ body) :
    ∃ t ∈ tokens, t.kind ≠ .eof ∧ s.origin = t.origin ∧
      ∃ entered reading, t.read entered = .ok reading ∧ s.form ∈ reading.forms := by
  induction tokens generalizing position scope body with
  | nil =>
    cases h
    cases hs
  | cons t rest ih =>
    by_cases hkind : t.kind = .eof
    · rw [outcome_of_eof hkind] at h
      cases h
      cases hs
    · obtain ⟨reading, later, hread, hrest, rfl⟩ := (outcome_cons_eq_ok_iff hkind).mp h
      rcases List.mem_append.mp hs with hfirst | hlater
      · obtain ⟨form, hform, rfl⟩ := List.mem_map.mp hfirst
        exact ⟨t, List.mem_cons_self, hkind, rfl, _, reading, hread, hform⟩
      · obtain ⟨t', ht', hstands⟩ := ih hrest hlater
        exact ⟨t', List.mem_cons_of_mem _ ht', hstands⟩

/-- The problem that ends a reading is met with one of the tokens, and stands where it does. -/
theorem exists_token_of_problem {position : Nat} {scope : Scope} {tokens : List Token}
    {p : Problem} (h : (readTokens position scope tokens).outcome = .error p) :
    ∃ t ∈ tokens, t.kind ≠ .eof ∧ p.origin = t.origin ∧
      ∃ entered, t.read entered = .error p.cause := by
  induction tokens generalizing position scope with
  | nil => cases h
  | cons t rest ih =>
    unfold readTokens at h
    split at h
    · cases h
    · next hkind =>
      rcases hread : t.read (scope.before t.kind) with cause | reading
      · simp only [hread] at h
        cases h
        exact ⟨t, List.mem_cons_self, hkind, rfl, _, hread⟩
      · simp only [hread, Parse.prepend] at h
        rcases hrest : (readTokens (position + 1) reading.scope rest).outcome with p' | later
        · rw [hrest] at h
          cases h
          obtain ⟨t', ht', hstands⟩ := ih hrest
          exact ⟨t', List.mem_cons_of_mem _ ht', hstands⟩
        · rw [hrest] at h
          cases h

/-- What a line carries is a part of it. -/
theorem payload_isInfix (line : List Char) : (classify line).2 <:+: line := by
  unfold classify
  split
  · exact (trim_isInfix _).trans (List.dropWhile_suffix _).isInfix
  · exact List.infix_refl _

/-- What a stripped line carries has no blanks at its end. -/
theorem trimEnd_payload (raw : List Char) :
    trimEnd (classify (stripComment raw)).2 = (classify (stripComment raw)).2 := by
  unfold classify
  split
  · exact trimEnd_trimEnd _
  · exact trimEnd_trimEnd _

/-- The tokens of a text carry parts of its lines. -/
theorem isLinePart_of_mem_tokenize {file : String} {text : List Char} {t : Token}
    (h : t ∈ tokenize file text) (hkind : t.kind ≠ .eof) : IsLinePart t.payload.toList := by
  obtain ⟨i, raw, hi, ht⟩ := exists_line_of_mem_tokensFrom h hkind
  have hbreak := notMem_of_mem_lines (List.mem_of_getElem? hi)
  have hpart := (payload_isInfix (stripComment raw)).trans (stripComment_isInfix raw)
  rw [Token.eq_of_ofLine? ht, String.toList_ofList]
  exact ⟨fun hmem => hbreak (hpart.subset hmem), trimEnd_payload raw⟩

end HostConfig
