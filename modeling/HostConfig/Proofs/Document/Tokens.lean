import HostConfig.Proofs.Document.LineEnd
import HostConfig.Proofs.Document.WellFormed
import HostConfig.Proofs.Document.Writing

/-!
# The tokens of a text

A text is cut at its line feeds, and each line of which something is left without its comment is one
token: a directive if the first word is a keyword, and plain text otherwise. Numbers count all lines,
also those without a token, so that the tokens of a text behind a line feed are those of the text
alone, with their lines counted on.
-/

namespace HostConfig

open HostConfig.Text HostConfig.Payload

/-- A text is cut at every line feed. A carriage return right before a line feed belongs to neither
of the lines. -/
inductive Text.CutsInto : List Char → List (List Char) → Prop
  | last {line : List Char} (hfeed : '\n' ∉ line) : CutsInto line [line]
  | feed {line rest : List Char} {ls : List (List Char)} (hfeed : '\n' ∉ line)
      (hreturn : line.getLast? ≠ some '\r') (hrest : CutsInto rest ls) :
    CutsInto (line ++ '\n' :: rest) (line :: ls)
  | feedAfterReturn {line rest : List Char} {ls : List (List Char)} (hfeed : '\n' ∉ line)
      (hrest : CutsInto rest ls) : CutsInto (line ++ '\r' :: '\n' :: rest) (line :: ls)

/-- A line begins with a word, and the rest of the line stands behind it. -/
structure Text.BeginsWith (word line rest : List Char) : Prop where
  isWord : IsWord word
  line_eq : line = word ++ rest
  isBlank_head : ∀ c ∈ rest.head?, isBlank c

/-- A token is that of a line with a number. -/
structure Token.IsOfLine (file : String) (number : Nat) (raw : List Char) (t : Token) : Prop where
  origin_eq : t.origin = ⟨file, number, String.ofList raw⟩
  kind_ne_eof : t.kind ≠ .eof
  /-- It is a directive exactly if the stripped line begins with the directive's keyword. -/
  directive_iff : ∀ d : Directive, t.kind = .directive d ↔
    ∃ rest, BeginsWith d.keyword.toList (stripComment raw) rest
  /-- Behind a keyword the rest is carried, trimmed. -/
  payload_of_beginsWith : ∀ (d : Directive) rest,
    BeginsWith d.keyword.toList (stripComment raw) rest → t.payload.toList = trim rest
  /-- A line without a keyword is plain text, and is carried as a whole. -/
  payload_of_text : (∀ d : Directive, t.kind ≠ .directive d) →
    t.kind = .text ∧ t.payload.toList = stripComment raw

/-- The end token, on the line after the last one. -/
def Token.atEnd (file : String) (count : Nat) : Token :=
  ⟨.eof, ⟨file, ((count + 1 : Nat) : Int), ""⟩, ""⟩

/-- A token that many lines further down. -/
def Token.moveDown (count : Nat) (t : Token) : Token :=
  { t with origin := { t.origin with line := t.origin.line + count } }

/-- The lines of which something is left without their comments, with their numbers from one on. -/
def filledLines (ls : List (List Char)) : List (List Char × Nat) :=
  (ls.zipIdx 1).filter fun (raw, _) => stripComment raw ≠ []

/-- The tokens of a text tell all its lines. -/
structure TellsLines (file : String) (text : List Char) : Prop where
  cutsInto_iff : ∀ ls, CutsInto text ls ↔ ls = lines text
  /-- There is one token for each line of which something is left, in order, and then the end. -/
  exists_tokens : ∃ ts, tokenize file text = ts ++ [.atEnd file (lines text).length] ∧
    List.Forall₂ (fun (raw, number) t => t.IsOfLine file number raw) (filledLines (lines text)) ts
  increasing : (tokenize file text).Pairwise fun t u => t.origin.line < u.origin.line
  isLineOf : ∀ t ∈ tokenize file text, t.kind ≠ .eof →
    t.origin.file = file ∧ t.origin.IsLineOf text
  /-- What a token carries is trimmed, stands on one line and is a part of the line. -/
  payload : ∀ t ∈ tokenize file text, trim t.payload.toList = t.payload.toList ∧
    '\n' ∉ t.payload.toList ∧ t.payload.toList <:+: t.origin.raw.toList
  /-- Behind a line feed the tokens of another text follow, that many lines further down. -/
  append : text.getLast? ≠ some '\r' → ∀ more, tokenize file (text ++ '\n' :: more) =
    (tokenize file text).dropLast ++ (tokenize file more).map (.moveDown (lines text).length)

variable {file : String} {number : Nat} {line rest raw : List Char} {ls : List (List Char)}
  {text word : List Char} {t : Token}

/-- A carriage return and a line feed end a line. -/
theorem Text.lines_append_return (hline : '\n' ∉ line) (rest : List Char) :
    lines (line ++ '\r' :: '\n' :: rest) = line :: lines rest := by
  induction line with
  | nil => rfl
  | cons c line ih =>
    rw [List.mem_cons, not_or] at hline
    have hnext : c = '\r' → (line ++ '\r' :: '\n' :: rest).head? ≠ some '\n' := by
      rintro - hhead
      cases line with
      | nil => cases hhead
      | cons d line => exact hline.2 (List.mem_cons.mpr (Or.inl (Option.some.inj hhead).symm))
    rw [List.cons_append, lines_cons (Ne.symm hline.1) hnext, ih hline.2]
    rfl

/-- What a text is cut into are its lines. -/
theorem Text.CutsInto.eq_lines (h : CutsInto text ls) : ls = lines text := by
  induction h with
  | last hfeed => exact (lines_of_notMem hfeed).symm
  | feed hfeed hreturn _ ih => rw [lines_append_feed hreturn, lines_of_notMem hfeed, ih]; rfl
  | feedAfterReturn hfeed _ ih => rw [lines_append_return hfeed, ih]

/-- Every text can be cut. -/
theorem Text.exists_cutsInto (text : List Char) : ∃ ls, CutsInto text ls := by
  induction hlength : text.length using Nat.strongRecOn generalizing text with
  | ind n ih =>
    by_cases hfeed : '\n' ∈ text
    · obtain ⟨line, rest, rfl, hline⟩ := List.eq_append_cons_of_mem hfeed
      obtain ⟨ls, hls⟩ := ih rest.length (by simp at hlength; omega) rest rfl
      by_cases hreturn : line.getLast? = some '\r'
      · obtain ⟨front, rfl⟩ := List.getLast?_eq_some_iff.mp hreturn
        have hfront : '\n' ∉ front := fun hmem => hline (List.mem_append_left _ hmem)
        rw [List.append_assoc]
        exact ⟨front :: ls, .feedAfterReturn hfront hls⟩
      · exact ⟨line :: ls, .feed hline hreturn hls⟩
    · exact ⟨[text], .last hfeed⟩

/-- A text is cut into its lines, and into no others. -/
theorem Text.cutsInto_iff : CutsInto text ls ↔ ls = lines text := by
  constructor
  · exact CutsInto.eq_lines
  · rintro rfl
    obtain ⟨ls, hls⟩ := exists_cutsInto text
    rwa [hls.eq_lines] at hls

/-- A line begins with its first word, if that is not empty, and with no other one. -/
theorem Text.beginsWith_iff :
    BeginsWith word line rest ↔ word ≠ [] ∧ firstWord line = word ∧ afterWord line = rest := by
  constructor
  · rintro ⟨⟨hne, hink⟩, rfl, hblank⟩
    have hend : firstWord rest = [] ∧ afterWord rest = rest := by
      cases rest with
      | nil => exact ⟨rfl, rfl⟩
      | cons c rest =>
        have hc : isInk c = false := by simp [isInk, hblank c rfl]
        simp [firstWord, afterWord, hc]
    refine ⟨hne, ?_, ?_⟩
    · exact (List.takeWhile_append_of_pos hink).trans (by
        rw [← firstWord, hend.1, List.append_nil])
    · exact (List.dropWhile_append_of_pos hink).trans hend.2
  · rintro ⟨hne, rfl, rfl⟩
    refine ⟨⟨hne, fun c => isInk_of_mem_firstWord⟩, (firstWord_append_afterWord line).symm, ?_⟩
    intro c hc
    have hhead := List.head?_dropWhile_not isInk line
    rw [← afterWord, hc] at hhead
    simpa [isInk] using hhead

/-- A line is classified as a directive exactly if it begins with the directive's keyword. -/
theorem classify_eq_directive_iff {d : Directive} :
    (classify line).1 = .directive d ↔ ∃ rest, BeginsWith d.keyword.toList line rest := by
  have hkeyword : Directive.ofKeyword? (firstWord line) = some d ↔
      ∃ rest, BeginsWith d.keyword.toList line rest := by
    simp only [beginsWith_iff, exists_and_left, exists_eq', and_true,
      Directive.ofKeyword?_eq_some_iff]
    exact ⟨fun h => ⟨(Directive.isWord_keyword d).1, h⟩, fun h => h.2⟩
  rw [← hkeyword, classify]
  cases Directive.ofKeyword? (firstWord line) <;> simp

/-- The token of a line has the kind and the payload that the line tells. -/
theorem Token.isOfLine_of_ofLine? (h : Token.ofLine? file number raw = some t) :
    t.IsOfLine file number raw where
  origin_eq := origin_of_ofLine? h
  kind_ne_eof := kind_of_ofLine? h
  directive_iff d := by
    rw [eq_of_ofLine? h]
    exact classify_eq_directive_iff
  payload_of_beginsWith d rest hbegins := by
    obtain ⟨-, hword, hrest⟩ := beginsWith_iff.mp hbegins
    rw [eq_of_ofLine? h, classify, hword, Directive.ofKeyword?_keyword, hrest,
      String.toList_ofList]
  payload_of_text hkind := by
    rw [eq_of_ofLine? h] at hkind ⊢
    have htext : (classify (stripComment raw)).1 = .text := by
      unfold classify at hkind ⊢
      split
      · next d hd => exact absurd (by rw [hd]) (hkind d)
      · rfl
    exact ⟨htext, by rw [HostConfig.payload_of_text htext, String.toList_ofList]⟩

/-- There is one token for each line of which something is left, and then the end. -/
theorem exists_tokensFrom (file : String) (number : Nat) (ls : List (List Char)) :
    ∃ ts, tokensFrom file (number + 1) ls = ts ++ [.atEnd file (number + ls.length)] ∧
      List.Forall₂ (fun (raw, n) t => t.IsOfLine file n raw)
        ((ls.zipIdx (number + 1)).filter fun (raw, _) => stripComment raw ≠ []) ts := by
  induction ls generalizing number with
  | nil => exact ⟨[], rfl, .nil⟩
  | cons raw ls ih =>
    obtain ⟨ts, hts, hof⟩ := ih (number + 1)
    have hcount : number + 1 + ls.length = number + (raw :: ls).length := by
      rw [List.length_cons]
      omega
    rw [tokensFrom, hts, hcount, List.zipIdx_cons]
    cases hline : Token.ofLine? file (number + 1) raw with
    | none =>
      have hstrip := (Token.ofLine?_eq_none_iff _ _ _).mp hline
      exact ⟨ts, rfl, by rwa [List.filter_cons_of_neg (by simp [hstrip])]⟩
    | some t =>
      have hstrip : stripComment raw ≠ [] := by
        rw [ne_eq, ← Token.ofLine?_eq_none_iff file (number + 1), hline]
        exact Option.some_ne_none t
      refine ⟨t :: ts, rfl, ?_⟩
      rw [List.filter_cons_of_pos (by simp [hstrip])]
      exact .cons (Token.isOfLine_of_ofLine? hline) hof

/-- Tokens stand on lines from the first number on. -/
theorem le_line_of_mem_tokensFrom (h : t ∈ tokensFrom file number ls) :
    (number : Int) ≤ t.origin.line := by
  induction ls generalizing number with
  | nil => exact Int.le_of_eq (congrArg (·.origin.line) (List.mem_singleton.mp h)).symm
  | cons raw ls ih =>
    rcases List.mem_append.mp h with hfirst | hrest
    · have horigin := Token.origin_of_ofLine? (Option.mem_toList.mp hfirst)
      exact Int.le_of_eq (congrArg Origin.line horigin).symm
    · have hle := ih hrest
      push_cast at hle
      omega

/-- The tokens of lines stand on lines further and further down. -/
theorem pairwise_tokensFrom (file : String) (number : Nat) (ls : List (List Char)) :
    (tokensFrom file number ls).Pairwise fun t u => t.origin.line < u.origin.line := by
  induction ls generalizing number with
  | nil => exact List.pairwise_singleton _ _
  | cons raw ls ih =>
    refine List.pairwise_append.mpr ⟨?_, ih (number + 1), fun t ht u hu => ?_⟩
    · cases Token.ofLine? file number raw with
      | none => exact .nil
      | some t => exact List.pairwise_singleton _ _
    · have hline := congrArg Origin.line (Token.origin_of_ofLine? (Option.mem_toList.mp ht))
      have hle := le_line_of_mem_tokensFrom hu
      simp only at hline
      push_cast at hle
      omega

/-- Lines that are counted from further on have their tokens further down. -/
theorem tokensFrom_add (file : String) (number count : Nat) (ls : List (List Char)) :
    tokensFrom file (number + count) ls =
      (tokensFrom file number ls).map (.moveDown count) := by
  induction ls generalizing number with
  | nil => simp [tokensFrom, Token.moveDown]
  | cons raw ls ih =>
    have hfirst : (Token.ofLine? file (number + count) raw).toList =
        (Token.ofLine? file number raw).toList.map (.moveDown count) := by
      rw [Token.ofLine?, Token.ofLine?]
      split
      · rfl
      · simp [Token.moveDown]
    rw [tokensFrom, tokensFrom, List.map_append, hfirst, ← ih, Nat.add_right_comm]

/-- The tokens of lines and more lines are those of the first lines without the end, and those of
the other ones. -/
theorem tokensFrom_append (file : String) (number : Nat) (xs ys : List (List Char)) :
    tokensFrom file number (xs ++ ys) =
      (tokensFrom file number xs).dropLast ++ tokensFrom file (number + xs.length) ys := by
  induction xs generalizing number with
  | nil => rfl
  | cons raw xs ih =>
    have hne : tokensFrom file (number + 1) xs ≠ [] := by
      intro hnil
      have hlast := getLast?_tokensFrom file (number + 1) xs
      rw [hnil] at hlast
      cases hlast
    have hcount : number + 1 + xs.length = number + (raw :: xs).length := by
      rw [List.length_cons]
      omega
    rw [List.cons_append, tokensFrom, ih, tokensFrom, List.dropLast_append_of_ne_nil hne,
      List.append_assoc, hcount]

/-- The end token carries nothing. -/
theorem payload_of_kind_eq_eof (h : t ∈ tokensFrom file number ls) (hkind : t.kind = .eof) :
    t.payload = "" := by
  induction ls generalizing number with
  | nil => exact congrArg Token.payload (List.mem_singleton.mp h)
  | cons raw ls ih =>
    rcases List.mem_append.mp h with hfirst | hrest
    · exact absurd hkind (Token.kind_of_ofLine? (Option.mem_toList.mp hfirst))
    · exact ih hrest

/-- What a token of a text carries is trimmed, stands on one line and is a part of the line. -/
theorem payload_of_mem_tokenize (h : t ∈ tokenize file text) :
    trim t.payload.toList = t.payload.toList ∧ '\n' ∉ t.payload.toList ∧
      t.payload.toList <:+: t.origin.raw.toList := by
  by_cases hkind : t.kind = .eof
  · rw [payload_of_kind_eq_eof h hkind]
    exact ⟨rfl, List.not_mem_nil, List.nil_infix⟩
  · have hpart := isLinePart_of_mem_tokenize h hkind
    obtain ⟨i, raw, hi, ht⟩ := exists_line_of_mem_tokensFrom h hkind
    have hwithin := (payload_isInfix (stripComment raw)).trans (stripComment_isInfix raw)
    refine ⟨?_, hpart.notMem, ?_⟩ <;> rw [Token.eq_of_ofLine? ht]
    · rw [String.toList_ofList]
      exact trim_payload raw
    · rw [String.toList_ofList, String.toList_ofList]
      exact hwithin

/-- The tokens of every text tell all its lines. -/
theorem tokenize_tellsLines (file : String) (text : List Char) : TellsLines file text where
  cutsInto_iff _ := Text.cutsInto_iff
  exists_tokens := by
    obtain ⟨ts, htokens, hof⟩ := exists_tokensFrom file 0 (lines text)
    simp only [Nat.zero_add] at htokens
    exact ⟨ts, htokens, hof⟩
  increasing := pairwise_tokensFrom file 1 (lines text)
  isLineOf _ := isLineOf_of_mem_tokenize
  payload _ := payload_of_mem_tokenize
  append hreturn more := by
    rw [tokenize, tokenize, tokenize, lines_append_feed hreturn, tokensFrom_append, tokensFrom_add]

end HostConfig
