import HostConfig.Proofs.Document.Language
import HostConfig.Proofs.Document.Place

/-!
# The texts that form a document

A text forms a document exactly when each of its tokens is acceptable after the tokens before it, and
then the document spells what the tokens say, one after the other. The scope that is kept while
reading is the invariant: it is what the tokens read so far tell.
-/

namespace HostConfig

open HostConfig.Text

/-- A body is what tokens say one after the other, given the tokens before them. -/
inductive Spells : List Token → List Token → List Statement → Prop
  | nil {before : List Token} : Spells before [] []
  | cons {before rest : List Token} {t : Token} {forms : List Form} {body : List Statement}
      (hsaid : t.Says before forms) (hrest : Spells (before ++ [t]) rest body) :
    Spells before (t :: rest) (forms.map (⟨t.origin, ·⟩) ++ body)

/-- Something holds of each item of a list and the items before it, if it holds of the first one and
then of the others. -/
theorem forall_split_cons {α : Type} {P : List α → α → Prop} {a : α} {rest : List α} :
    (∀ before b after, a :: rest = before ++ b :: after → P before b) ↔
      P [] a ∧ ∀ before b after, rest = before ++ b :: after → P (a :: before) b := by
  constructor
  · intro h
    exact ⟨h [] a rest rfl, fun before b after heq => h (a :: before) b after (by rw [heq]; rfl)⟩
  · rintro ⟨hfirst, hrest⟩ before b after heq
    cases before with
    | nil =>
      obtain ⟨rfl, -⟩ := List.cons.inj heq
      exact hfirst
    | cons c before =>
      obtain ⟨rfl, hbehind⟩ := List.cons.inj heq
      exact hrest before b after hbehind

/-- The end token stands behind all others. -/
theorem exists_tokensFrom_eq (file : String) (number : Nat) (ls : List (List Char)) :
    ∃ tokens last, tokensFrom file number ls = tokens ++ [last] ∧ last.kind = .eof ∧
      ∀ t ∈ tokens, t.kind ≠ .eof := by
  induction ls generalizing number with
  | nil => exact ⟨[], _, rfl, rfl, by simp⟩
  | cons raw rest ih =>
    obtain ⟨tokens, last, htokens, hlast, hkinds⟩ := ih (number + 1)
    refine ⟨(Token.ofLine? file number raw).toList ++ tokens, last, ?_, hlast, fun t ht => ?_⟩
    · rw [tokensFrom, htokens, List.append_assoc]
    · rcases List.mem_append.mp ht with hfirst | hlater
      · exact Token.kind_of_ofLine? (Option.mem_toList.mp hfirst)
      · exact hkinds t hlater

variable {position : Nat} {s : Scope} {before tokens rest : List Token} {t last : Token}
  {body : List Statement}

/-- Reading tokens that a body is spelled by, in the scope that the tokens before them tell. -/
theorem outcome_eq_ok_iff_spells (hfits : s.Fits before) (hlast : last.kind = .eof)
    (htokens : ∀ t ∈ tokens, t.kind ≠ .eof ∧ IsLinePart t.payload.toList) :
    (readTokens position s (tokens ++ [last])).outcome = .ok body ↔
      Spells before (tokens ++ [last]) body := by
  induction tokens generalizing position s before body with
  | nil =>
    have hsaid : last.Says before [] := by simp [Token.Says, hlast]
    rw [List.nil_append, outcome_of_eof hlast, Except.ok.injEq]
    constructor
    · rintro rfl
      exact .cons hsaid .nil
    · intro hspells
      cases hspells with
      | cons hforms hrest =>
        cases hrest
        simp only [Token.Says, hlast] at hforms
        rw [hforms]
        rfl
  | cons t rest ih =>
    obtain ⟨⟨hkind, hpayload⟩, hrest⟩ := List.forall_mem_cons.mp htokens
    rw [List.cons_append, outcome_cons_eq_ok_iff hkind]
    constructor
    · rintro ⟨reading, later, hread, hlater, rfl⟩
      have hsaid := (Token.exists_read_iff hfits hpayload).mp ⟨reading.scope, hread⟩
      exact .cons hsaid ((ih (hfits.read hkind hread) hrest).mp hlater)
    · intro hspells
      cases hspells with
      | @cons _ _ _ forms later hsaid hlater =>
        obtain ⟨scope, hread⟩ := (Token.exists_read_iff hfits hpayload).mpr hsaid
        exact ⟨_, later, hread, (ih (hfits.read hkind hread) hrest).mpr hlater, rfl⟩

/-- Tokens are read, in the scope that the tokens before them tell, exactly when each of them is
acceptable. -/
theorem exists_outcome_iff_acceptable (hfits : s.Fits before) (hlast : last.kind = .eof)
    (htokens : ∀ t ∈ tokens, t.kind ≠ .eof ∧ IsLinePart t.payload.toList) :
    (∃ body, (readTokens position s (tokens ++ [last])).outcome = .ok body) ↔
      ∀ between t after, tokens ++ [last] = between ++ t :: after → t.kind ≠ .eof →
        t.AcceptableAfter (before ++ between) := by
  induction tokens generalizing position s before with
  | nil =>
    rw [List.nil_append, outcome_of_eof hlast, forall_split_cons]
    refine iff_of_true ⟨[], rfl⟩ ⟨fun hkind => absurd hlast hkind, fun between t after heq => ?_⟩
    simp at heq
  | cons t rest ih =>
    obtain ⟨⟨hkind, hpayload⟩, hrest⟩ := List.forall_mem_cons.mp htokens
    have hmove : (∀ between u after, rest ++ [last] = between ++ u :: after → u.kind ≠ .eof →
          u.AcceptableAfter (before ++ t :: between)) ↔
        ∀ between u after, rest ++ [last] = between ++ u :: after → u.kind ≠ .eof →
          u.AcceptableAfter (before ++ [t] ++ between) := by
      simp
    rw [List.cons_append, forall_split_cons, List.append_nil, hmove]
    simp only [outcome_cons_eq_ok_iff hkind]
    constructor
    · rintro ⟨body, reading, later, hread, hlater, rfl⟩
      have hsaid := (Token.exists_read_iff hfits hpayload).mp ⟨reading.scope, hread⟩
      refine ⟨fun _ => (Token.acceptableAfter_iff hfits hpayload).mpr ⟨_, hsaid⟩, ?_⟩
      exact (ih (hfits.read hkind hread) hrest).mp ⟨later, hlater⟩
    · rintro ⟨hfirst, hothers⟩
      obtain ⟨forms, hsaid⟩ := (Token.acceptableAfter_iff hfits hpayload).mp (hfirst hkind)
      obtain ⟨scope, hread⟩ := (Token.exists_read_iff hfits hpayload).mpr hsaid
      obtain ⟨later, hlater⟩ := (ih (hfits.read hkind hread) hrest).mpr hothers
      exact ⟨_, _, later, hread, hlater, rfl⟩

/-- The tokens of a text are those of its lines, and the end token behind them. -/
theorem exists_tokenize_eq (file : String) (text : List Char) :
    ∃ tokens last, tokenize file text = tokens ++ [last] ∧ last.kind = .eof ∧
      ∀ t ∈ tokens, t.kind ≠ .eof ∧ IsLinePart t.payload.toList := by
  obtain ⟨tokens, last, htokens, hlast, hkinds⟩ := exists_tokensFrom_eq file 1 (lines text)
  refine ⟨tokens, last, htokens, hlast, fun t ht => ⟨hkinds t ht, ?_⟩⟩
  have hmem : t ∈ tokenize file text := by
    rw [tokenize, htokens]
    exact List.mem_append_left _ ht
  exact isLinePart_of_mem_tokenize hmem (hkinds t ht)

/-- A text forms the document whose body its tokens spell. -/
theorem Document.ofText_eq_ok_iff_spells {file : String} {text : List Char} {document : Document} :
    Document.ofText file text = .ok document ↔
      document.file = file ∧ Spells [] (tokenize file text) document.body := by
  obtain ⟨tokens, last, htext, hlast, hparts⟩ := exists_tokenize_eq file text
  rw [ofText_eq_ok_iff, htext, outcome_eq_ok_iff_spells Scope.fits_nil hlast hparts]

/-- A text forms a document exactly when each of its tokens before the end is acceptable after the
tokens before it, and the document is then the body that the tokens spell, in their order. -/
theorem Document.ofText_accepts (file : String) (text : List Char) :
    ((∃ document, Document.ofText file text = .ok document) ↔
      ∀ before t after, tokenize file text = before ++ t :: after → t.kind ≠ .eof →
        t.AcceptableAfter before) ∧
    ∀ document, Document.ofText file text = .ok document ↔
      document.file = file ∧ Spells [] (tokenize file text) document.body := by
  refine ⟨?_, fun document => Document.ofText_eq_ok_iff_spells⟩
  obtain ⟨tokens, last, htext, hlast, hparts⟩ := exists_tokenize_eq file text
  rw [htext]
  simp only [Document.ofText_eq_ok_iff, htext]
  have haccept : (∃ body, (readTokens 0 .top (tokens ++ [last])).outcome = .ok body) ↔ _ :=
    exists_outcome_iff_acceptable Scope.fits_nil hlast hparts
  simp only [List.nil_append] at haccept
  rw [← haccept]
  constructor
  · rintro ⟨document, -, hbody⟩
    exact ⟨document.body, hbody⟩
  · rintro ⟨body, hbody⟩
    exact ⟨⟨file, body⟩, rfl, hbody⟩

end HostConfig
