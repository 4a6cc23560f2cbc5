import HostConfig.Proofs.Document.Source

/-!
# Reading by lines

What a document says depends on the lines of its text, but not on where they stand: a line adds
what it says in the scope that the lines before it leave, and lines that follow each other are read
one part after the other. So texts can be compared by comparing their lines.
-/

namespace HostConfig

open HostConfig.Text

/-- What the statements of a document say. -/
def Document.forms (d : Document) : List Form := d.body.map (·.form)

/-- The groups that a list of forms includes, in order. -/
def groupsIn (forms : List Form) : List String := forms.filterMap Form.group?

/-- The groups of a document are those of what it says. -/
theorem Document.groups_eq (d : Document) : d.groups = groupsIn d.forms := by
  rw [groups, groupsOf, groupsIn, forms, List.filterMap_map]
  rfl

theorem groupsIn_cons_of_none {form : Form} {rest : List Form} (h : form.group? = none) :
    groupsIn (form :: rest) = groupsIn rest := List.filterMap_cons_none h

theorem groupsIn_cons_group (name : String) (rest : List Form) :
    groupsIn (.group name :: rest) = name :: groupsIn rest := rfl

theorem groupsIn_append (xs ys : List Form) :
    groupsIn (xs ++ ys) = groupsIn xs ++ groupsIn ys := List.filterMap_append

/-- One reading and another one that begins in the scope after it. -/
def Reading.followedBy (first later : Reading) : Reading :=
  ⟨first.forms ++ later.forms, later.scope⟩

/-- What a line says in a scope, and the scope after it. -/
def readLine (scope : Scope) (raw : List Char) : Except Cause Reading :=
  match stripComment raw with
  | [] => .ok ⟨[], scope⟩
  | c :: rest =>
    let (kind, payload) := classify (c :: rest)
    Token.read (scope.before kind) ⟨kind, default, String.ofList payload⟩

/-- What lines say from a scope on, and the scope after them. -/
def readLines (scope : Scope) : List (List Char) → Except Cause Reading
  | [] => .ok ⟨[], scope⟩
  | raw :: rest =>
    match readLine scope raw with
    | .error cause => .error cause
    | .ok first => (readLines first.scope rest).map first.followedBy

/-- A line without a token says nothing. -/
theorem readLine_of_ofLine?_eq_none {scope : Scope} {file : String} {number : Nat}
    {raw : List Char} (h : Token.ofLine? file number raw = none) :
    readLine scope raw = .ok ⟨[], scope⟩ := by
  rw [readLine, (Token.ofLine?_eq_none_iff file number raw).mp h]

/-- A line with a token says what the token does. -/
theorem readLine_of_ofLine?_eq_some {scope : Scope} {file : String} {number : Nat}
    {raw : List Char} {t : Token} (h : Token.ofLine? file number raw = some t) :
    readLine scope raw = t.read (scope.before t.kind) := by
  have hsome : Token.ofLine? file number raw ≠ none := by simp [h]
  rw [ne_eq, Token.ofLine?_eq_none_iff] at hsome
  rw [readLine]
  split
  · contradiction
  · next hstrip =>
    rw [Token.eq_of_ofLine? h, hstrip]
    rfl

/-- Lines are acceptable when the first one is, and the others are in the scope after it. -/
theorem readLines_cons_eq_ok {scope : Scope} {raw : List Char} {rest : List (List Char)}
    {reading : Reading} : readLines scope (raw :: rest) = .ok reading ↔
      ∃ first later, readLine scope raw = .ok first ∧ readLines first.scope rest = .ok later ∧
        reading = first.followedBy later := by
  rw [readLines]
  cases readLine scope raw with
  | error cause => simp
  | ok first =>
    cases hrest : readLines first.scope rest with
    | error cause => simp [hrest, Except.map]
    | ok later => simp [hrest, Except.map, eq_comm]

/-- Lines are read one part after the other. -/
theorem readLines_append_eq_ok {scope : Scope} {xs ys : List (List Char)} {reading : Reading} :
    readLines scope (xs ++ ys) = .ok reading ↔
      ∃ first later, readLines scope xs = .ok first ∧ readLines first.scope ys = .ok later ∧
        reading = first.followedBy later := by
  induction xs generalizing scope reading with
  | nil => simp [readLines, Reading.followedBy]
  | cons raw xs ih =>
    simp only [List.cons_append, readLines_cons_eq_ok, ih]
    constructor
    · rintro ⟨first, _, hfirst, ⟨middle, later, hmiddle, hlater, rfl⟩, rfl⟩
      refine ⟨first.followedBy middle, later, ⟨first, middle, hfirst, hmiddle, rfl⟩, hlater, ?_⟩
      simp [Reading.followedBy]
    · rintro ⟨_, later, ⟨first, middle, hfirst, hmiddle, rfl⟩, hlater, rfl⟩
      refine ⟨first, middle.followedBy later, hfirst, ⟨middle, later, hmiddle, hlater, rfl⟩, ?_⟩
      simp [Reading.followedBy]

/-- The tokens of lines are read as the lines are. -/
theorem exists_outcome_iff {position : Nat} {scope : Scope} {file : String} {number : Nat}
    {ls : List (List Char)} {forms : List Form} :
    (∃ body, (readTokens position scope (tokensFrom file number ls)).outcome = .ok body ∧
        body.map (·.form) = forms) ↔
      ∃ scope', readLines scope ls = .ok ⟨forms, scope'⟩ := by
  induction ls generalizing position scope number forms with
  | nil => simp [tokensFrom, readTokens, readLines, eq_comm]
  | cons raw rest ih =>
    simp only [tokensFrom, readLines_cons_eq_ok]
    cases hline : Token.ofLine? file number raw with
    | none =>
      simp only [readLine_of_ofLine?_eq_none hline, Option.toList_none, List.nil_append, ih,
        Reading.followedBy]
      constructor
      · rintro ⟨scope', hrest⟩
        exact ⟨scope', _, _, rfl, hrest, rfl⟩
      · rintro ⟨scope', first, later, hfirst, hrest, heq⟩
        cases hfirst
        cases heq
        exact ⟨_, hrest⟩
    | some t =>
      simp only [readLine_of_ofLine?_eq_some hline, Option.toList_some, List.cons_append,
        List.nil_append, outcome_cons_eq_ok_iff (Token.kind_of_ofLine? hline)]
      constructor
      · rintro ⟨_, ⟨reading, later, hread, hrest, rfl⟩, rfl⟩
        obtain ⟨scope', hlater⟩ := ih.mp ⟨later, hrest, rfl⟩
        refine ⟨scope', reading, _, hread, hlater, ?_⟩
        simp [Reading.followedBy, Function.comp_def]
      · rintro ⟨scope', reading, ⟨forms', scope''⟩, hread, hlater, heq⟩
        cases heq
        obtain ⟨later, hrest, rfl⟩ := ih.mpr ⟨scope'', hlater⟩
        refine ⟨_, ⟨reading, later, hread, hrest, rfl⟩, ?_⟩
        simp [Function.comp_def]

/-- A path holds a document that says something when the lines of its text say that. -/
theorem Site.exists_document_iff {site : Site} {path : Path} {forms : List Form} :
    (∃ document, site.document path = .ok document ∧ document.forms = forms) ↔
      ∃ text scope, site.tree.read path = .ok text ∧
        readLines .top (lines text) = .ok ⟨forms, scope⟩ := by
  constructor
  · rintro ⟨document, hdocument, rfl⟩
    obtain ⟨text, body, hread, rfl, hbody⟩ := site.exists_text_of_document hdocument
    obtain ⟨scope, hlines⟩ := exists_outcome_iff.mp ⟨body, hbody, rfl⟩
    exact ⟨text, scope, hread, hlines⟩
  · rintro ⟨text, scope, hread, hlines⟩
    obtain ⟨body, hbody, rfl⟩ := exists_outcome_iff.mpr ⟨scope, hlines⟩
    refine ⟨⟨path.toString, body⟩, ?_, rfl⟩
    rw [Site.document, hread]
    exact Document.ofText_eq_ok_iff.mpr ⟨rfl, hbody⟩

end HostConfig
