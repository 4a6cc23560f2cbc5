import HostConfig.Proofs.Document.Clause
import HostConfig.Proofs.Document.GroupLine
import HostConfig.Proofs.Document.LineEnd

/-!
# Writing documents

Reading the text that clauses are written as gives their statements back, each on its line, if
nothing in the text is taken for a comment. Each line is read as what it says, and the scope that is
kept while reading has the same current package as the clauses have.
-/

namespace HostConfig

open HostConfig.Text HostConfig.Payload

variable {scope : Scope} {line payload : List Char} {d : Directive}

theorem IsBareLine.isLinePart (h : IsBareLine line) : IsLinePart line := by
  obtain ⟨hbreak, hstrip⟩ := h
  rw [← hstrip]
  exact isLinePart_trim fun hmem => hbreak ((beforeComment_isPrefix _ _).subset hmem)

/-- A bare line does not end with a carriage return. -/
theorem IsBareLine.getLast?_ne (h : IsBareLine line) : line.getLast? ≠ some '\r' := by
  intro hlast
  have hne : line ≠ [] := by
    rintro rfl
    cases hlast
  have hend := trimEnd_eq_self_iff.mp h.isLinePart.trimEnd_eq hne
  rw [List.getLast?_eq_some_getLast hne] at hlast
  rw [Option.some.inj hlast] at hend
  exact hend (by decide)

/-- A keyword is a word. -/
theorem Directive.isWord_keyword (d : Directive) : IsWord d.keyword.toList := by
  rcases d with _ | _ | _ | _ | _ | (_ | _ | _ | _ | _) <;> decide

/-- A keyword begins with a sigil. -/
theorem Directive.not_isPlain_keyword (d : Directive) (rest : List Char) :
    ¬ IsPlain (d.keyword.toList ++ rest) := by
  rw [isPlain_iff]
  rcases d with _ | _ | _ | _ | _ | (_ | _ | _ | _ | _) <;>
    simp [isSigil, keyword, PackageDirective.keyword]

/-- A line is read as it is classified. -/
theorem readLine_of_classify (hline : IsBareLine line) (hne : line ≠ []) {kind : TokenKind}
    (hclassify : classify line = (kind, payload)) :
    readLine scope line =
      Token.read (scope.before kind) ⟨kind, default, String.ofList payload⟩ := by
  obtain ⟨c, rest, rfl⟩ := List.exists_cons_of_ne_nil hne
  rw [readLine, hline.2]
  simp only [hclassify]

/-- A plain line is read as its text. -/
theorem readLine_of_isPlain (hline : IsBareLine line) (hne : line ≠ []) (hplain : IsPlain line) :
    readLine scope line = readText scope (String.ofList line) := by
  have hkeyword : Directive.ofKeyword? (firstWord line) = none := by
    rw [Option.eq_none_iff_forall_ne_some]
    intro d hd
    rw [Directive.ofKeyword?_eq_some_iff] at hd
    have hsplit := firstWord_append_afterWord line
    rw [hd] at hsplit
    exact d.not_isPlain_keyword (afterWord line) (by rwa [hsplit])
  have hclassify : classify line = (.text, line) := by rw [classify, hkeyword]
  exact readLine_of_classify hline hne hclassify

/-- The line of a directive is read as the directive with its payload. -/
theorem readLine_directiveLine (hline : IsBareLine (directiveLine d payload))
    (hstart : trimStart payload = payload) :
    readLine scope (directiveLine d payload) =
      readDirective (scope.before (.directive d)) d (String.ofList payload) := by
  have hkeyword := d.isWord_keyword
  have hword : firstWord (directiveLine d payload) = d.keyword.toList := by
    rw [firstWord, directiveLine, List.takeWhile_append_of_pos hkeyword.2,
      List.takeWhile_cons_of_neg (by decide), List.append_nil]
  have hbehind : afterWord (directiveLine d payload) = ' ' :: payload := by
    rw [afterWord, directiveLine, List.dropWhile_append_of_pos hkeyword.2,
      List.dropWhile_cons_of_neg (by decide)]
  have hpayload : IsLinePart (' ' :: payload) :=
    hline.isLinePart.of_isSuffix (List.suffix_append _ _)
  have htrim : trim (' ' :: payload) = payload := hpayload.trim_eq.trans hstart
  have hclassify : classify (directiveLine d payload) = (.directive d, payload) := by
    rw [classify, hword, Directive.ofKeyword?_keyword, hbehind, htrim]
  exact readLine_of_classify hline (by simp [directiveLine]) hclassify

/-- The payload of a directive's line is a part of it. -/
theorem IsBareLine.isLinePart_payload (h : IsBareLine (directiveLine d payload)) :
    IsLinePart payload :=
  h.isLinePart.of_isSuffix ⟨d.keyword.toList ++ [' '], by simp [directiveLine]⟩

/-- The name of a service is a word. -/
theorem isWord_of_isServiceChar {name : List Char} (hne : name ≠ [])
    (hname : ∀ c ∈ name, isServiceChar c) : IsWord name := by
  refine ⟨hne, fun c hc => ?_⟩
  have hchar := hname c hc
  simp only [isServiceChar, Bool.and_eq_true] at hchar
  exact hchar.1.1

namespace PackageClause

variable {c : PackageClause} {package : String}

/-- What is written behind the keyword has no blanks at its start. -/
theorem trimStart_payload (h : c.Valid) : trimStart c.payload = c.payload := by
  cases c with
  | config source destination => exact h.1.isTrimmed.trimStart_append _
  | env key value => exact h.1.isTrimmed.trimStart_append _
  | service name props => exact (isWord_of_isServiceChar h.1.1 h.1.2).isTrimmed.trimStart_append _
  | script text legacy => exact h.trimStart_eq

/-- Properties that are written between brackets are set. -/
theorem setsProperties_propsText {props : List (String × String)} (hne : props ≠ [])
    (h : ∀ p ∈ props, IsProperty p.1.toList p.2.toList) :
    SetsProperties (propsText props) (propsOf props) := by
  have hpairs : ∀ pair ∈ props.map (fun p => (p.1.toList, p.2.toList)),
      IsProperty pair.1 pair.2 := List.forall_mem_map.mpr h
  have hset := setsProperties_commaList (by simpa using hne) hpairs
  rwa [List.map_map] at hset

theorem propsText_ne_nil {props : List (String × String)} (hne : props ≠ [])
    (h : ∀ p ∈ props, IsProperty p.1.toList p.2.toList) : propsText props ≠ [] := by
  have hlist : ∀ part ∈ props.map (fun p => p.1.toList ++ '=' :: p.2.toList), IsListPart part :=
    List.forall_mem_map.mpr fun p hp => (h p hp).isListPart
  have hparts := propertyParts_commaList (by simpa using hne) hlist
  have hnone : propertyParts [] = [] := rfl
  intro hnil
  rw [← propsText, hnil, hnone] at hparts
  exact hne (List.map_eq_nil_iff.mp hparts.symm)

/-- What is written behind the keyword of a service is its head. -/
theorem isServiceHead_payload {name : String} {props : List (String × String)}
    (h : (service name props).Valid) :
    IsServiceHead (service name props).payload name.toList
      (if props = [] then none else some (propsText props)) := by
  obtain ⟨⟨hne, hname⟩, hprops⟩ := h
  refine ⟨hne, hname, ?_⟩
  by_cases hnone : props = []
  · simp [payload, bracketedProps, hnone]
  · simp only [hnone, if_false, payload, bracketedProps]
    have hgap : ∀ c ∈ [' '], isBlank c := List.forall_mem_singleton.mpr (by decide)
    exact ⟨propsText_ne_nil hnone hprops, [' '], hgap, rfl⟩

/-- The directive of a clause says what the clause does. -/
theorem form_isSaid (h : c.Valid) (package : String) :
    c.directive.Says package (String.ofList c.payload) (c.form package) := by
  cases c with
  | config source destination =>
    refine ⟨source.toList, destination.toList, ?_, by simp only [form, String.ofList_toList]⟩
    rw [String.toList_ofList]
    exact maps_spacedPair h.1 h.2
  | env key value =>
    refine ⟨key.toList, value.toList, ?_, by simp only [form, String.ofList_toList]⟩
    rw [String.toList_ofList]
    exact assigns_spacedPair h.1 h.2
  | service name props =>
    have hhead := isServiceHead_payload h
    refine ⟨_, _, propsOf props, by rwa [String.toList_ofList], ?_,
      by rw [form, String.ofList_toList]⟩
    by_cases hnone : props = []
    · rw [if_pos hnone, hnone]
      exact setsProperties_iff.mpr ⟨[], .nil, Properties.isSetBy_iff.mpr rfl⟩
    · rw [if_neg hnone]
      exact setsProperties_propsText hnone h.2
  | script text legacy =>
    have hne : String.ofList text.toList ≠ "" := by
      rw [String.ofList_toList]
      rintro rfl
      exact h.1 rfl
    cases legacy <;> exact ⟨hne, by rw [form, payload, String.ofList_toList]⟩

end PackageClause

/-- The package that is current in a scope. -/
def Scope.package? : Scope → Option String
  | .package name => some name
  | .top | .listing => none

/-- What is current stays so when a list of packages ends. -/
theorem Scope.package?_before (scope : Scope) (kind : TokenKind) :
    (scope.before kind).package? = scope.package? := by
  rcases kind with (_ | _ | _ | _ | _ | _) | _ | _ <;> cases scope <;> rfl

/-- Lines are read as what they say, from one scope to another. -/
inductive ReadAs : Scope → List WrittenLine → Scope → Prop
  | nil {scope : Scope} : ReadAs scope [] scope
  | cons {scope middle last : Scope} {line : WrittenLine} {rest : List WrittenLine}
      (hline : readLine scope line.1 = .ok ⟨line.2, middle⟩) (hrest : ReadAs middle rest last) :
    ReadAs scope (line :: rest) last

namespace ReadAs

variable {middle last : Scope} {xs ys : List WrittenLine}

theorem append (h : ReadAs scope xs middle) (h' : ReadAs middle ys last) :
    ReadAs scope (xs ++ ys) last := by
  induction h with
  | nil => exact h'
  | cons hline _ ih => exact .cons hline (ih h')

/-- The tokens of lines are read as the statements on these lines. -/
theorem outcome_eq (h : ReadAs scope xs last) (position number : Nat) (file : String) :
    (readTokens position scope (tokensFrom file number (xs.map (·.1)))).outcome =
      .ok (statementsFrom file number xs) := by
  induction h generalizing position number with
  | nil => rfl
  | @cons scope middle last line rest hline _ ih =>
    rw [List.map_cons, tokensFrom, statementsFrom]
    cases htoken : Token.ofLine? file number line.1 with
    | none =>
      have hnothing := (readLine_of_ofLine?_eq_none htoken).symm.trans hline
      obtain ⟨hforms, rfl⟩ := Reading.mk.inj (Except.ok.inj hnothing)
      rw [← hforms]
      exact ih position (number + 1)
    | some t =>
      rw [readLine_of_ofLine?_eq_some htoken] at hline
      have horigin := Token.origin_of_ofLine? htoken
      refine (outcome_cons_eq_ok_iff (Token.kind_of_ofLine? htoken)).mpr ?_
      exact ⟨_, _, hline, ih (position + 1) (number + 1), by rw [horigin]⟩

end ReadAs

/-- The items of a list are read in the scope of the list. -/
theorem readAs_items {items : List String}
    (hvalid : ∀ item ∈ items, IsTrimmed item.toList ∧ IsPlain item.toList)
    (hbare : ∀ item ∈ items, IsBareLine item.toList) :
    ReadAs .listing (items.map fun item => (item.toList, [.item item])) .listing := by
  induction items with
  | nil => exact .nil
  | cons item rest ih =>
    obtain ⟨⟨htrimmed, hitem⟩, hothers⟩ := List.forall_mem_cons.mp hvalid
    obtain ⟨hline, hlines⟩ := List.forall_mem_cons.mp hbare
    refine .cons ?_ (ih hothers hlines)
    rw [readLine_of_isPlain hline htrimmed.1 hitem, readText_eq_ok_iff]
    exact ⟨by rwa [String.toList_ofList], rfl, by rw [String.ofList_toList]⟩

/-- The line of a directive is read as what the directive with its payload says. -/
theorem readAs_directiveLine {last : Scope} {forms : List Form}
    (hline : IsBareLine (directiveLine d payload)) (hstart : trimStart payload = payload)
    (hread : readDirective (scope.before (.directive d)) d (String.ofList payload) =
      .ok ⟨forms, last⟩) :
    ReadAs scope [(directiveLine d payload, forms)] last :=
  .cons ((readLine_directiveLine hline hstart).trans hread) .nil

/-- A clause is read as what it says, and leaves the package current that it makes so. -/
theorem Clause.exists_readAs {c : Clause} {package : Option String} (hvalid : c.Valid)
    (hplaced : c.Placed package) (hscope : scope.package? = package)
    (hbare : ∀ line ∈ c.written (package.getD ""), IsBareLine line.1) :
    ∃ scope', ReadAs scope (c.written (package.getD "")) scope' ∧
      scope'.package? = c.current package := by
  cases c with
  | packages items =>
    obtain ⟨hline, hlines⟩ := List.forall_mem_cons.mp hbare
    have hclassify : classify Directive.packages.keyword.toList = (.directive .packages, []) := by
      decide
    have hkeyword : readLine scope _ = _ := readLine_of_classify hline (by decide) hclassify
    refine ⟨.listing, .cons hkeyword (readAs_items hvalid fun item hitem => ?_), rfl⟩
    exact hlines _ (List.mem_map_of_mem hitem)
  | package names =>
    obtain ⟨hne, hnames⟩ := hvalid
    have hparts : ∀ part ∈ names.map String.toList, IsListPart part :=
      List.forall_mem_map.mpr hnames
    have hback : packageNames (commaList (names.map String.toList)) = names := by
      rw [packageNames_commaList (by simpa using hne) hparts]
      simp
    have hlast := List.getLast?_eq_some_getLast hne
    have hread : readPackage (String.ofList (commaList (names.map String.toList))) =
        .ok ⟨names.map .package, .package (names.getLast hne)⟩ := by
      simp only [readPackage, String.toList_ofList, hback, hlast]
    exact ⟨_, readAs_directiveLine (hbare _ List.mem_cons_self) (trimStart_commaList hparts) hread,
      hlast.symm⟩
  | group name =>
    have hline := hbare _ List.mem_cons_self
    have hstart : trimStart name.toList = name.toList := trimStart_of_forall fun c hc => by
      have hchar := plain_of_mem_groupName hvalid hline.isLinePart_payload.notMem hc
      simp [isInk, hchar.1]
    have hread : readGroup (scope.before (.directive .group)) (String.ofList name.toList) =
        .ok ⟨[.group name], scope.before (.directive .group)⟩ := by
      rw [String.ofList_toList, readGroup_eq_ok_iff]
      exact ⟨hvalid, rfl⟩
    exact ⟨_, readAs_directiveLine hline hstart hread, (scope.package?_before _).trans hscope⟩
  | env key value =>
    have hline := hbare _ List.mem_cons_self
    have hassign := (assignment?_eq_some_iff hline.isLinePart_payload).mpr
      (assigns_spacedPair hvalid.1 hvalid.2)
    have hread : readDirective (scope.before (.directive .env)) .env
        (String.ofList (spacedPair ['='] key.toList value.toList)) =
          .ok ⟨[.env key value], scope.before (.directive .env)⟩ := by
      simp only [readDirective, String.toList_ofList, hassign, String.ofList_toList]
    exact ⟨_, readAs_directiveLine hline (hvalid.1.isTrimmed.trimStart_append _) hread,
      (scope.package?_before _).trans hscope⟩
  | script text =>
    have hne : (String.ofList text.toList).isEmpty = false := by
      rw [String.ofList_toList, ← Bool.not_eq_true, String.isEmpty_iff]
      rintro rfl
      exact hvalid.1 rfl
    have hread : readDirective (scope.before (.directive .script)) .script
        (String.ofList text.toList) = .ok ⟨[.script text], scope.before (.directive .script)⟩ := by
      rw [readDirective, hne, String.ofList_toList]
      rfl
    exact ⟨_, readAs_directiveLine (hbare _ List.mem_cons_self) hvalid.trimStart_eq hread,
      (scope.package?_before _).trans hscope⟩
  | ofPackage c =>
    obtain ⟨name, rfl⟩ := Option.isSome_iff_exists.mp hplaced
    have hline := hbare _ List.mem_cons_self
    have hpart : IsLinePart (String.ofList c.payload).toList := by
      rw [String.toList_ofList]
      exact hline.isLinePart_payload
    have hcurrent : scope.before (.directive (.ofPackage c.directive)) = .package name := by
      cases scope with
      | package other => exact congrArg Scope.package (Option.some.inj hscope)
      | top | listing => cases hscope
    have hread := (readDirective_ofPackage_eq_ok_iff (d := c.directive) hpart).mpr
      ⟨name, _, hcurrent, c.form_isSaid hvalid name, rfl⟩
    exact ⟨_, readAs_directiveLine hline (c.trimStart_payload hvalid) hread,
      (scope.package?_before _).trans hscope⟩

/-- Clauses are read as what they say. -/
theorem exists_readAs_written {clauses : List Clause} {package : Option String}
    (hvalid : ∀ c ∈ clauses, c.Valid) (hplaced : ClausesPlaced package clauses)
    (hscope : scope.package? = package)
    (hbare : ∀ line ∈ written package clauses, IsBareLine line.1) :
    ∃ scope', ReadAs scope (written package clauses) scope' := by
  induction clauses generalizing scope package with
  | nil => exact ⟨scope, .nil⟩
  | cons c rest ih =>
    obtain ⟨hfirst, hothers⟩ := List.forall_mem_cons.mp hvalid
    obtain ⟨hplace, hplaces⟩ := hplaced
    obtain ⟨hline, hlines⟩ := List.forall_mem_append.mp hbare
    obtain ⟨middle, hread, hcurrent⟩ := Clause.exists_readAs hfirst hplace hscope hline
    obtain ⟨last, hlater⟩ := ih hothers hplaces hcurrent hlines
    exact ⟨last, hread.append hlater⟩

/-- The written text of clauses forms the document that the clauses say, each on its line. -/
theorem Document.ofText_written {clauses : List Clause} (h : Writable clauses) (file : String) :
    Document.ofText file (textOf (written none clauses)) =
      .ok ⟨file, statementsFrom file 1 (written none clauses)⟩ := by
  have htop : Scope.top.package? = none := rfl
  obtain ⟨scope, hread⟩ := exists_readAs_written h.valid h.placed htop h.bare
  rw [Document.ofText_eq_ok_iff]
  refine ⟨rfl, ?_⟩
  by_cases hnone : written none clauses = []
  · rw [hnone]
    rfl
  · have hlines : lines (textOf (written none clauses)) = (written none clauses).map (·.1) := by
      have hbare := List.forall_mem_map.mpr h.bare
      exact lines_joinWith (by simpa using hnone) (fun line hline => (hbare line hline).1)
        fun line hline => (hbare line hline).getLast?_ne
    rw [tokenize, hlines]
    exact hread.outcome_eq 0 1 file

/-- Marks inside of keys and values, quoted hash signs and a repeated property are written. -/
theorem Document.ofText_written_marks :
    let clauses : List Clause := [.packages ["two words"], .package ["p", "q r"],
      .ofPackage (.config "a->b" "->c"), .ofPackage (.env "K" "'#' -> \\# = x"),
      .ofPackage (.service "s" [("mask", "TRUE"), ("k", "[v -> w]"), ("mask", "no")]),
      .group "a/b", .env "A=B" "= c", .ofPackage (.script "run" true)]
    let text := ("@packages\ntwo words\n@package p, q r\n:config a->b -> ->c\n" ++
      ":env K = '#' -> \\# = x\n:service s [mask=TRUE, k=[v -> w], mask=no]\n@group a/b\n" ++
      "@env A=B = = c\n!setup run").toList
    Writable clauses ∧ Document.ofText "f" text =
      .ok ⟨"f", [⟨⟨"f", 1, "@packages"⟩, .listing⟩, ⟨⟨"f", 2, "two words"⟩, .item "two words"⟩,
        ⟨⟨"f", 3, "@package p, q r"⟩, .package "p"⟩, ⟨⟨"f", 3, "@package p, q r"⟩, .package "q r"⟩,
        ⟨⟨"f", 4, ":config a->b -> ->c"⟩, .packageConfig "q r" "a->b" "->c"⟩,
        ⟨⟨"f", 5, ":env K = '#' -> \\# = x"⟩, .packageEnv "q r" "K" "'#' -> \\# = x"⟩,
        ⟨⟨"f", 6, ":service s [mask=TRUE, k=[v -> w], mask=no]"⟩,
          .packageService "q r" "s" [("mask", .text "no"), ("k", .text "[v -> w]")]⟩,
        ⟨⟨"f", 7, "@group a/b"⟩, .group "a/b"⟩, ⟨⟨"f", 8, "@env A=B = = c"⟩, .env "A=B" "= c"⟩,
        ⟨⟨"f", 9, "!setup run"⟩, .packageScript "q r" "run" true⟩]⟩ := by
  intro clauses text
  have hclauses : Writable clauses := ⟨by decide +kernel, by decide +kernel, by decide +kernel⟩
  have htext : text = textOf (written none clauses) := by decide +kernel
  refine ⟨hclauses, ?_⟩
  rw [htext, Document.ofText_written hclauses "f"]
  decide +kernel

end HostConfig
