import HostConfig.Proofs.Document.Acceptance
import HostConfig.Proofs.Document.Lines
import HostConfig.Proofs.Document.Source
import HostConfig.Proofs.Payload.Writing

/-!
# Well-formed statements

All texts in the statements of a document are trimmed parts of its lines, and none of them is empty.
The keys of variables, both sides of mappings and the names of services are single words besides. None
of these texts holds a line break, whatever line ends the file has.
-/

namespace HostConfig

open HostConfig.Text HostConfig.Payload

/-- A text on one line, without blanks at either end. -/
structure IsTrimmedLine (text : List Char) : Prop where
  trim_eq : trim text = text
  feed_notMem : '\n' ∉ text
  return_notMem : '\r' ∉ text

/-- A text that says something, on one line and without blanks at either end. -/
structure IsWording (text : String) : Prop where
  ne_empty : text ≠ ""
  line : IsTrimmedLine text.toList

/-- A text that is a single word. -/
structure IsSingleWord (text : String) : Prop extends IsWording text where
  isWord : IsWord text.toList

/-- A word without brackets. -/
structure IsServiceName (name : String) : Prop extends IsSingleWord name where
  open_notMem : '[' ∉ name.toList
  close_notMem : ']' ∉ name.toList

/-- What a statement says is well formed. -/
def Form.WellFormed : Form → Prop
  | .item name | .package name => IsWording name
  | .env key value | .packageEnv _ key value => IsSingleWord key ∧ IsWording value
  | .script text | .packageScript _ text _ => IsWording text
  | .packageConfig _ source destination => IsSingleWord source ∧ IsSingleWord destination
  | .packageService _ name _ => IsServiceName name
  | .listing | .group _ | .blank => True

variable {text key value payload : List Char}

/-- A line holds what its text holds. -/
theorem Text.subset_of_mem_lines {line : List Char} (h : line ∈ lines text) : line ⊆ text := by
  fun_induction lines text generalizing line with
  | case1 => simp_all
  | case2 rest ih =>
    rcases List.mem_cons.mp h with rfl | hlater
    · exact List.nil_subset _
    · exact List.subset_cons_of_subset _ (ih hlater)
  | case3 rest ih =>
    rcases List.mem_cons.mp h with rfl | hlater
    · exact List.nil_subset _
    · exact List.subset_cons_of_subset _ (List.subset_cons_of_subset _ (ih hlater))
  | case4 c rest hfeed hreturn ih =>
    rcases hrest : lines rest with _ | ⟨first, others⟩
    · exact absurd hrest (lines_ne_nil rest)
    · rw [hrest] at h ih
      rcases List.mem_cons.mp h with rfl | hlater
      · exact List.cons_subset_cons c (ih List.mem_cons_self)
      · exact List.subset_cons_of_subset _ (ih (List.mem_cons_of_mem _ hlater))

/-- A trimmed text on one line is a part of a line. -/
theorem IsTrimmedLine.isLinePart (h : IsTrimmedLine text) : IsLinePart text where
  notMem := h.feed_notMem
  trimEnd_eq := by
    have htrim := congrArg trimEnd h.trim_eq
    rw [trim, trimEnd_trimEnd, ← trim, h.trim_eq] at htrim
    exact htrim.symm

/-- Trimming a text on one line. -/
theorem isTrimmedLine_trim (hfeed : '\n' ∉ text) (hreturn : '\r' ∉ text) :
    IsTrimmedLine (trim text) where
  trim_eq := trim_trim text
  feed_notMem hmem := hfeed ((trim_isInfix text).subset hmem)
  return_notMem hmem := hreturn ((trim_isInfix text).subset hmem)

/-- The string of a trimmed line. -/
theorem isWording_ofList (hne : text ≠ []) (h : IsTrimmedLine text) :
    IsWording (String.ofList text) where
  ne_empty hempty := hne (by simpa using congrArg String.toList hempty)
  line := by rwa [String.toList_ofList]

/-- The string of a word, which holds no line break as these are blank. -/
theorem isSingleWord_ofList (h : IsWord text) : IsSingleWord (String.ofList text) where
  toIsWording := by
    refine isWording_ofList h.1 ⟨h.isTrimmed.2, fun hmem => ?_, fun hmem => ?_⟩
    · exact absurd (h.2 _ hmem) (by decide)
    · exact absurd (h.2 _ hmem) (by decide)
  isWord := by rwa [String.toList_ofList]

/-- The string of a text that may be the name of a service. -/
theorem isServiceName_ofList (hne : text ≠ []) (h : ∀ c ∈ text, isServiceChar c) :
    IsServiceName (String.ofList text) where
  toIsSingleWord := by
    refine isSingleWord_ofList ⟨hne, fun c hc => ?_⟩
    have hchar := h c hc
    rw [isServiceChar, Bool.and_eq_true, Bool.and_eq_true] at hchar
    exact hchar.1.1
  open_notMem hmem := absurd (h '[' (by rwa [String.toList_ofList] at hmem)) (by decide)
  close_notMem hmem := absurd (h ']' (by rwa [String.toList_ofList] at hmem)) (by decide)

/-- Each part of a declaration of packages is trimmed. -/
theorem isWording_of_mem_parts (hpayload : IsTrimmedLine payload) {parts : List (List Char)}
    (hparts : HasParts payload parts) : ∀ part ∈ parts, IsWording (String.ofList part) := by
  rw [hasParts_iff.mp hparts, forall_mem_propertyParts_iff]
  intro piece hmem hink
  have hsubset := subset_of_mem_pieces hmem
  have hfilled : trim piece ≠ [] := by
    rw [ne_eq, trim_eq_nil_iff]
    simpa [isInk] using hink
  refine isWording_ofList hfilled (isTrimmedLine_trim ?_ ?_)
  · exact fun hbreak => hpayload.feed_notMem (hsubset hbreak)
  · exact fun hbreak => hpayload.return_notMem (hsubset hbreak)

/-- An assignment in a payload has a word as its key, and its value is trimmed. -/
theorem wellFormed_of_assigns (hpayload : IsTrimmedLine payload) (h : Assigns payload key value) :
    IsSingleWord (String.ofList key) ∧ IsWording (String.ofList value) := by
  obtain ⟨⟨hpair, hstart⟩, -⟩ := h
  obtain ⟨gap, gap', -, -, heq⟩ := hpair.exists_eq
  have hsuffix : value <:+ payload := ⟨key ++ (gap ++ (['='] ++ gap')), by simp [heq]⟩
  have hpart := hpayload.isLinePart.of_isSuffix hsuffix
  refine ⟨isSingleWord_ofList ⟨hpair.key_ne_nil, hpair.ink⟩,
    isWording_ofList hpair.value_ne_nil ⟨?_, hpart.notMem, ?_⟩⟩
  · rw [trim, hstart, hpart.trimEnd_eq]
  · exact fun hmem => hpayload.return_notMem (hsuffix.subset hmem)

/-- Both sides of a mapping are words. -/
theorem wellFormed_of_maps (h : Maps payload key value) :
    IsSingleWord (String.ofList key) ∧ IsSingleWord (String.ofList value) := by
  obtain ⟨⟨hpair, hink⟩, -⟩ := h
  exact ⟨isSingleWord_ofList ⟨hpair.key_ne_nil, hpair.ink⟩,
    isSingleWord_ofList ⟨hpair.value_ne_nil, hink⟩⟩

/-- What a directive about a package says is well formed. -/
theorem PackageDirective.Says.wellFormed {d : PackageDirective} {package payload : String}
    {form : Form} (hpayload : IsTrimmedLine payload.toList) (h : d.Says package payload form) :
    form.WellFormed := by
  cases d with
  | config =>
    obtain ⟨source, destination, hmaps, rfl⟩ := h
    exact wellFormed_of_maps hmaps
  | env =>
    obtain ⟨key, value, hassigns, rfl⟩ := h
    exact wellFormed_of_assigns hpayload hassigns
  | service =>
    obtain ⟨name, content, props, ⟨hne, hname, -⟩, -, rfl⟩ := h
    exact isServiceName_ofList hne hname
  | script | setup =>
    obtain ⟨hne, rfl⟩ := h
    exact ⟨hne, hpayload⟩

/-- What a token carries is trimmed, and not empty if there is no keyword. -/
structure Token.IsClean (t : Token) : Prop where
  payload : IsTrimmedLine t.payload.toList
  ne_empty : t.kind = .text → t.payload ≠ ""

/-- What a stripped line carries is trimmed. -/
theorem trim_payload (raw : List Char) :
    trim (classify (stripComment raw)).2 = (classify (stripComment raw)).2 := by
  unfold classify
  split
  · exact trim_trim _
  · exact trim_trim _

/-- A line without a keyword is carried as a whole. -/
theorem payload_of_text {line : List Char} (h : (classify line).1 = .text) :
    (classify line).2 = line := by
  unfold classify at h ⊢
  split at h
  · cases h
  · rfl

/-- The tokens of a text without carriage returns are clean. -/
theorem Token.isClean_of_mem_tokenize {file : String} {text : List Char} {t : Token}
    (hreturn : '\r' ∉ text) (h : t ∈ tokenize file text) (hkind : t.kind ≠ .eof) : t.IsClean := by
  have hpart := isLinePart_of_mem_tokenize h hkind
  obtain ⟨i, raw, hi, ht⟩ := exists_line_of_mem_tokensFrom h hkind
  have hwithin := (payload_isInfix (stripComment raw)).trans (stripComment_isInfix raw)
  have hline := subset_of_mem_lines (List.mem_of_getElem? hi)
  have heq := Token.eq_of_ofLine? ht
  constructor
  case payload =>
    refine ⟨?_, hpart.notMem, ?_⟩ <;> rw [heq, String.toList_ofList]
    · exact trim_payload raw
    · exact fun hmem => hreturn (hline (hwithin.subset hmem))
  case ne_empty =>
    intro htext hempty
    have hstrip : stripComment raw ≠ [] := by
      intro hnil
      rw [(Token.ofLine?_eq_none_iff _ _ _).mpr hnil] at ht
      cases ht
    rw [heq] at htext hempty
    rw [payload_of_text htext] at hempty
    exact hstrip (by simpa using hempty)

/-- What a clean token says is well formed. -/
theorem Token.Says.wellFormed {before : List Token} {t : Token} {forms : List Form}
    (h : t.Says before forms) (hclean : t.kind ≠ .eof → t.IsClean) :
    ∀ form ∈ forms, form.WellFormed := by
  obtain ⟨kind, origin, payload⟩ := t
  cases kind with
  | directive d =>
    obtain ⟨hpayload, -⟩ := hclean (by simp)
    cases d with
    | packages | group =>
      obtain ⟨-, rfl⟩ := h
      exact List.forall_mem_singleton.mpr trivial
    | package =>
      obtain ⟨parts, hparts, -, rfl⟩ := h
      exact List.forall_mem_map.mpr (isWording_of_mem_parts hpayload hparts)
    | env =>
      obtain ⟨key, value, hassigns, rfl⟩ := h
      exact List.forall_mem_singleton.mpr (wellFormed_of_assigns hpayload hassigns)
    | script =>
      obtain ⟨hne, rfl⟩ := h
      exact List.forall_mem_singleton.mpr ⟨hne, hpayload⟩
    | ofPackage d =>
      obtain ⟨package, form, -, hform, rfl⟩ := h
      exact List.forall_mem_singleton.mpr (hform.wellFormed hpayload)
  | text =>
    obtain ⟨hpayload, hne⟩ := hclean (by simp)
    obtain ⟨-, -, rfl⟩ := h
    exact List.forall_mem_singleton.mpr ⟨hne rfl, hpayload⟩
  | eof =>
    cases h
    exact List.forall_mem_nil _

/-- What clean tokens spell is well formed. -/
theorem Spells.wellFormed {before tokens : List Token} {body : List Statement}
    (h : Spells before tokens body) (hclean : ∀ t ∈ tokens, t.kind ≠ .eof → t.IsClean) :
    ∀ s ∈ body, s.form.WellFormed := by
  induction h with
  | nil => exact List.forall_mem_nil _
  | @cons _ _ t forms _ hsaid _ ih =>
    obtain ⟨hfirst, hrest⟩ := List.forall_mem_cons.mp hclean
    refine List.forall_mem_append.mpr ⟨?_, ih hrest⟩
    exact List.forall_mem_map.mpr (hsaid.wellFormed hfirst)

/-- The text of a file holds no carriage return. -/
theorem FileTree.return_notMem_of_read {tree : FileTree} {path : Path} {text : List Char}
    (h : tree.read path = .ok text) : '\r' ∉ text := by
  unfold FileTree.read at h
  split at h
  · cases h
    exact return_not_mem_unifyLineEnds _
  all_goals cases h

/-- The statements of a site's documents are well formed. -/
theorem Site.wellFormed_of_document {site : Site} {path : Path} {document : Document}
    (h : site.document path = .ok document) : ∀ form ∈ document.forms, form.WellFormed := by
  unfold Site.document at h
  split at h
  · cases h
  · next text hread =>
    obtain ⟨-, hspells⟩ := Document.ofText_eq_ok_iff_spells.mp h
    have hreturn := FileTree.return_notMem_of_read hread
    exact List.forall_mem_map.mpr
      (hspells.wellFormed fun t ht => Token.isClean_of_mem_tokenize hreturn ht)

end HostConfig
