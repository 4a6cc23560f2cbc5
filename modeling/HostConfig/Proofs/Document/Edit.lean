import HostConfig.Proofs.Document.Lines
import HostConfig.Proofs.FileTree.Insertion

/-!
# Edited files

What is found at a site after a file was put there. A document depends on the text at its path
only, and what it says does not depend on whether its last line is ended.
-/

namespace HostConfig

open HostConfig.Text

/-- A site with a file put at a path. -/
def Site.withFile (site : Site) (path : Path) (bytes : List UInt8) : Site :=
  { site with tree := site.tree.insert path (.file bytes) }

/-- The lines of a text, without the empty one behind a final line break. -/
def Text.properLines (text : List Char) : List (List Char) :=
  if (lines text).getLast? = some [] then (lines text).dropLast else lines text

/-- The lines of a text are its proper lines and maybe an empty one. -/
theorem Text.lines_eq_properLines (text : List Char) :
    lines text = properLines text ∨ lines text = properLines text ++ [[]] := by
  unfold properLines
  split
  · next h => exact Or.inr (List.dropLast_append_getLast? [] h).symm
  · exact Or.inl rfl

/-- A proper line is a line. -/
theorem Text.properLines_subset (text : List Char) : properLines text ⊆ lines text := by
  rcases lines_eq_properLines text with h | h
  · rw [h]
    exact List.Subset.refl _
  · rw [h]
    exact List.subset_append_left _ _

/-- Reading the proper lines is enough. -/
theorem readLines_properLines {scope : Scope} {text : List Char} {reading : Reading} :
    readLines scope (lines text) = .ok reading ↔
      readLines scope (properLines text) = .ok reading := by
  rcases lines_eq_properLines text with h | h
  · rw [h]
  · have hempty : ∀ scope, readLines scope [[]] = .ok ⟨[], scope⟩ := fun _ => rfl
    rw [h, readLines_append_eq_ok]
    constructor
    · rintro ⟨first, later, hfirst, hlater, rfl⟩
      cases (hempty first.scope).symm.trans hlater
      simpa [Reading.followedBy] using hfirst
    · intro hreading
      refine ⟨reading, ⟨[], reading.scope⟩, hreading, hempty _, ?_⟩
      simp [Reading.followedBy]

/-- The groups that a content includes; only a file includes any. -/
def Content.groups : Content → List String
  | .file bytes => includedGroups (tokenize "" (ofBytes bytes))
  | _ => []

/-- The groups that a line includes do not depend on where the line stands. -/
theorem includedGroups_ofLine? (file file' : String) (number number' : Nat) (raw : List Char) :
    includedGroups (Token.ofLine? file number raw).toList =
      includedGroups (Token.ofLine? file' number' raw).toList := by
  cases hstrip : stripComment raw with
  | nil =>
    rw [(Token.ofLine?_eq_none_iff file number raw).mpr hstrip,
      (Token.ofLine?_eq_none_iff file' number' raw).mpr hstrip]
  | cons c rest =>
    simp only [Token.ofLine?, hstrip, includedGroups, Option.toList_some, List.filterMap_cons,
      List.filterMap_nil]

/-- The groups that lines include do not depend on where the lines stand. -/
theorem includedGroups_tokensFrom (file file' : String) (number number' : Nat)
    (ls : List (List Char)) :
    includedGroups (tokensFrom file number ls) = includedGroups (tokensFrom file' number' ls) := by
  induction ls generalizing number number' with
  | nil => rfl
  | cons raw rest ih =>
    rw [tokensFrom, tokensFrom, includedGroups_append, includedGroups_append,
      includedGroups_ofLine? file file' number number', ih (number + 1) (number' + 1)]

/-- The groups that lines include are those of one part after the other. -/
theorem includedGroups_tokensFrom_append (file : String) (number : Nat)
    (xs ys : List (List Char)) :
    includedGroups (tokensFrom file number (xs ++ ys)) =
      includedGroups (tokensFrom file number xs) ++ includedGroups (tokensFrom file number ys) := by
  induction xs generalizing number with
  | nil => rfl
  | cons raw rest ih =>
    rw [List.cons_append, tokensFrom, tokensFrom, includedGroups_append, includedGroups_append, ih,
      List.append_assoc, includedGroups_tokensFrom file file (number + 1) number ys]

/-- What lines say includes the groups that a scan of the lines finds. -/
theorem groupsIn_of_readLines {scope : Scope} {ls : List (List Char)} {reading : Reading}
    (h : readLines scope ls = .ok reading) (file : String) (number : Nat) :
    groupsIn reading.forms = includedGroups (tokensFrom file number ls) := by
  have hread : ∃ body, (readTokens 0 scope (tokensFrom file number ls)).outcome = .ok body ∧
      body.map (·.form) = reading.forms := exists_outcome_iff.mpr ⟨reading.scope, h⟩
  obtain ⟨body, hbody, hforms⟩ := hread
  rw [← groups_of_readTokens hbody, ← hforms, groupsIn, List.filterMap_map]
  rfl

/-- A group that no stored content includes is included by no file. -/
theorem notMem_groupsOfFile {tree : FileTree} {name : String}
    (h : ∀ item ∈ tree.items, name ∉ item.2.groups) (path : Path) :
    name ∉ groupsOfFile tree path := by
  unfold groupsOfFile
  split
  · exact List.not_mem_nil
  · next text hread =>
    obtain ⟨k, bytes, hfind, rfl⟩ := FileTree.read_eq_ok_iff.mp hread
    rw [tokenize, includedGroups_tokensFrom path.toString "" 1 1]
    exact h _ (List.mem_of_find?_eq_some hfind)

namespace Site

variable {site site' : Site} {path other : Path} {bytes : List UInt8} {text : List Char}
  {document : Document} {forms : List Form}

/-- A file is read at the path that it was put at. -/
theorem read_withFile_self (site : Site) (path : Path) (bytes : List UInt8) :
    (site.withFile path bytes).tree.read path = .ok (ofBytes bytes) :=
  site.tree.read_insert_self path bytes

/-- At paths with other keys the same texts are read. -/
theorem read_withFile_of_ne (h : FileTree.key path ≠ FileTree.key other) :
    (site.withFile path bytes).tree.read other = .ok text ↔ site.tree.read other = .ok text :=
  FileTree.read_insert_of_ne h

/-- Where the same text is read, the same document is found. -/
theorem document_congr
    (h : ∀ text, site'.tree.read path = .ok text ↔ site.tree.read path = .ok text) :
    site'.document path = .ok document ↔ site.document path = .ok document := by
  cases hread : site.tree.read path with
  | ok text => rw [Site.document, Site.document, hread, (h text).mpr hread]
  | error reason =>
    cases hread' : site'.tree.read path with
    | ok text =>
      rw [hread, hread'] at h
      cases (h text).mp rfl
    | error reason' => simp [Site.document, hread, hread']

/-- A text that is read says what its proper lines say. -/
theorem exists_document_of_read (hread : site.tree.read path = .ok text) :
    (∃ document, site.document path = .ok document ∧ document.forms = forms) ↔
      ∃ scope, readLines .top (properLines text) = .ok ⟨forms, scope⟩ := by
  rw [exists_document_iff]
  constructor
  · rintro ⟨text', scope, hread', hlines⟩
    cases hread.symm.trans hread'
    exact ⟨scope, readLines_properLines.mp hlines⟩
  · rintro ⟨scope, hlines⟩
    exact ⟨text, scope, hread, readLines_properLines.mpr hlines⟩

/-- The groups that a document includes have possible names. -/
theorem isGroupName_of_document (h : site.document path = .ok document) :
    ∀ other ∈ groupsIn document.forms, isGroupName other := by
  rw [← document.groups_eq]
  exact fun other hother => site.isGroupName_of_mem_groups h hother

/-- The groups that a document includes have possible names and are not the unused one. -/
theorem group_of_document {name : String}
    (hunused : ∀ path, name ∉ groupsOfFile site.tree path)
    (h : site.document path = .ok document) :
    ∀ other ∈ groupsIn document.forms, isGroupName other ∧ other ≠ name := by
  intro other hother
  refine ⟨site.isGroupName_of_document h other hother, ?_⟩
  rintro rfl
  rw [← document.groups_eq, ← site.groupsOfFile_of_document h] at hother
  exact hunused path hother

end Site

end HostConfig
