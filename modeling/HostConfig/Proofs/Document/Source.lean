import HostConfig.Resolution
import HostConfig.Proofs.Document.Inclusion
import HostConfig.Proofs.FileTree.Lookup

/-!
# The documents of a site

What a document that is found at a path owes to the text there: its file, the groups that it
includes, and the places of its statements. Where there is no document, either the path cannot
be read or the problem stands on a line of the text.
-/

namespace HostConfig

open HostConfig.Text

/-- The site below a root that holds files with the given texts, as far as these are ASCII. -/
def Site.ofTexts (root : String) (files : List (String × String)) : Site where
  tree := files.foldl (fun tree file => tree.insert (Path.ofString file.1)
    (.file (file.2.toList.map fun c => UInt8.ofNat c.toNat))) .empty
  layout := ⟨Path.ofString root⟩

/-- A document is read from the text at its path. -/
theorem Site.exists_text_of_document {s : Site} {p : Path} {d : Document}
    (h : s.document p = .ok d) :
    ∃ text body, s.tree.read p = .ok text ∧ d = ⟨p.toString, body⟩ ∧
      (readTokens 0 .top (tokenize p.toString text)).outcome = .ok body := by
  unfold Site.document at h
  split at h
  · cases h
  · next text hread =>
    obtain ⟨hfile, hbody⟩ := Document.ofText_eq_ok_iff.mp h
    exact ⟨text, d.body, hread, by rw [← hfile], hbody⟩

/-- A document names the path that it is found at. -/
theorem Site.file_of_document {s : Site} {p : Path} {d : Document} (h : s.document p = .ok d) :
    d.file = p.toString := by
  obtain ⟨text, body, -, rfl, -⟩ := s.exists_text_of_document h
  rfl

/-- A document is found at a file. -/
theorem Site.isFile_of_document {s : Site} {p : Path} {d : Document} (h : s.document p = .ok d) :
    s.tree.isFile p = true := by
  obtain ⟨text, body, hread, -⟩ := s.exists_text_of_document h
  exact FileTree.isFile_of_read hread

/-- A document is found at a path that is there. -/
theorem Site.contains_of_document {s : Site} {p : Path} {d : Document}
    (h : s.document p = .ok d) : s.tree.contains p = true :=
  FileTree.contains_of_isFile (s.isFile_of_document h)

/-- The groups that a document includes are those that a scan of its file finds. -/
theorem Site.groupsOfFile_of_document {s : Site} {p : Path} {d : Document}
    (h : s.document p = .ok d) : groupsOfFile s.tree p = d.groups := by
  obtain ⟨text, body, hread, rfl, hbody⟩ := s.exists_text_of_document h
  rw [groupsOfFile, hread]
  exact (groups_of_readTokens hbody).symm

/-- A scanned group has a possible name. -/
theorem isGroupName_of_mem_groupsOfFile {tree : FileTree} {p : Path} {name : String}
    (h : name ∈ groupsOfFile tree p) : isGroupName name = true := by
  unfold groupsOfFile at h
  split at h
  · cases h
  · obtain ⟨t, -, ht⟩ := List.mem_filterMap.mp h
    split at ht
    · next hname =>
      rw [Bool.and_eq_true] at hname
      rw [← Option.some.inj ht]
      exact hname.2
    · cases ht

/-- An included group has a possible name. -/
theorem Site.isGroupName_of_mem_groups {s : Site} {p : Path} {d : Document}
    (h : s.document p = .ok d) {name : String} (hname : name ∈ d.groups) :
    isGroupName name = true :=
  isGroupName_of_mem_groupsOfFile (s.groupsOfFile_of_document h ▸ hname)

/-- A statement of a document says something and stands on a line of the text; one that includes
a group stands where a token names that group. -/
theorem Site.place_of_statement {s : Site} {p : Path} {d : Document} (h : s.document p = .ok d)
    {st : Statement} (hst : st ∈ d.body) :
    st.form ≠ .blank ∧ ∃ text, s.tree.read p = .ok text ∧ st.origin.file = p.toString ∧
      st.origin.IsLineOf text ∧ ∀ name, st.form = .group name →
        ∃ t ∈ tokenize p.toString text,
          t.origin = st.origin ∧ t.kind = .directive .group ∧ t.payload = name := by
  obtain ⟨text, body, hread, rfl, hbody⟩ := s.exists_text_of_document h
  obtain ⟨t, ht, hkind, horigin, entered, reading, htoken, hform⟩ :=
    exists_token_of_mem_body hbody hst
  obtain ⟨hfile, hline⟩ := isLineOf_of_mem_tokenize ht hkind
  rcases Token.forms_of_read htoken with ⟨hgroup, -, hforms⟩ | ⟨-, hforms⟩
  · rw [hforms, List.mem_singleton] at hform
    refine ⟨by simp [hform], text, hread, horigin ▸ hfile, horigin ▸ hline, fun name hname => ?_⟩
    rw [hform] at hname
    exact ⟨t, ht, horigin.symm, hgroup, Form.group.inj hname⟩
  · refine ⟨(hforms _ hform).2, text, hread, horigin ▸ hfile, horigin ▸ hline, fun name hname => ?_⟩
    have hnone := (hforms _ hform).1
    rw [hname] at hnone
    cases hnone

/-- Without a document the path cannot be read, or a line of its text is not acceptable. -/
theorem Site.problem_of_document {s : Site} {p : Path} {q : Problem} (h : s.document p = .error q) :
    (∃ reason, q = .ofFile p.toString (.unreadable p.toString reason)) ∨
      ∃ text, s.tree.read p = .ok text ∧ q.origin.file = p.toString ∧ q.origin.IsLineOf text ∧
        (q.cause.category = .structural ∨ q.cause.category = .context ∨
          q.cause.category = .unknownDirective) := by
  unfold Site.document at h
  split at h
  · next reason hread => exact Or.inl ⟨reason, (Except.error.inj h).symm⟩
  · next text hread =>
    rw [Document.ofText, Document.ofTokens, Parse.ofTokens] at h
    cases hbody : (readTokens 0 .top (tokenize p.toString text)).outcome with
    | error q' =>
      rw [hbody] at h
      cases h
      obtain ⟨t, ht, hkind, horigin, entered, hcause⟩ := exists_token_of_problem hbody
      obtain ⟨hfile, hline⟩ := isLineOf_of_mem_tokenize ht hkind
      exact Or.inr ⟨text, hread, horigin ▸ hfile, horigin ▸ hline, Token.category_of_read hcause⟩
    | ok body =>
      rw [hbody] at h
      cases h

end HostConfig
