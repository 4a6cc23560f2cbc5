import HostConfig.Load
import HostConfig.Proofs.Resolution.Depth

/-!
# Outcomes of a load

A load succeeds when the main file resolves and the file of the host does, if there is one. Each
way for it to fail is a way for one of the two files to fail, or there is no main file.
-/

namespace HostConfig

variable {site : Site} {path : Path} {kind : SourceKind} {host : String}
  {journal after : Option Journal}

/-- A file without a document does not resolve. -/
theorem Site.resolveFile_of_document_eq_error {p : Problem} (h : site.document path = .error p) :
    site.resolveFile path kind journal = (.error (.problem p), journal) := by
  rw [resolveFile, h]

/-- A file with a document is resolved from its body, with no group active. -/
theorem Site.resolves_of_resolveFile {document : Document} {outcome : Except Failure Resolution}
    (hdocument : site.document path = .ok document)
    (h : site.resolveFile path kind journal = (outcome, after)) :
    ∃ run, Resolves site ⟨document.file, kind, none⟩ document.body {}
      ⟨journal.map (·.log (.fileLoaded path.toString kind)), []⟩ outcome run ∧
        run.journal = after := by
  simp only [resolveFile, hdocument, Prod.mk.injEq] at h
  exact ⟨_, resolve_eq_iff.mp (Prod.ext h.1 rfl), h.2⟩

/-- A file that resolves has a document. -/
theorem Site.exists_document_of_resolveFile {r : Resolution}
    (h : site.resolveFile path kind journal = (.ok r, after)) :
    ∃ document, site.document path = .ok document := by
  cases hdocument : site.document path with
  | ok document => exact ⟨document, rfl⟩
  | error p =>
    rw [resolveFile_of_document_eq_error hdocument] at h
    cases h

/-- The file of a host is resolved if there is one. -/
theorem Site.resolveHost_of_contains (h : site.tree.contains (site.layout.hostFile host) = true) :
    site.resolveHost host journal = site.resolveFile (site.layout.hostFile host) .host journal := by
  simp only [resolveHost, h, if_true]

/-- A host without a file resolves to nothing. -/
theorem Site.resolveHost_of_not_contains
    (h : site.tree.contains (site.layout.hostFile host) = false) :
    site.resolveHost host journal =
      (.ok {}, journal.map (·.log (.hostAbsent (site.layout.hostFile host).toString))) := by
  simp only [resolveHost, h, Bool.false_eq_true, if_false]

/-- A load succeeds after both files did. -/
theorem Site.load_eq_ok {config : Config} (h : site.load host journal = (.ok config, after)) :
    ∃ main inner middle last,
      site.resolveFile site.layout.mainFile .main (journal.map (·.identify host)) =
        (.ok main, middle) ∧
      site.resolveHost host middle = (.ok inner, last) ∧ config = .ofResolutions main inner ∧
      after = last.map (·.logAll (mergeNotices main.entries inner.entries)) := by
  rw [load, resolveConfig] at h
  split at h
  · cases h
  · split at h
    · cases h
    · next main middle hmain =>
      split at h
      · cases h
      · next inner last hhost =>
        cases h
        exact ⟨main, inner, middle, last, hmain, hhost, rfl, rfl⟩

/-- A load fails without a main file, or as the main file does, or else as the file of the host
does. -/
theorem Site.load_eq_error {failure : Failure} (h : site.load host journal = (.error failure, after)) :
    (site.tree.contains site.layout.mainFile = false ∧
      failure = .problem (.ofFile site.layout.mainFile.toString
        (.missingMain site.layout.mainFile.toString)) ∧
      after = journal.map (·.identify host)) ∨
    (site.tree.contains site.layout.mainFile = true ∧
      site.resolveFile site.layout.mainFile .main (journal.map (·.identify host)) =
        (.error failure, after)) ∨
    ∃ main middle,
      site.resolveFile site.layout.mainFile .main (journal.map (·.identify host)) =
        (.ok main, middle) ∧
      site.tree.contains (site.layout.hostFile host) = true ∧
      site.resolveFile (site.layout.hostFile host) .host middle = (.error failure, after) := by
  rw [load, resolveConfig] at h
  split at h
  · next hmain =>
    cases h
    exact Or.inl ⟨by simpa using hmain, rfl, rfl⟩
  · next hcontains =>
    have hcontains' : site.tree.contains site.layout.mainFile = true := by simpa using hcontains
    split at h
    · next hmain =>
      cases h
      exact Or.inr (Or.inl ⟨hcontains', hmain⟩)
    · next main middle hmain =>
      split at h
      · next hhost =>
        cases h
        cases htree : site.tree.contains (site.layout.hostFile host) with
        | true =>
          rw [resolveHost_of_contains htree] at hhost
          exact Or.inr (Or.inr ⟨main, middle, hmain, rfl, hhost⟩)
        | false =>
          rw [resolveHost_of_not_contains htree] at hhost
          cases hhost
      · cases h

end HostConfig
