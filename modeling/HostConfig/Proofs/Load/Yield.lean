import HostConfig.Proofs.Load.Outcome
import HostConfig.Proofs.Resolution.Yield

/-!
# What files and hosts yield

A load succeeds exactly when the main file and the host's file both yield a resolution, and it then
puts these together. The journal has no part in that, so that loads are compared by comparing what
the two files yield.
-/

namespace HostConfig

/-- The file at a path yields a resolution. -/
def Site.FileYields (site : Site) (path : Path) (kind : SourceKind) (r : Resolution) : Prop :=
  ∃ document, site.document path = .ok document ∧
    Yields site ⟨path.toString, kind, none⟩ document.forms {} r

/-- The file of a host yields a resolution; an absent one yields nothing. -/
def Site.HostYields (site : Site) (host : String) (r : Resolution) : Prop :=
  if site.tree.contains (site.layout.hostFile host) then
    site.FileYields (site.layout.hostFile host) .host r
  else r = {}

variable {site : Site} {path : Path} {kind : SourceKind} {host : String} {r : Resolution}
  {journal : Option Journal}

namespace Site

theorem hostYields_of_contains (h : site.tree.contains (site.layout.hostFile host) = true) :
    site.HostYields host r ↔ site.FileYields (site.layout.hostFile host) .host r := by
  rw [HostYields, if_pos h]

theorem hostYields_of_not_contains (h : site.tree.contains (site.layout.hostFile host) = false) :
    site.HostYields host r ↔ r = {} := by
  rw [HostYields, if_neg (by simp [h])]

/-- A file that yields a resolution is there. -/
theorem FileYields.contains (h : site.FileYields path kind r) : site.tree.contains path = true := by
  obtain ⟨document, hdocument, -⟩ := h
  exact site.contains_of_document hdocument

/-- A file yields at most one resolution. -/
theorem FileYields.unique {r' : Resolution} (h : site.FileYields path kind r)
    (h' : site.FileYields path kind r') : r = r' := by
  obtain ⟨document, hdocument, hyields⟩ := h
  obtain ⟨document', hdocument', hyields'⟩ := h'
  cases hdocument.symm.trans hdocument'
  exact hyields.unique hyields'

/-- The file of a host yields at most one resolution. -/
theorem HostYields.unique {r' : Resolution} (h : site.HostYields host r)
    (h' : site.HostYields host r') : r = r' := by
  unfold HostYields at h h'
  split at h
  · next htree =>
    rw [if_pos htree] at h'
    exact FileYields.unique h h'
  · next htree =>
    rw [if_neg htree] at h'
    exact h.trans h'.symm

/-- Each package of a file stands once. -/
theorem FileYields.nodup_packages (h : site.FileYields path kind r) :
    r.entries.packages.Nodup := by
  obtain ⟨document, -, hyields⟩ := h
  exact hyields.nodup_packages List.nodup_nil

/-- Each package of a host's file stands once. -/
theorem HostYields.nodup_packages (h : site.HostYields host r) : r.entries.packages.Nodup := by
  unfold HostYields at h
  split at h
  · exact FileYields.nodup_packages h
  · subst r
    exact List.nodup_nil

/-- A file resolves to what it yields. -/
theorem resolveFile_eq_ok_iff :
    (site.resolveFile path kind journal).1 = .ok r ↔ site.FileYields path kind r := by
  cases hdocument : site.document path with
  | error p => simp [resolveFile, FileYields, hdocument]
  | ok document =>
    simp only [resolveFile, hdocument, FileYields, site.file_of_document hdocument,
      resolve_eq_ok_iff, Except.ok.injEq, exists_eq_left']

/-- A file that does not resolve yields nothing. -/
theorem not_fileYields_of_resolveFile {failure : Failure} {after : Option Journal}
    (h : site.resolveFile path kind journal = (.error failure, after)) :
    ¬ ∃ r, site.FileYields path kind r := by
  rintro ⟨r, hyields⟩
  have hok : (site.resolveFile path kind journal).1 = .ok r := resolveFile_eq_ok_iff.mpr hyields
  rw [h] at hok
  cases hok

/-- The file of a host resolves to what it yields. -/
theorem resolveHost_eq_ok_iff :
    (site.resolveHost host journal).1 = .ok r ↔ site.HostYields host r := by
  cases htree : site.tree.contains (site.layout.hostFile host) with
  | true => rw [resolveHost_of_contains htree, resolveFile_eq_ok_iff, hostYields_of_contains htree]
  | false =>
    rw [resolveHost_of_not_contains htree, hostYields_of_not_contains htree, Except.ok.injEq]
    exact eq_comm

/-- A load puts together what the main file and the host's file yield. -/
theorem load_eq_ok_iff {config : Config} :
    (site.load host journal).1 = .ok config ↔
      ∃ main inner, site.FileYields site.layout.mainFile .main main ∧
        site.HostYields host inner ∧ config = .ofResolutions main inner := by
  constructor
  · intro h
    obtain ⟨main, inner, middle, last, hmain, hhost, rfl, -⟩ :=
      load_eq_ok (Prod.ext h rfl : site.load host journal = (.ok config, _))
    refine ⟨main, inner, ?_, ?_, rfl⟩
    · exact resolveFile_eq_ok_iff.mp (congrArg Prod.fst hmain)
    · exact resolveHost_eq_ok_iff.mp (congrArg Prod.fst hhost)
  · rintro ⟨main, inner, hmain, hhost, rfl⟩
    rcases hload : site.load host journal with ⟨failure | config, after⟩
    · -- Each way for a load to fail contradicts one of the two files.
      rcases load_eq_error hload with ⟨habsent, -⟩ | ⟨-, hfail⟩ | ⟨_, middle, -, htree, hfail⟩
      · rw [hmain.contains] at habsent
        cases habsent
      · exact absurd ⟨main, hmain⟩ (not_fileYields_of_resolveFile hfail)
      · exact absurd ⟨inner, (hostYields_of_contains htree).mp hhost⟩
          (not_fileYields_of_resolveFile hfail)
    · obtain ⟨main', inner', middle, last, hmain', hhost', rfl, -⟩ := load_eq_ok hload
      have hsameMain := resolveFile_eq_ok_iff.mp (congrArg Prod.fst hmain')
      have hsameHost := resolveHost_eq_ok_iff.mp (congrArg Prod.fst hhost')
      rw [hmain.unique hsameMain, hhost.unique hsameHost]

end Site

end HostConfig
