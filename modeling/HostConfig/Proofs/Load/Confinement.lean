import HostConfig.Proofs.Document.Place
import HostConfig.Proofs.FileTree.Insertion
import HostConfig.Proofs.Layout.Confinement
import HostConfig.Proofs.Load.Agreement

/-!
# Inclusions stay in the directory of groups

Whatever a text says, the groups that it includes have segmented names, so that their files lie
strictly below the directory of groups. By induction along the inclusions, a load and the scan for
relevant files look nowhere else but at the main file and at the file of the host.
-/

namespace HostConfig

open HostConfig.Text

variable {site : Site} {tree' : FileTree} {host : String}

/-- A statement that includes a group names it by segments. -/
theorem Document.isSegmented_of_mem_body {file : String} {text : List Char} {document : Document}
    (h : Document.ofText file text = .ok document) {s : Statement} (hs : s ∈ document.body)
    {name : String} (hform : s.form = .group name) : IsSegmented name := by
  obtain ⟨-, hbody⟩ := ofText_eq_ok_iff.mp h
  obtain ⟨t, ht, hkind, -, entered, reading, hread, hmem⟩ := exists_token_of_mem_body hbody hs
  rw [hform] at hmem
  rcases Token.forms_of_read hread with ⟨-, hname, hforms⟩ | ⟨-, hforms⟩
  · rw [hforms, List.mem_singleton] at hmem
    cases hmem
    -- A payload stands on one line, so the break that a group name may end with is not there.
    exact (isGroupName_iff (isLinePart_of_mem_tokenize ht hkind).notMem).mp hname
  · have hnone := (hforms _ hmem).1
    cases hnone

/-- Another tree holds the same at the main file, at the file of the host and at all paths strictly
below the directory of groups. -/
structure Site.SharesConfig (site : Site) (tree' : FileTree) (host : String) : Prop where
  mainFile : site.tree.AgreesAt tree' site.layout.mainFile
  hostFile : site.tree.AgreesAt tree' (site.layout.hostFile host)
  below : ∀ path : Path, path.IsBelow site.layout.groupDirectory → site.tree.AgreesAt tree' path

/-- Then the trees agree on all groups. -/
theorem Site.SharesConfig.agreesOn (h : site.SharesConfig tree' host) :
    site.AgreesOn tree' (isGroupName ·) where
  isGroupName _ hname := hname
  agreesAt _ hname := h.below _ (site.layout.isBelow_groupFile hname)
  closed _ _ _ hother := isGroupName_of_mem_groupsOfFile hother

/-- A content that is put outside of a directory is out of sight in it. -/
theorem FileTree.agreesAt_insert {tree : FileTree} {p q directory : Path} {c : Content}
    (hsegments : directory.normalize.segments ≠ [])
    (houtside : ¬ (key directory).toList ++ ['/'] <+: (key p).toList) (hq : q.IsBelow directory) :
    tree.AgreesAt (tree.insert p c) q := by
  obtain ⟨hanchor, names, hne, hnames⟩ := hq
  have hkey : (key directory).toList ++ ['/'] <+: (key q).toList := by
    have hnormal : q.normalize =
        ⟨directory.normalize.anchor, directory.normalize.segments ++ names⟩ := by
      rw [← hanchor, ← hnames]
    rw [key, key, Path.toString, Path.toString, String.toList_ofList, String.toList_ofList, hnormal,
      Path.toList_append _ hsegments hne]
    exact ⟨_, List.append_assoc _ _ _⟩
  refine FileTree.get?_insert_of_ne (fun heq => houtside (heq ▸ hkey)) fun habove => houtside ?_
  exact hkey.trans ((List.prefix_append _ _).trans habove)

/-- The groups that texts include stay in the directory of groups: their names are segmented, and
below a normal root their files are where they belong. So trees that hold the same at the main file,
at the host's file and below that directory load alike, also where they fail, with the same journal,
and the same files are relevant. -/
theorem inclusions_confined :
    (∀ (file : String) (text : List Char) (document : Document),
      Document.ofText file text = .ok document →
        ∀ s ∈ document.body, ∀ name, s.form = .group name →
          IsSegmented name ∧ ∀ l : Layout, l.root.Normal → l.Confines name) ∧
    ∀ (site : Site) (tree' : FileTree) (host : String), site.SharesConfig tree' host →
      (∀ journal, (site.withTree tree').load host journal = site.load host journal) ∧
        relevantFiles tree' site.layout host = relevantFiles site.tree site.layout host := by
  constructor
  · intro file text document h s hs name hform
    have hname := Document.isSegmented_of_mem_body h hs hform
    exact ⟨hname, fun l hroot => Layout.confines hroot hname⟩
  · intro site tree' host h
    have hroots : ∀ path ∈ [site.layout.mainFile, site.layout.hostFile host],
        ∀ name ∈ groupsOfFile site.tree path, isGroupName name :=
      fun _ _ _ hname => isGroupName_of_mem_groupsOfFile hname
    exact ⟨h.agreesOn.load_eq h.mainFile h.hostFile hroots,
      h.agreesOn.relevantFiles_eq h.mainFile h.hostFile hroots⟩

/-- An inclusion with a comment behind it, and a tree that differs in a dotfile. -/
theorem inclusions_confined_of_dotfile :
    let text := "@group lang/python # x\n"
    let site := Site.ofTexts "/owl" [("/owl/main.owl", text),
      ("/owl/groups/lang/python.owl", "@env A = 1\n")]
    let tree' := site.tree.insert (Path.ofString "/owl/dotfiles/rc") (.file [])
    (∃ document, Document.ofText "/owl/main.owl" text.toList = .ok document ∧
      document.body = [⟨⟨"/owl/main.owl", 1, "@group lang/python # x"⟩, .group "lang/python"⟩]) ∧
    site.layout.Confines "lang/python" ∧ site.SharesConfig tree' "box" ∧
    (site.withTree tree').load "box" none = site.load "box" none := by
  intro text site tree'
  let s : Statement := ⟨⟨"/owl/main.owl", 1, "@group lang/python # x"⟩, .group "lang/python"⟩
  have hread : Document.ofText "/owl/main.owl" text.toList = .ok ⟨"/owl/main.owl", [s]⟩ := by
    decide +kernel
  have hroot : site.layout.root.Normal := ⟨by decide, by decide⟩
  have hshares : site.SharesConfig tree' "box" :=
    ⟨by decide +kernel, by decide +kernel,
      fun _ hpath => FileTree.agreesAt_insert (by decide) (by decide) hpath⟩
  have hname := (inclusions_confined.1 _ _ _ hread s (List.mem_singleton_self _) _ rfl).2 _ hroot
  exact ⟨⟨_, hread, rfl⟩, hname, hshares, (inclusions_confined.2 _ _ _ hshares).1 none⟩

end HostConfig
