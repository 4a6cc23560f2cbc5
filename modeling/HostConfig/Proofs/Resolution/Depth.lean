import HostConfig.Proofs.Layout.GroupFile
import HostConfig.Proofs.Resolution.Declaration
import HostConfig.Proofs.Resolution.Derivation
import Mathlib.Data.List.Infix

/-!
# Enough depth

A group that is expanded has a path in the tree, and while it is being expanded no other group
takes the same path. So each step into a group uses up one of the finitely many texts that begin
a stored key, and the depth that a tree allows for is never exceeded. Every resolution therefore
has a derivation.
-/

namespace HostConfig

/-- The texts that begin a stored key. -/
def FileTree.keyPrefixes (t : FileTree) : List (List Char) := t.keys.flatMap fun k => k.toList.inits

/-- There are fewer beginnings of keys than the depth that is allowed for. -/
theorem FileTree.length_keyPrefixes (t : FileTree) : t.keyPrefixes.length + 2 = t.depth := by
  rw [keyPrefixes, depth]
  induction t.keys with
  | nil => rfl
  | cons k rest ih =>
    rw [List.flatMap_cons, List.length_append, List.length_inits, String.length_toList,
      List.foldr_cons, ← ih]
    omega

/-- The texts that begin a stored key and are not the key of a group being expanded. -/
def Site.room (s : Site) (active : List String) : List (List Char) :=
  s.tree.keyPrefixes.filter fun text =>
    ∀ g ∈ active, isGroupName g → (FileTree.key (s.layout.groupFile g)).toList ≠ text

theorem Site.length_room_le (s : Site) (active : List String) :
    (s.room active).length ≤ s.tree.keyPrefixes.length := List.length_filter_le _ _

/-- Entering a group leaves less room. -/
theorem Site.length_room_cons_lt {s : Site} {active : List String} {name : String}
    (hname : isGroupName name) (hactive : name ∉ active)
    (htree : s.tree.contains (s.layout.groupFile name) = true) :
    (s.room (name :: active)).length < (s.room active).length := by
  obtain ⟨k, hk, hprefix⟩ := FileTree.exists_prefix_of_contains htree
  have hmem : (FileTree.key (s.layout.groupFile name)).toList ∈ s.room active := by
    refine List.mem_filter.mpr ⟨List.mem_flatMap.mpr ⟨k, hk, (List.mem_inits _ _).mpr hprefix⟩, ?_⟩
    rw [decide_eq_true_eq]
    intro g hg hgname heq
    have hsame := s.layout.key_groupFile_injective hgname hname (String.toList_injective heq)
    exact hactive (hsame ▸ hg)
  have hsplit : s.room (name :: active) = (s.room active).filter fun text =>
      (FileTree.key (s.layout.groupFile name)).toList ≠ text := by
    rw [Site.room, Site.room, List.filter_filter]
    refine List.filter_congr fun text _ => ?_
    simp [hname]
  rw [hsplit]
  exact List.length_filter_lt_length_iff_exists.mpr ⟨_, hmem, by simp⟩

/-- A body does not run out of depth, if the documents of its groups do not. -/
theorem resolveBodyWithin_ne_tooDeep {site : Site} {depth : Nat} {active : List String}
    {source : Provenance} {body : List Statement} {r : Resolution} {run : Run}
    (hinner : ∀ s ∈ body, ∀ name, s.form.group? = some name → name ∉ active →
      ∀ document run, site.document (site.layout.groupFile name) = .ok document →
        run.active = name :: active →
        (resolveWithin site depth (site.layout.groupSource name) document run).1 ≠ .error .tooDeep)
    (hrun : run.active = active) :
    (resolveBodyWithin site depth source body r run).1 ≠ .error .tooDeep := by
  induction body generalizing r run with
  | nil => simp [resolveBodyWithin, resolveBody]
  | cons s rest ih =>
    have ih' : ∀ r run, run.active = active →
        (resolveBodyWithin site depth source rest r run).1 ≠ .error .tooDeep :=
      fun r run => ih fun t ht => hinner t (List.mem_cons_of_mem _ ht)
    cases hform : s.form.group? with
    | none =>
      rw [resolveBodyWithin_declare hform]
      cases hdeclare : r.declare site.layout source s with
      | error failure =>
        rcases Resolution.declare_eq_error hdeclare with ⟨-, rfl⟩ | ⟨_, _, _, _, -, -, rfl⟩ <;> simp
      | ok r' => exact ih' _ _ hrun
    | some name =>
      rw [resolveBodyWithin_group hform]
      obtain ⟨p, after, hexpand⟩ | ⟨document, hactive, hdocument, hexpand⟩ :=
        expandGroup_cases site s.origin name run
      · rw [hexpand]
        simp
      · have hdeep := hinner s List.mem_cons_self name hform (hrun ▸ hactive) document
          (run.into site.layout name) hdocument (congrArg (name :: ·) hrun)
        have hderivation := resolves_of_resolveWithin hdeep
        rw [hexpand]
        rcases hresolve : resolveWithin site depth (site.layout.groupSource name) document
            (run.into site.layout name) with ⟨failure | inner, inside⟩
        · rwa [hresolve] at hdeep
        · rw [hresolve] at hderivation
          -- The group was left again, so that the same groups are active as before.
          exact ih' _ _ ((Run.active_leave hactive hderivation.active_eq).trans hrun)

/-- A document whose groups have possible names does not run out of depth that exceeds the room. -/
theorem resolveWithin_ne_tooDeep {site : Site} {depth : Nat} {source : Provenance}
    {document : Document} {run : Run} (hnames : ∀ name ∈ document.groups, isGroupName name)
    (hdepth : (site.room run.active).length < depth) :
    (resolveWithin site depth source document run).1 ≠ .error .tooDeep := by
  induction depth generalizing source document run with
  | zero => omega
  | succ depth ih =>
    rw [resolveWithin_succ]
    refine resolveBodyWithin_ne_tooDeep (fun s hs name hform hactive d run' hd hrun' => ?_) rfl
    have hname := hnames name (Document.mem_groups_of_mem_body hs hform)
    apply ih fun other hother => site.isGroupName_of_mem_groups hd hother
    have hless := Site.length_room_cons_lt hname hactive (site.contains_of_document hd)
    rw [hrun']
    omega

/-- No resolution runs out of depth. -/
theorem resolve_ne_tooDeep (site : Site) (source : Provenance) (document : Document) (run : Run) :
    (resolve site source document run).1 ≠ .error .tooDeep := by
  have hdepth := site.tree.length_keyPrefixes
  rw [resolve, ← hdepth, resolveWithin_succ]
  refine resolveBodyWithin_ne_tooDeep (fun s _ name _ _ d run' hd _ => ?_) rfl
  apply resolveWithin_ne_tooDeep fun other hother => site.isGroupName_of_mem_groups hd hother
  have hroom := site.length_room_le run'.active
  omega

/-- Every resolution has a derivation. -/
theorem resolves_resolve (site : Site) (source : Provenance) (document : Document) (run : Run) :
    Resolves site source document.body {} run (resolve site source document run).1
      (resolve site source document run).2 :=
  resolves_of_resolveWithin (resolve_ne_tooDeep site source document run)

/-- A document resolves to what there is a derivation for. -/
theorem resolve_eq_iff {site : Site} {source : Provenance} {document : Document} {run after : Run}
    {outcome : Except Failure Resolution} :
    resolve site source document run = (outcome, after) ↔
      Resolves site source document.body {} run outcome after := by
  have hderivation := resolves_resolve site source document run
  constructor
  · intro h
    rwa [h] at hderivation
  · intro h
    obtain ⟨houtcome, hafter⟩ := hderivation.unique h
    exact Prod.ext houtcome hafter

end HostConfig
