import HostConfig.Proofs.Resolution.Yield

/-!
# Relabelling sources

Where an entry comes from is carried along and never looked at. So if the sources of entries are
replaced by others, everything that is done with the entries remains the same, up to the
replacement. A replacement that leaves the sources of groups alone can be applied to what a
document yields by applying it to the source of the document.
-/

namespace HostConfig

/-- An entry with its source replaced. -/
def Entry.mapSource (f : Provenance → Provenance) (e : Entry) : Entry :=
  { e with provenance := f e.provenance }

/-- A resolution with the sources of its entries replaced. -/
def Resolution.mapSource (f : Provenance → Provenance) (r : Resolution) : Resolution :=
  { r with entries := r.entries.map (Entry.mapSource f) }

/-- A configuration with the sources of its entries replaced. -/
def Config.mapSource (f : Provenance → Provenance) (c : Config) : Config :=
  { c with entries := c.entries.map (Entry.mapSource f) }

variable (f : Provenance → Provenance)

/-- Changing an entry without regard to its source commutes with replacing sources. -/
theorem Entries.map_modify (es : Entries) (fresh : Entry) {change : Entry → Entry}
    (hsource : ∀ e provenance, change { e with provenance } = { change e with provenance }) :
    (es.modify fresh change).map (Entry.mapSource f) =
      modify (fresh.mapSource f) change (es.map (Entry.mapSource f)) := by
  have hchange : ∀ e, (change e).mapSource f = change (e.mapSource f) := by
    intro e
    have hself : change e = { change e with provenance := e.provenance } := hsource e e.provenance
    have hkeep : (change e).provenance = e.provenance := by rw [hself]
    rw [Entry.mapSource, hkeep]
    exact (hsource e (f e.provenance)).symm
  induction es with
  | nil => simp [modify, hchange]
  | cons e rest ih =>
    have hpackage : (e.mapSource f).package = e.package := rfl
    have hfresh : (fresh.mapSource f).package = fresh.package := rfl
    by_cases h : e.package = fresh.package
    · simp [modify, h, hpackage, hfresh, hchange]
    · simp [modify, h, hpackage, hfresh, ih]

/-- Merging an entry commutes with replacing sources. -/
theorem Entries.map_put (es : Entries) (later : Entry) :
    (es.put later).map (Entry.mapSource f) =
      put (later.mapSource f) (es.map (Entry.mapSource f)) := by
  induction es with
  | nil => rfl
  | cons e rest ih =>
    have hpackage : (e.mapSource f).package = e.package := rfl
    have hlater : (later.mapSource f).package = later.package := rfl
    by_cases h : e.package = later.package
    · simp only [put, h, hpackage, hlater, if_true, List.map_cons]
      rfl
    · simp only [put, h, hpackage, hlater, if_false, List.map_cons, ih]

/-- Merging entries commutes with replacing sources. -/
theorem Entries.map_putAll (es later : Entries) :
    (es.putAll later).map (Entry.mapSource f) =
      putAll (es.map (Entry.mapSource f)) (later.map (Entry.mapSource f)) := by
  induction later generalizing es with
  | nil => rfl
  | cons e rest ih =>
    have hstep : es.putAll (e :: rest) = (es.put e).putAll rest := rfl
    rw [hstep, ih, map_put]
    rfl

namespace Resolution

variable {f} {l : Layout} {source : Provenance} {origin : Origin} {form : Form}
  {r r' : Resolution}

theorem absorb_mapSource (r inner : Resolution) :
    (r.absorb inner).mapSource f = (r.mapSource f).absorb (inner.mapSource f) := by
  simp only [mapSource, absorb, Entries.map_putAll]

/-- Carrying out a statement commutes with replacing sources. -/
theorem declare_mapSource (h : r.declare l source ⟨origin, form⟩ = .ok r') :
    (r.mapSource f).declare l (f source) ⟨origin, form⟩ = .ok (r'.mapSource f) := by
  cases Form.acts_of_declare h with
  | onPackage _ hdeclare _ hsource =>
    cases h.symm.trans (hdeclare r source origin)
    rw [hdeclare]
    simp only [mapSource, modifyEntry, Entries.map_modify f _ _ hsource]
    rfl
  | onHost _ hdeclare =>
    cases h.symm.trans (hdeclare r source origin)
    rw [hdeclare]
    rfl

end Resolution

variable {f} {site : Site} {source : Provenance} {forms : List Form} {r final : Resolution}

/-- What forms yield from another source differs in the sources only. -/
theorem Yields.mapSource
    (hf : ∀ name, f (site.layout.groupSource name) = site.layout.groupSource name)
    (h : Yields site source forms r final) :
    Yields site (f source) forms (r.mapSource f) (final.mapSource f) := by
  induction h with
  | done => exact .done
  | declare hform hdeclare _ ih => exact .declare hform (Resolution.declare_mapSource hdeclare) ih
  | expand hdocument _ _ ihinner ihrest =>
    rw [hf] at ihinner
    rw [Resolution.absorb_mapSource] at ihrest
    exact .expand hdocument ihinner ihrest

end HostConfig
