import HostConfig.Journal
import Mathlib.Data.List.Basic

/-!
# Journals that continue others

Recording adds to a journal and never looks at what it holds, apart from the host that each event is
given. So a journal that goes on from an earlier one holds what was there, followed by what a journal
holds that went on from nothing. Relations between journals that recording in both keeps are what
later comparisons of resolutions are made with.
-/

namespace HostConfig

/-- The warnings about a file. -/
def Warnings.texts (ws : Warnings) (file : String) : List String :=
  match ws.find? fun w => w.1 = file with
  | some w => w.2
  | none => []

/-- The files that there are warnings about, in the order of each file's first one. -/
def Warnings.files (ws : Warnings) : List String := ws.map (·.1)

namespace Warnings

theorem texts_nil (file : String) : texts [] file = [] := rfl

theorem texts_cons (w : String × List String) (rest : Warnings) (file : String) :
    texts (w :: rest) file = if w.1 = file then w.2 else texts rest file := by
  by_cases h : w.1 = file <;> simp [texts, h]

/-- A warning stands behind the earlier ones about its file. -/
theorem texts_add (ws : Warnings) (file text other : String) :
    (ws.add file text).texts other = ws.texts other ++ if file = other then [text] else [] := by
  induction ws with
  | nil => simp only [add, texts_cons, texts_nil, List.nil_append]
  | cons w rest ih =>
    by_cases h : w.1 = file
    · by_cases hother : file = other <;> simp [add, texts_cons, h, hother]
    · simp only [add, if_neg h, texts_cons, ih]
      by_cases hother : w.1 = other
      · have hne : file ≠ other := fun hfile => h (hother.trans hfile.symm)
        simp [hother, hne]
      · simp [hother]

/-- A file that there was no warning about comes last. -/
theorem files_add (ws : Warnings) (file text : String) :
    (ws.add file text).files = if file ∈ ws.files then ws.files else ws.files ++ [file] := by
  induction ws with
  | nil => rfl
  | cons w rest ih =>
    by_cases h : w.1 = file
    · simp [add, files, h]
    · simp only [files] at ih
      by_cases hrest : file ∈ rest.map (·.1)
      · simp [add, files, h, Ne.symm h, ih, hrest]
      · simp [add, files, h, Ne.symm h, ih, hrest]

end Warnings

/-- A journal holds what an earlier one does, followed by what another one does. -/
structure Journal.Continues (whole earlier later : Journal) : Prop where
  host_eq : whole.host = later.host
  events_eq : whole.events = earlier.events ++ later.events
  texts_eq : ∀ file, whole.warnings.texts file =
    earlier.warnings.texts file ++ later.warnings.texts file
  files_eq : whole.warnings.files =
    earlier.warnings.files ++ later.warnings.files.filter (· ∉ earlier.warnings.files)

namespace Journal

/-- A journal is its own continuation by one that holds nothing. -/
theorem continues_empty (j : Journal) : j.Continues j { host := j.host } where
  host_eq := rfl
  events_eq := (List.append_nil _).symm
  texts_eq _ := (List.append_nil _).symm
  files_eq := (List.append_nil _).symm

namespace Continues

variable {whole earlier later : Journal}

/-- Recording continues a journal. -/
theorem log (h : whole.Continues earlier later) (n : Notice) :
    (whole.log n).Continues earlier (later.log n) where
  host_eq := h.host_eq
  events_eq := by rw [events_log, events_log, h.events_eq, h.host_eq, List.append_assoc]
  texts_eq := h.texts_eq
  files_eq := h.files_eq

/-- A warning continues a journal. -/
theorem warn (h : whole.Continues earlier later) (file text : String) :
    (whole.warn file text).Continues earlier (later.warn file text) where
  host_eq := h.host_eq
  events_eq := by rw [events_warn, events_warn, h.events_eq, h.host_eq, List.append_assoc]
  texts_eq other := by
    change (whole.warnings.add file text).texts other =
      _ ++ (later.warnings.add file text).texts other
    rw [Warnings.texts_add, Warnings.texts_add, h.texts_eq, List.append_assoc]
  files_eq := by
    change (whole.warnings.add file text).files =
      _ ++ (later.warnings.add file text).files.filter _
    rw [Warnings.files_add, Warnings.files_add, h.files_eq]
    by_cases hearlier : file ∈ earlier.warnings.files
    · by_cases hlater : file ∈ later.warnings.files <;> simp [hearlier, hlater]
    · by_cases hlater : file ∈ later.warnings.files <;> simp [hearlier, hlater]

/-- A host that is filled in is filled in where nothing else is known either. -/
theorem identify (h : whole.Continues earlier later) (host : String) :
    (whole.identify host).Continues earlier (later.identify host) where
  host_eq := congrArg (· <|> some host) h.host_eq
  events_eq := h.events_eq
  texts_eq := h.texts_eq
  files_eq := h.files_eq

end Continues

end Journal

/-- A relation between journals that recording the same in both keeps. -/
structure KeptByRecording (R : Option Journal → Option Journal → Prop) : Prop where
  log : ∀ {j k : Option Journal} (n : Notice), R j k → R (j.map (·.log n)) (k.map (·.log n))
  warn : ∀ {j k : Option Journal} (file text : String), R j k →
    R (j.map (·.warn file text)) (k.map (·.warn file text))
  identify : ∀ {j k : Option Journal} (host : String), R j k →
    R (j.map (·.identify host)) (k.map (·.identify host))

namespace KeptByRecording

variable {R : Option Journal → Option Journal → Prop} {j k : Option Journal}

/-- Recording several things keeps the relation. -/
theorem logAll (hR : KeptByRecording R) (ns : List Notice) (h : R j k) :
    R (j.map (·.logAll ns)) (k.map (·.logAll ns)) := by
  induction ns generalizing j k with
  | nil => simpa only [Journal.logAll, List.foldl_nil, Option.map_id'] using h
  | cons n rest ih =>
    have hrest := ih (hR.log n h)
    rw [Option.map_map, Option.map_map] at hrest
    exact hrest

/-- Recording several warnings keeps the relation. -/
theorem warnAll (hR : KeptByRecording R) (file : String) (texts : List String) (h : R j k) :
    R (j.map (·.warnAll file texts)) (k.map (·.warnAll file texts)) := by
  induction texts generalizing j k with
  | nil => simpa only [Journal.warnAll, List.foldl_nil, Option.map_id'] using h
  | cons text rest ih =>
    have hrest := ih (hR.warn file text h)
    rw [Option.map_map, Option.map_map] at hrest
    exact hrest

end KeptByRecording

/-- One of two journals is not kept at all. -/
def IsUnkept (_ k : Option Journal) : Prop := k = none

/-- Both journals are kept, and the second one continues an earlier one by the first one. -/
def Journal.ContinuedBy (earlier : Journal) (j k : Option Journal) : Prop :=
  ∃ later whole, j = some later ∧ k = some whole ∧ whole.Continues earlier later

/-- The first journal is kept, and knows a host. -/
def Journal.KnownIn (host : String) (j _ : Option Journal) : Prop :=
  ∃ known, j = some known ∧ known.host = some host

/-- Where no journal is kept, nothing is recorded. -/
theorem keptByRecording_isUnkept : KeptByRecording IsUnkept where
  log _ h := by rw [IsUnkept] at h ⊢; rw [h, Option.map_none]
  warn _ _ h := by rw [IsUnkept] at h ⊢; rw [h, Option.map_none]
  identify _ h := by rw [IsUnkept] at h ⊢; rw [h, Option.map_none]

/-- What is recorded in a journal continues it as it continues one that began later. -/
theorem Journal.keptByRecording_continuedBy (earlier : Journal) :
    KeptByRecording earlier.ContinuedBy where
  log n := by
    rintro ⟨later, whole, rfl, rfl, h⟩
    exact ⟨_, _, rfl, rfl, h.log n⟩
  warn file text := by
    rintro ⟨later, whole, rfl, rfl, h⟩
    exact ⟨_, _, rfl, rfl, h.warn file text⟩
  identify host := by
    rintro ⟨later, whole, rfl, rfl, h⟩
    exact ⟨_, _, rfl, rfl, h.identify host⟩

/-- A host that is known is not forgotten. -/
theorem Journal.keptByRecording_knownIn (host : String) : KeptByRecording (KnownIn host) where
  log n := by
    rintro ⟨known, rfl, h⟩
    exact ⟨_, rfl, h⟩
  warn file text := by
    rintro ⟨known, rfl, h⟩
    exact ⟨_, rfl, h⟩
  identify other := by
    rintro ⟨known, rfl, h⟩
    refine ⟨_, rfl, ?_⟩
    change (known.host <|> some other) = some host
    rw [h]
    rfl

end HostConfig
