import HostConfig.Proofs.Json.Lexeme
import HostConfig.Proofs.Json.Tree

/-!
# Reading written values back

A text reads as a value if the reader takes the value off any longer text that begins with it,
within a number of steps that is bounded by its length. All that spells a value reads as it, so that
no text spells two values. The compact text of a value and its text on lines spell it.
-/

namespace HostConfig.Json

open HostConfig.Text

/-- A text begins with what a value can begin with: neither a blank nor a closing bracket. -/
def BeginsValue (text : List Char) : Prop :=
  ∃ c tail, text = c :: tail ∧ c ∉ [' ', '\t', '\n', '\r', ']', '\x7d']

/-- The reader takes a value off any text that begins with a given one, with two steps for each
character. -/
structure Reads (text : List Char) (v : Value) : Prop where
  begins : BeginsValue text
  readValue_eq : ∀ fuel rest, 2 * text.length ≤ fuel → EndsNumber rest →
    readValue fuel (text ++ rest) = some (v, rest)

variable {gap text rest : List Char} {v : Value} {fuel : Nat}

/-- No blanks are skipped where a value begins. -/
theorem skipBlanks_of_begins (h : BeginsValue text) : skipBlanks text = text := by
  obtain ⟨c, tail, rfl, hc⟩ := h
  simp only [List.mem_cons, List.not_mem_nil, or_false, not_or] at hc
  simp [skipBlanks, hc]

/-- Blanks before a value are skipped. -/
theorem readValue_gap (hgap : IsGap gap) (cs : List Char) :
    readValue fuel (gap ++ cs) = readValue fuel cs := by
  cases fuel with
  | zero => rfl
  | succ fuel => rw [readValue, readValue, skipBlanks_append hgap]

/-- Blanks before items are skipped. -/
theorem readItems_gap (hgap : IsGap gap) (cs : List Char) :
    readItems fuel (gap ++ cs) = readItems fuel cs := by
  cases fuel with
  | zero => rfl
  | succ fuel => rw [readItems, readItems, readValue_gap hgap]

/-- Blanks before members are skipped. -/
theorem readMembers_gap (hgap : IsGap gap) (cs : List Char) :
    readMembers fuel (gap ++ cs) = readMembers fuel cs := by
  cases fuel with
  | zero => rfl
  | succ fuel => rw [readMembers, readMembers, skipBlanks_append hgap]

/-- No number goes on with what can follow a value. -/
theorem endsNumber_cons {c : Char} (h : c.isDigit = false) (rest : List Char) :
    EndsNumber (c :: rest) := by
  rintro _ ⟨⟩
  exact h

/-- No number goes on with blanks that something else follows. -/
theorem endsNumber_gap {c : Char} (hgap : IsGap gap) (h : c.isDigit = false) (rest : List Char) :
    EndsNumber (gap ++ c :: rest) := by
  cases gap with
  | nil => exact endsNumber_cons h rest
  | cons d gap =>
    refine endsNumber_cons ?_ _
    rcases hgap d List.mem_cons_self with rfl | rfl | rfl | rfl <;> decide

/-- What begins with a value does so too when it goes on. -/
theorem BeginsValue.append (h : BeginsValue text) (rest : List Char) :
    BeginsValue (text ++ rest) := by
  obtain ⟨c, tail, rfl, hc⟩ := h
  exact ⟨c, tail ++ rest, rfl, hc⟩

/-- Where a value begins, nothing is closed. -/
theorem BeginsValue.ne_close (h : BeginsValue text) {rest : List Char} :
    text ≠ ']' :: rest ∧ text ≠ '\x7d' :: rest := by
  obtain ⟨c, tail, rfl, hc⟩ := h
  constructor
  · rintro ⟨⟩
    exact hc (by decide)
  · rintro ⟨⟩
    exact hc (by decide)

/-- A reader of lists takes one element after the other, up to the closing bracket. -/
structure ReadsList {α : Type} (read : Nat → List Char → Option (List α × List Char)) (close : Char)
    (R : List Char → α → Prop) : Prop where
  begins : ∀ {text a}, R text a → BeginsValue text
  read_gap : ∀ {fuel gap}, IsGap gap → ∀ cs, read fuel (gap ++ cs) = read fuel cs
  read_last : ∀ {fuel text a gap}, R text a → 2 * text.length ≤ fuel → IsGap gap → ∀ rest,
    read (fuel + 1) (text ++ (gap ++ close :: rest)) = some ([a], rest)
  read_more : ∀ {fuel text a gap}, R text a → 2 * text.length ≤ fuel → IsGap gap → ∀ rest,
    read (fuel + 1) (text ++ (gap ++ ',' :: rest)) =
      (read fuel rest).map fun p => (a :: p.1, p.2)

section

variable {α : Type} {read : Nat → List Char → Option (List α × List Char)} {close : Char}
  {R : List Char → α → Prop} {elements : List α}

/-- What spells elements is read as these, up to the closing bracket. -/
theorem ReadsList.read_append (hread : ReadsList read close R) (h : SpellsList R text elements)
    (hfuel : 2 * text.length + 1 ≤ fuel) (rest : List Char) :
    read fuel (text ++ close :: rest) = some (elements, rest) := by
  induction h generalizing fuel with
  | last hgap helement hgap' =>
    simp only [List.length_append] at hfuel
    obtain ⟨fuel, rfl⟩ : ∃ n, fuel = n + 1 := ⟨fuel - 1, by omega⟩
    simp only [List.append_assoc]
    rw [hread.read_gap hgap, hread.read_last helement (by omega) hgap']
  | more hgap helement hgap' hrest ih =>
    simp only [List.length_append, List.length_cons] at hfuel
    obtain ⟨fuel, rfl⟩ : ∃ n, fuel = n + 1 := ⟨fuel - 1, by omega⟩
    simp only [List.append_assoc, List.cons_append]
    rw [hread.read_gap hgap, hread.read_more helement (by omega) hgap', ih (by omega)]
    rfl

/-- Behind an opening bracket stand blanks, and then elements that are read. -/
theorem ReadsList.read_inner (hread : ReadsList read close R) (h : SpellsList R text elements)
    (hfuel : 2 * text.length + 1 ≤ fuel) (rest : List Char) :
    BeginsValue (skipBlanks (text ++ close :: rest)) ∧
      read fuel (skipBlanks (text ++ close :: rest)) = some (elements, rest) := by
  have hskip : ∃ gap inner, text = gap ++ inner ∧ IsGap gap ∧ BeginsValue inner := by
    cases h with
    | last hgap helement hgap' => exact ⟨_, _, rfl, hgap, (hread.begins helement).append _⟩
    | more hgap helement hgap' hrest => exact ⟨_, _, rfl, hgap, (hread.begins helement).append _⟩
  obtain ⟨gap, inner, rfl, hgap, hinner⟩ := hskip
  have hbegins := hinner.append (close :: rest)
  have hall := hread.read_append h hfuel rest
  rw [List.append_assoc, hread.read_gap hgap] at hall
  rw [List.append_assoc, skipBlanks_append hgap, skipBlanks_of_begins hbegins]
  exact ⟨hbegins, hall⟩

end

/-- The items of an array are read one after the other. -/
theorem readsList_readItems : ReadsList readItems ']' Reads where
  begins htext := htext.begins
  read_gap hgap cs := readItems_gap hgap cs
  read_last htext hfuel hgap rest := by
    rw [readItems, htext.readValue_eq _ _ hfuel (endsNumber_gap hgap (by decide) rest)]
    simp only [skipBlanks_append hgap]
    rfl
  read_more htext hfuel hgap rest := by
    rw [readItems, htext.readValue_eq _ _ hfuel (endsNumber_gap hgap (by decide) rest)]
    simp only [skipBlanks_append hgap]
    rfl

/-- A member is read off the text that spells it, and what is behind it tells whether others are
read. -/
theorem readMembers_of_member {m : String × Value} (h : SpellsMember Reads text m)
    (hfuel : 2 * text.length ≤ fuel) (hrest : EndsNumber rest) {behind : List Char} :
    (skipBlanks rest = '\x7d' :: behind →
      readMembers (fuel + 1) (text ++ rest) = some ([m], behind)) ∧
    (skipBlanks rest = ',' :: behind →
      readMembers (fuel + 1) (text ++ rest) =
        (readMembers fuel behind).map fun p => (m :: p.1, p.2)) := by
  cases h with
  | keyed hkey hgap hgap' hvalue =>
    simp only [List.length_append, List.length_cons] at hfuel
    have hquote : ∀ cs, skipBlanks ('"' :: cs) = '"' :: cs := fun _ => rfl
    have hcolon : ∀ cs, skipBlanks (':' :: cs) = ':' :: cs := fun _ => rfl
    have hread := hvalue.readValue_eq fuel rest (by omega) hrest
    simp only [List.append_assoc, List.cons_append]
    rw [readMembers, hquote]
    simp only [hkey.readString_append, skipBlanks_append hgap, hcolon, readValue_gap hgap', hread,
      String.ofList_toList]
    constructor
    · intro hlast
      simp only [hlast]
    · intro hmore
      simp only [hmore]

/-- The members of an object are read one after the other. -/
theorem readsList_readMembers : ReadsList readMembers '\x7d' (SpellsMember Reads) where
  begins htext := by
    cases htext
    exact ⟨'"', _, rfl, by decide⟩
  read_gap hgap cs := readMembers_gap hgap cs
  read_last htext hfuel hgap rest :=
    (readMembers_of_member htext hfuel (endsNumber_gap hgap (by decide) rest)).1
      (skipBlanks_append hgap _)
  read_more htext hfuel hgap rest :=
    (readMembers_of_member htext hfuel (endsNumber_gap hgap (by decide) rest)).2
      (skipBlanks_append hgap _)

/-- A text that holds a value is read in one step and those that its parts take. -/
theorem reads_of_step (hbegins : BeginsValue text)
    (h : ∀ fuel rest, 2 * text.length ≤ fuel + 1 → EndsNumber rest →
      readValue (fuel + 1) (text ++ rest) = some (v, rest)) :
    Reads text v where
  begins := hbegins
  readValue_eq fuel rest hfuel hrest := by
    obtain ⟨c, tail, rfl, -⟩ := hbegins
    rw [List.length_cons] at hfuel
    obtain ⟨fuel, rfl⟩ : ∃ n, fuel = n + 1 := ⟨fuel - 1, by omega⟩
    exact h fuel rest (by rw [List.length_cons]; omega) hrest

/-- What spells an integer reads as it. -/
theorem SpellsInt.reads {n : Int} (h : SpellsInt text n) : Reads text (.int n) := by
  obtain ⟨c, tail, rfl, hc⟩ := h.begins
  have hbegins : BeginsValue (c :: tail) := by
    refine ⟨c, tail, rfl, fun hmem => ?_⟩
    simp only [List.mem_cons, List.not_mem_nil, or_false] at hmem
    rcases hmem with rfl | rfl | rfl | rfl | rfl | rfl <;> exact absurd hc (by decide)
  refine reads_of_step hbegins fun fuel rest _ hrest => ?_
  have hhead : ∀ {d rest'}, c :: tail ++ rest = d :: rest' → d = '-' ∨ d.isDigit = true := by
    intro d rest' heq
    exact (List.cons.inj heq).1 ▸ hc
  rw [readValue, skipBlanks_of_begins (hbegins.append rest)]
  -- No word, quote or bracket begins like a number.
  split
  case h_1 heq | h_2 heq | h_3 heq | h_4 heq | h_5 heq | h_6 heq =>
    exact absurd (hhead heq) (by decide)
  case h_7 =>
    rw [h.readInt?_append hrest]
    rfl

/-- An array is read behind its opening bracket. -/
theorem readValue_bracket (fuel : Nat) (cs : List Char) :
    readValue (fuel + 1) ('[' :: cs) =
      match skipBlanks cs with
      | ']' :: rest => some (.arr [], rest)
      | rest => (readItems fuel rest).map fun p => (.arr p.1, p.2) := rfl

/-- An object is read behind its opening brace. -/
theorem readValue_brace (fuel : Nat) (cs : List Char) :
    readValue (fuel + 1) ('\x7b' :: cs) =
      match skipBlanks cs with
      | '\x7d' :: rest => some (.obj [], rest)
      | rest => (readMembers fuel rest).map fun p => (.obj p.1, p.2) := rfl

/-- What spells a value reads as it. -/
theorem SpellsValue.reads (h : SpellsValue text v) : Reads text v := by
  refine SpellsValue.induction h ?null ?bool ?int ?str ?arr_nil ?arr ?obj_nil ?obj
  case null => exact reads_of_step ⟨'n', _, rfl, by decide⟩ fun _ _ _ _ => rfl
  case bool =>
    rintro (_ | _)
    · exact reads_of_step ⟨'f', _, rfl, by decide⟩ fun _ _ _ _ => rfl
    · exact reads_of_step ⟨'t', _, rfl, by decide⟩ fun _ _ _ _ => rfl
  case int => exact fun h => h.reads
  case str =>
    intro _ _ h
    refine reads_of_step ⟨'"', _, rfl, by decide⟩ fun fuel rest _ _ => ?_
    have hopen : ∀ cs, skipBlanks ('"' :: cs) = '"' :: cs := fun _ => rfl
    simp only [List.cons_append, List.append_assoc, List.nil_append]
    rw [readValue, hopen]
    simp only [h.readString_append, Option.map_some, String.ofList_toList]
  case arr_nil =>
    intro _ hgap
    refine reads_of_step ⟨'[', _, rfl, by decide⟩ fun fuel rest _ _ => ?_
    simp only [List.cons_append, List.append_assoc, List.nil_append]
    rw [readValue_bracket, skipBlanks_append hgap]
    rfl
  case arr =>
    intro text items h
    refine reads_of_step ⟨'[', _, rfl, by decide⟩ fun fuel rest hfuel _ => ?_
    have hfuel : 2 * text.length + 1 ≤ fuel := by
      simp only [List.length_cons, List.length_append] at hfuel
      omega
    obtain ⟨hbegins, hitems⟩ := readsList_readItems.read_inner h hfuel rest
    simp only [List.cons_append, List.append_assoc, List.nil_append]
    rw [readValue_bracket]
    split
    · next heq => exact absurd heq hbegins.ne_close.1
    · rw [hitems]
      rfl
  case obj_nil =>
    intro _ hgap
    refine reads_of_step ⟨'\x7b', _, rfl, by decide⟩ fun fuel rest _ _ => ?_
    simp only [List.cons_append, List.append_assoc, List.nil_append]
    rw [readValue_brace, skipBlanks_append hgap]
    rfl
  case obj =>
    intro text members h
    refine reads_of_step ⟨'\x7b', _, rfl, by decide⟩ fun fuel rest hfuel _ => ?_
    have hfuel : 2 * text.length + 1 ≤ fuel := by
      simp only [List.length_cons, List.length_append] at hfuel
      omega
    obtain ⟨hbegins, hmembers⟩ := readsList_readMembers.read_inner h hfuel rest
    simp only [List.cons_append, List.append_assoc, List.nil_append]
    rw [readValue_brace]
    split
    · next heq => exact absurd heq hbegins.ne_close.2
    · rw [hmembers]
      rfl

/-- A text that spells a value is read as that value, whatever blanks stand around it. -/
theorem SpellsText.read? (h : SpellsText text v) : Value.read? text = some v := by
  obtain ⟨gap, written, gap', rfl, hgap, hwritten, hgap'⟩ := h
  have hend : EndsNumber gap' := by
    cases gap' with
    | nil => rintro _ ⟨⟩
    | cons c gap' =>
      refine endsNumber_cons ?_ gap'
      rcases hgap' c List.mem_cons_self with rfl | rfl | rfl | rfl <;> decide
  have hnothing : skipBlanks gap' = [] := by
    have hskip := skipBlanks_append hgap' []
    rwa [List.append_nil] at hskip
  have hlength : 2 * written.length ≤ 2 * (gap ++ (written ++ gap')).length + 2 := by
    simp only [List.length_append]
    omega
  rw [Value.read?, readValue_gap hgap, hwritten.reads.readValue_eq _ gap' hlength hend]
  simp [hnothing]

/-- No text spells two values. -/
theorem SpellsText.unique {w : Value} (h : SpellsText text v) (h' : SpellsText text w) : v = w :=
  Option.some.inj (h.read?.symm.trans h'.read?)

/-- Texts that spell elements, with commas and blanks between them, spell a list. -/
theorem spellsList_joinWith {α : Type} {R : List Char → α → Prop} {write : α → List Char}
    {elements : List α} {between gap gap' : List Char} (hgap : IsGap gap) (hbetween : IsGap between)
    (hgap' : IsGap gap') (hsome : elements ≠ []) (h : ∀ a ∈ elements, R (write a) a) :
    SpellsList R (gap ++ (joinWith (',' :: between) (elements.map write) ++ gap')) elements := by
  induction elements generalizing gap with
  | nil => exact absurd rfl hsome
  | cons a elements ih =>
    obtain ⟨ha, hothers⟩ := List.forall_mem_cons.mp h
    cases elements with
    | nil => exact .last hgap ha hgap'
    | cons b elements =>
      have hmore := SpellsList.more hgap ha isGap_nil
        (ih hbetween (List.cons_ne_nil b elements) hothers)
      simpa [joinWith] using hmore

/-- A string in quotes spells the string. -/
theorem spells_quote (s : String) : SpellsValue (quote s) (.str s) := by
  have hspells := SpellsValue.str (spellsChars_flatMap_escape s.toList)
  rwa [← List.cons_append] at hspells

/-- A key in quotes, a colon, blanks and a value spell a member. -/
theorem spellsMember_quote {m : String × Value} (hgap : IsGap gap) (h : SpellsValue text m.2) :
    SpellsMember SpellsValue (quote m.1 ++ ':' :: (gap ++ text)) m := by
  have hmember := SpellsMember.keyed (spellsChars_flatMap_escape m.1.toList) isGap_nil hgap h
  simpa [quote] using hmember

/-- The compact text of a value spells it. -/
theorem Value.spells_compact (v : Value) : SpellsValue v.compact v := by
  induction v using Value.induction with
  | null => exact .null
  | bool b => cases b with
    | true => exact .bool true
    | false => exact .bool false
  | int n => exact .int (spellsInt_toString n)
  | str s => exact spells_quote s
  | arr items ih =>
    rw [compact, compactItems_eq_map]
    cases items with
    | nil => exact .arr_nil isGap_nil
    | cons v items =>
      have hitems := spellsList_joinWith isGap_nil isGap_nil isGap_nil (List.cons_ne_nil v items) ih
      simpa using SpellsValue.arr hitems
  | obj members ih =>
    rw [compact, compactMembers_eq_map]
    cases members with
    | nil => exact .obj_nil isGap_nil
    | cons m members =>
      have hmembers := spellsList_joinWith isGap_nil isGap_nil isGap_nil
        (List.cons_ne_nil m members) fun m hm => spellsMember_quote isGap_nil (ih m hm)
      simpa using SpellsValue.obj hmembers

/-- The text of a value on lines spells it, from any level on. -/
theorem Value.spells_pretty (v : Value) (level : Nat) : SpellsValue (v.pretty level) v := by
  induction v using Value.induction generalizing level with
  | null => exact .null
  | bool b => cases b with
    | true => exact .bool true
    | false => exact .bool false
  | int n => exact .int (spellsInt_toString n)
  | str s => exact spells_quote s
  | arr items ih =>
    cases items with
    | nil => exact .arr_nil isGap_nil
    | cons v items =>
      rw [pretty, prettyItems_eq_map]
      have hitems := spellsList_joinWith (isGap_newLine (level + 1)) (isGap_newLine (level + 1))
        (isGap_newLine level) (List.cons_ne_nil v items) fun w hw => ih w hw (level + 1)
      simpa only [List.cons_append, List.append_assoc] using SpellsValue.arr hitems
  | obj members ih =>
    cases members with
    | nil => exact .obj_nil isGap_nil
    | cons m members =>
      rw [pretty, prettyMembers_eq_map]
      have hspace : IsGap [' '] := fun c hc => Or.inl (List.mem_singleton.mp hc)
      have hmembers := spellsList_joinWith (isGap_newLine (level + 1)) (isGap_newLine (level + 1))
        (isGap_newLine level) (List.cons_ne_nil m members)
        fun m hm => spellsMember_quote hspace (ih m hm (level + 1))
      simpa only [List.cons_append, List.nil_append, List.append_assoc] using
        SpellsValue.obj hmembers

/-- Behind what spells a value there may be blanks. -/
theorem SpellsValue.append_gap (h : SpellsValue text v) (hgap : IsGap gap) :
    SpellsText (text ++ gap) v :=
  ⟨[], text, gap, rfl, isGap_nil, h, hgap⟩

/-- Different values have different compact texts. -/
theorem Value.compact_injective : Function.Injective Value.compact := by
  intro v w h
  have hv := v.spells_compact.append_gap isGap_nil
  rw [h] at hv
  exact hv.unique (w.spells_compact.append_gap isGap_nil)

end HostConfig.Json
