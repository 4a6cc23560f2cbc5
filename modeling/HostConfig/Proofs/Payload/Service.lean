import HostConfig.Proofs.Payload.Collected
import HostConfig.Proofs.Payload.Parts

/-!
# The grammar of services

A part of a line is read as the head of a service exactly when it is a name, maybe with a text in
brackets behind it. The text is a property list exactly when its comma parts are assignments, apart
from blank ones, and it sets the properties that these assign.
-/

namespace HostConfig.Payload

open HostConfig.Text

variable {payload name content rest : List Char} {parts : List (List Char)}
  {assigns : List Char → List Char → List Char → Prop}

/-- A name without blanks and brackets, and maybe a text in brackets behind it, with blanks allowed
between them. -/
def IsServiceHead (payload name : List Char) (content : Option (List Char)) : Prop :=
  name ≠ [] ∧ (∀ c ∈ name, isServiceChar c) ∧
    match content with
    | none => payload = name
    | some content => content ≠ [] ∧ ∃ gap, (∀ c ∈ gap, isBlank c) ∧
        payload = name ++ (gap ++ '[' :: (content ++ [']']))

/-- A text that stands in brackets is read without them, if something on one line is left. -/
theorem bracketed?_eq_some_iff (h : trimEnd rest = rest) : bracketed? rest = some content ↔
    content ≠ [] ∧ '\n' ∉ content ∧ rest = '[' :: (content ++ [']']) := by
  unfold bracketed?
  rw [h]
  constructor
  · intro hsome
    split at hsome
    · next tail inner hclose =>
      have hrest : '[' :: tail = inner.reverse ++ [']'] := by
        rw [← List.reverse_reverse ('[' :: tail), hclose, List.reverse_cons]
      cases hinner : inner.reverse with
      | nil =>
        rw [hinner] at hrest
        cases hrest
      | cons c text =>
        rw [hinner] at hsome hrest
        rw [List.cons_append] at hrest
        obtain ⟨rfl, rfl⟩ := List.cons.inj hrest
        simp only [List.drop_one, List.tail_cons] at hsome
        split at hsome
        · cases hsome
        · next hfilled =>
          cases hsome
          rw [Bool.or_eq_true, not_or, List.isEmpty_iff, List.contains_iff_mem] at hfilled
          exact ⟨hfilled.1, hfilled.2, rfl⟩
    · cases hsome
  · rintro ⟨hne, hbreak, rfl⟩
    simp [hne, hbreak]

/-- No blank may stand in the name of a service. -/
theorem not_isServiceChar {c : Char} (hc : isBlank c) : isServiceChar c = false := by
  simp [isServiceChar, isInk, hc]

/-- A name ends where a character stands that no name holds. -/
theorem takeWhile_name_append {c : Char} (hname : ∀ d ∈ name, isServiceChar d)
    (hc : isServiceChar c = false) (rest : List Char) :
    (name ++ c :: rest).takeWhile isServiceChar = name ∧
      (name ++ c :: rest).dropWhile isServiceChar = c :: rest := by
  rw [List.takeWhile_append_of_pos hname, List.dropWhile_append_of_pos hname]
  simp [hc]

/-- What is read as the head of a service is one, with a text on one line in its brackets. -/
theorem isServiceHead_of_serviceHead? (h : trimEnd payload = payload)
    {content : Option (List Char)} (hsome : serviceHead? payload = some (name, content)) :
    IsServiceHead payload name content ∧ '\n' ∉ content.getD [] := by
  have hsplit := List.takeWhile_append_dropWhile (p := isServiceChar) (l := payload)
  have hname : ∀ c ∈ payload.takeWhile isServiceChar, isServiceChar c := fun c hc =>
    List.all_eq_true.mp List.all_takeWhile c hc
  have hbehind : trimEnd (payload.dropWhile isServiceChar) = payload.dropWhile isServiceChar :=
    trimEnd_of_isSuffix h (List.dropWhile_suffix _)
  simp only [serviceHead?] at hsome
  split at hsome
  · cases hsome
  · next hne =>
    split at hsome
    · next hnone =>
      cases hsome
      have hend : payload.dropWhile isServiceChar = [] := by
        by_contra hfilled
        exact trimStart_ne_nil hbehind hfilled (List.isEmpty_iff.mp hnone)
      rw [hend, List.append_nil] at hsplit
      exact ⟨⟨by simpa using hne, hname, hsplit.symm⟩, List.not_mem_nil⟩
    · obtain ⟨inside, hinside, hpair⟩ := Option.map_eq_some_iff.mp hsome
      cases hpair
      have htrimmed := trimEnd_of_isSuffix hbehind (trimStart_isSuffix _)
      obtain ⟨hfilled, hbreak, hbrackets⟩ := (bracketed?_eq_some_iff htrimmed).mp hinside
      obtain ⟨gap, hgap, hrest⟩ := exists_gap (payload.dropWhile isServiceChar)
      refine ⟨⟨by simpa using hne, hname, hfilled, gap, hgap, ?_⟩, hbreak⟩
      rw [← hbrackets, hrest, hsplit]

/-- The head of a service with a text on one line in its brackets is read as what it is. -/
theorem IsServiceHead.serviceHead?_eq {content : Option (List Char)}
    (hhead : IsServiceHead payload name content) (h : trimEnd payload = payload)
    (hbreak : '\n' ∉ content.getD []) : serviceHead? payload = some (name, content) := by
  obtain ⟨hne, hname, hcontent⟩ := hhead
  cases content with
  | none =>
    subst hcontent
    have hall : payload.takeWhile isServiceChar = payload := List.takeWhile_eq_self_iff.mpr hname
    have hend : payload.dropWhile isServiceChar = [] := List.dropWhile_eq_nil_iff.mpr hname
    simp [serviceHead?, hall, hend, hne, trimStart]
  | some content =>
    obtain ⟨hfilled, gap, hgap, hpayload⟩ := hcontent
    have hcut : payload.takeWhile isServiceChar = name ∧
        payload.dropWhile isServiceChar = gap ++ '[' :: (content ++ [']']) := by
      rw [hpayload]
      cases gap with
      | nil => exact takeWhile_name_append hname (by decide) _
      | cons c gap =>
        exact takeWhile_name_append hname (not_isServiceChar (hgap c List.mem_cons_self)) _
    have hrest : trimStart (payload.dropWhile isServiceChar) = '[' :: (content ++ [']']) := by
      rw [hcut.2]
      have hmark : ∀ c ∈ ['['], isInk c := List.forall_mem_singleton.mpr (by decide)
      exact trimStart_gap (List.cons_ne_nil _ _) hmark hgap _
    have htrimmed : trimEnd ('[' :: (content ++ [']'])) = '[' :: (content ++ [']']) := by
      rw [← hrest]
      exact trimEnd_of_isSuffix h ((trimStart_isSuffix _).trans (List.dropWhile_suffix _))
    have hinside := (bracketed?_eq_some_iff htrimmed).mpr ⟨hfilled, hbreak, rfl⟩
    simp [serviceHead?, hcut.1, hrest, hne, hinside]

/-- Blanks behind brackets play no part. -/
theorem bracketed?_append_blanks {blanks : List Char} (hblanks : ∀ c ∈ blanks, isBlank c) :
    bracketed? (rest ++ blanks) = bracketed? rest := by
  unfold bracketed?
  rw [trimEnd_append_of_forall rest hblanks]
  cases rest with
  | cons c rest =>
    rw [List.cons_append]
    by_cases hc : c = '['
    · cases (trimEnd (c :: rest)).reverse with
      | nil => simp
      | cons d inner => by_cases hd : d = ']' <;> simp [hc, hd]
    · simp [hc]
  | nil =>
    cases blanks with
    | nil => rfl
    | cons c blanks =>
      have hc : c ≠ '[' := by
        rintro rfl
        exact absurd (hblanks '[' List.mem_cons_self) (by decide)
      simp [hc]

/-- Trailing blanks are kept behind what is left when a beginning is dropped. -/
theorem dropWhile_append_of_ne_nil {p : Char → Bool} {xs : List Char} (h : xs.dropWhile p ≠ [])
    (ys : List Char) : (xs ++ ys).dropWhile p = xs.dropWhile p ++ ys := by
  rw [List.dropWhile_append, if_neg (by simpa using h)]

/-- Blanks at the end of a payload play no part in the head of a service. -/
theorem serviceHead?_trimEnd (payload : List Char) :
    serviceHead? (trimEnd payload) = serviceHead? payload := by
  obtain ⟨blanks, hblanks, hpayload⟩ := exists_append_blanks payload
  have hend := trimEnd_trimEnd payload
  generalize trimEnd payload = body at hend hpayload
  subst hpayload
  have hsplit := List.takeWhile_append_dropWhile (p := isServiceChar) (l := body ++ blanks)
  have hbody := List.takeWhile_append_dropWhile (p := isServiceChar) (l := body)
  by_cases hnone : body.dropWhile isServiceChar = []
  · have hdrop : (body ++ blanks).dropWhile isServiceChar = blanks := by
      rw [List.dropWhile_append, hnone, if_pos List.isEmpty_nil, List.dropWhile_eq_self_iff]
      intro hpos
      rw [not_isServiceChar (hblanks _ (List.getElem_mem hpos))]
      exact Bool.false_ne_true
    have htake : (body ++ blanks).takeWhile isServiceChar = body.takeWhile isServiceChar := by
      rw [hnone, List.append_nil] at hbody
      rw [hdrop] at hsplit
      rw [hbody, List.append_cancel_right hsplit]
    have hempty : trimStart blanks = [] := trimStart_eq_nil_iff.mpr hblanks
    have hnil : trimStart [] = [] := rfl
    simp only [serviceHead?, hdrop, htake, hnone, hempty, hnil]
  · have hdrop := dropWhile_append_of_ne_nil hnone blanks
    have htake : (body ++ blanks).takeWhile isServiceChar = body.takeWhile isServiceChar := by
      rw [hdrop, ← List.append_assoc] at hsplit
      have hfront := List.append_cancel_right hsplit
      exact List.append_cancel_right (hfront.trans hbody.symm)
    have hrest : trimStart (body.dropWhile isServiceChar) ≠ [] :=
      trimStart_ne_nil (trimEnd_of_isSuffix hend (List.dropWhile_suffix _)) hnone
    have hstart : trimStart (body.dropWhile isServiceChar ++ blanks) =
        trimStart (body.dropWhile isServiceChar) ++ blanks := dropWhile_append_of_ne_nil hrest blanks
    simp [serviceHead?, hdrop, htake, hstart, hrest, bracketed?_append_blanks hblanks]

/-- A text is read as the head of a service exactly when it is one with a text on one line in its
brackets, up to blanks at its end. -/
theorem serviceHead?_eq_some_iff_trimEnd {content : Option (List Char)} :
    serviceHead? payload = some (name, content) ↔
      IsServiceHead (trimEnd payload) name content ∧ '\n' ∉ content.getD [] := by
  rw [← serviceHead?_trimEnd]
  have hend := trimEnd_trimEnd payload
  exact ⟨isServiceHead_of_serviceHead? hend, fun h => h.1.serviceHead?_eq hend h.2⟩

/-- What stands in the brackets of a service is a part of the line. -/
theorem IsServiceHead.notMem {content : Option (List Char)}
    (h : IsServiceHead payload name content) (hpayload : IsLinePart payload) :
    '\n' ∉ content.getD [] := by
  cases content with
  | none => exact List.not_mem_nil
  | some text =>
    obtain ⟨-, -, -, gap, -, hpair⟩ := h
    intro hmem
    rw [Option.getD_some] at hmem
    exact hpayload.notMem (by simp [hpair, hmem])

/-- A part of a line is read as the head of a service exactly when it is one. -/
theorem serviceHead?_eq_some_iff (h : IsLinePart payload) {content : Option (List Char)} :
    serviceHead? payload = some (name, content) ↔ IsServiceHead payload name content :=
  ⟨fun hsome => (isServiceHead_of_serviceHead? h.trimEnd_eq hsome).1,
    fun hhead => hhead.serviceHead?_eq h.trimEnd_eq (hhead.notMem h)⟩

/-- The comma parts of a text that are not blank, trimmed, are assignments. -/
def IsPropertyList (content : List Char) : Prop :=
  ∀ part ∈ pieces ',' content, (∃ c ∈ part, isInk c) →
    ∃ key value, IsAssignment (trim part) key value

/-- The text in the brackets of a service is a property list, if there is one. -/
theorem isPropertyList_getD {content : Option (List Char)} :
    IsPropertyList (content.getD []) ↔ ∀ text ∈ content, IsPropertyList text := by
  cases content with
  | none => simp [IsPropertyList, pieces]
  | some text => simp

/-- Parts of a list set properties, where each part assigns a text to a key in a given sense. -/
def SetByParts (assigns : List Char → List Char → List Char → Prop) (parts : List (List Char))
    (props : Properties) : Prop :=
  ∃ pairs, List.Forall₂ (fun part pair => assigns part pair.1 pair.2) parts pairs ∧
    props.IsSetBy pairs

/-- A list sets the properties that its parts assign. -/
def SetsProperties (content : List Char) (props : Properties) : Prop :=
  ∃ parts, HasParts content parts ∧ SetByParts Assigns parts props

/-- Parts are added as the properties that they are read as. -/
theorem addProperties_eq_ok_iff {props props' : Properties}
    (h : ∀ part ∈ parts, ∀ {key value}, assignment? part = some (key, value) ↔
      assigns part key value) :
    addProperties props parts = .ok props' ↔
      ∃ pairs, List.Forall₂ (fun part pair => assigns part pair.1 pair.2) parts pairs ∧
        props' = props.setAll pairs := by
  induction parts generalizing props with
  | nil => simp [addProperties, Properties.setAll, eq_comm]
  | cons part rest ih =>
    obtain ⟨hpart, hrest⟩ := List.forall_mem_cons.mp h
    rw [addProperties]
    cases hassign : assignment? part with
    | none =>
      refine iff_of_false (fun hok => by cases hok) ?_
      rintro ⟨pairs, hpairs, -⟩
      obtain ⟨pair, -, hassigns, -, -⟩ := List.forall₂_cons_left_iff.mp hpairs
      rw [← hpart, hassign] at hassigns
      cases hassigns
    | some pair =>
      obtain ⟨key, value⟩ := pair
      have hassigns := hpart.mp hassign
      rw [ih hrest]
      constructor
      · rintro ⟨pairs, hpairs, rfl⟩
        exact ⟨(key, value) :: pairs, .cons hassigns hpairs, rfl⟩
      · rintro ⟨pairs, hpairs, rfl⟩
        obtain ⟨⟨key', value'⟩, later, hassigns', hlater, rfl⟩ :=
          List.forall₂_cons_left_iff.mp hpairs
        rw [← hpart, hassign] at hassigns'
        cases hassigns'
        exact ⟨later, hlater, rfl⟩

/-- The items of a list can all be related to something exactly when each can be. -/
theorem exists_forall₂_iff {α β : Type} {R : α → β → Prop} {xs : List α} :
    (∃ ys, List.Forall₂ R xs ys) ↔ ∀ x ∈ xs, ∃ y, R x y := by
  induction xs with
  | nil => simp
  | cons x rest ih =>
    rw [List.forall_mem_cons, ← ih]
    constructor
    · rintro ⟨ys, hys⟩
      obtain ⟨y, later, hxy, hlater, -⟩ := List.forall₂_cons_left_iff.mp hys
      exact ⟨⟨y, hxy⟩, later, hlater⟩
    · rintro ⟨⟨y, hxy⟩, later, hlater⟩
      exact ⟨y :: later, .cons hxy hlater⟩

/-- A list is read as the properties that its parts set in the sense in which each is read. -/
theorem properties_eq_ok_iff_setByParts {props : Properties}
    (h : ∀ part ∈ propertyParts content, ∀ {key value}, assignment? part = some (key, value) ↔
      assigns part key value) :
    properties content = .ok props ↔ SetByParts assigns (propertyParts content) props := by
  simp only [SetByParts, Properties.isSetBy_iff]
  exact addProperties_eq_ok_iff h

/-- Parts set properties if each of them assigns something. -/
theorem exists_setByParts_iff : (∃ props, SetByParts assigns parts props) ↔
    ∀ part ∈ parts, ∃ key value, assigns part key value := by
  have hpair : ∀ part, (∃ key value, assigns part key value) ↔
      ∃ pair : List Char × List Char, assigns part pair.1 pair.2 := fun part => by rw [Prod.exists]
  simp only [hpair, ← exists_forall₂_iff]
  constructor
  · rintro ⟨props, pairs, hpairs, -⟩
    exact ⟨pairs, hpairs⟩
  · rintro ⟨pairs, hpairs⟩
    exact ⟨_, pairs, hpairs, Properties.isSetBy_iff.mpr rfl⟩

/-- Parts set the same properties in a weaker sense. -/
theorem SetByParts.imp {weaker : List Char → List Char → List Char → Prop} {props : Properties}
    (hset : SetByParts assigns parts props)
    (h : ∀ part ∈ parts, ∀ key value, assigns part key value → weaker part key value) :
    SetByParts weaker parts props := by
  obtain ⟨pairs, hpairs, hprops⟩ := hset
  refine ⟨pairs, ?_, hprops⟩
  rw [List.forall₂_iff_zip] at hpairs ⊢
  exact ⟨hpairs.1, fun hmem => h _ (List.of_mem_zip hmem).1 _ _ (hpairs.2 hmem)⟩

/-- The properties that a list sets are those of the parts that it is read as. -/
theorem setsProperties_iff {props : Properties} :
    SetsProperties content props ↔ SetByParts Assigns (propertyParts content) props := by
  simp only [SetsProperties, hasParts_iff, exists_eq_left]

/-- The text of a property list sets the properties that its parts assign. -/
theorem properties_eq_ok_iff (h : '\n' ∉ content) {props : Properties} :
    properties content = .ok props ↔ SetsProperties content props := by
  rw [setsProperties_iff]
  exact properties_eq_ok_iff_setByParts fun part hpart =>
    assignment?_eq_some_iff (isLinePart_of_mem_propertyParts h part hpart)

/-- A text on a line sets properties exactly when it is a property list. -/
theorem exists_setsProperties_iff (h : '\n' ∉ content) :
    (∃ props, SetsProperties content props) ↔ IsPropertyList content := by
  have hlist : IsPropertyList content ↔
      ∀ part ∈ propertyParts content, ∃ key value, IsAssignment part key value :=
    (forall_mem_propertyParts_iff (P := fun part => ∃ key value, IsAssignment part key value)).symm
  simp only [setsProperties_iff, exists_setByParts_iff, hlist]
  exact forall₂_congr fun part hpart =>
    exists_assigns_iff (isLinePart_of_mem_propertyParts h part hpart)

end HostConfig.Payload
