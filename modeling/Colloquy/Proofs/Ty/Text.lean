import Colloquy.Proofs.Text.Blank
import Colloquy.Ty.Text

namespace Colloquy.Ty

/-- A name with something in it and no blanks around. -/
def IsName (s : String) : Prop :=
  s ≠ "" ∧ Text.strip s.toList = s.toList

/-- An entry of an enumeration, which ends at the next comma. -/
def IsEntry (s : String) : Prop :=
  IsName s ∧ ',' ∉ s.toList

/-- Whether the written form of a type tells all of it. -/
def IsWritable : Ty → Prop
  | entity name => IsName name
  | measure unit => IsName unit
  | enum entries => entries ≠ [] ∧ ∀ e ∈ entries, IsEntry e
  | array elem => elem.IsWritable
  | _ => True

section Entries

theorem splitCommas_ne_nil (cs : List Char) : splitCommas cs ≠ [] := by
  cases cs with
  | nil => simp [splitCommas]
  | cons c rest =>
    unfold splitCommas
    split
    · simp
    · split <;> simp

theorem splitCommas_cons_of_ne {c : Char} (rest : List Char) (h : c ≠ ',') :
    ∃ part parts, splitCommas rest = part :: parts ∧
      splitCommas (c :: rest) = (c :: part) :: parts := by
  obtain ⟨part, parts, hs⟩ := List.exists_cons_of_ne_nil (splitCommas_ne_nil rest)
  exact ⟨part, parts, hs, by simp [splitCommas, h, hs]⟩

theorem splitCommas_of_not_mem {part : List Char} (h : ',' ∉ part) : splitCommas part = [part] := by
  induction part with
  | nil => rfl
  | cons c rest ih =>
    simp only [List.mem_cons, not_or] at h
    simp [splitCommas, Ne.symm h.1, ih h.2]

theorem splitCommas_append {part : List Char} (rest : List Char) (h : ',' ∉ part) :
    splitCommas (part ++ ',' :: rest) = part :: splitCommas rest := by
  induction part with
  | nil => simp [splitCommas]
  | cons c part ih =>
    simp only [List.mem_cons, not_or] at h
    simp [splitCommas, Ne.symm h.1, ih h.2]

theorem splitCommas_intercalate {parts : List (List Char)} (hne : parts ≠ [])
    (h : ∀ part ∈ parts, ',' ∉ part) : splitCommas ([','].intercalate parts) = parts := by
  induction parts with
  | nil => exact absurd rfl hne
  | cons part rest ih =>
    have hpart := h part List.mem_cons_self
    cases rest with
    | nil => simpa using splitCommas_of_not_mem hpart
    | cons next rest =>
      have hrest := ih (by simp) fun q hq => h q (List.mem_cons_of_mem _ hq)
      rw [List.intercalate_cons_cons, List.append_assoc, List.singleton_append,
        splitCommas_append _ hpart, hrest]

theorem comma_not_mem_of_mem_splitCommas {cs part : List Char} (h : part ∈ splitCommas cs) :
    ',' ∉ part := by
  induction cs generalizing part with
  | nil =>
    rw [List.mem_singleton.mp h]
    exact List.not_mem_nil
  | cons c rest ih =>
    by_cases hc : c = ','
    · rw [hc, splitCommas] at h
      rcases List.mem_cons.mp h with rfl | h
      · exact List.not_mem_nil
      · exact ih h
    · obtain ⟨first, parts, hrest, hs⟩ := splitCommas_cons_of_ne rest hc
      rw [hs] at h
      rcases List.mem_cons.mp h with rfl | h
      · have hfirst : ',' ∉ first := ih (hrest ▸ List.mem_cons_self)
        simp [Ne.symm hc, hfirst]
      · exact ih (hrest ▸ List.mem_cons_of_mem _ h)

theorem isEntry_of_mem_readEntries {cs : List Char} {e : String} (h : e ∈ readEntries cs) :
    IsEntry e := by
  simp only [readEntries, List.mem_map, List.mem_filter] at h
  obtain ⟨_, ⟨⟨part, hpart, rfl⟩, hne⟩, rfl⟩ := h
  refine ⟨⟨?_, ?_⟩, ?_⟩
  · intro hempty
    simp [← String.toList_inj] at hempty
    simp [hempty] at hne
  · rw [String.toList_ofList, Text.strip_strip]
  · rw [String.toList_ofList]
    exact fun hc => comma_not_mem_of_mem_splitCommas hpart ((Text.strip_sublist part).mem hc)

theorem readEntries_intercalate {entries : List String} (hne : entries ≠ [])
    (h : ∀ e ∈ entries, IsEntry e) :
    readEntries ([','].intercalate (entries.map String.toList)) = entries := by
  have hparts : ∀ part ∈ entries.map String.toList, ',' ∉ part := by
    intro part hp
    obtain ⟨e, he, rfl⟩ := List.mem_map.mp hp
    exact (h e he).2
  have hstrip : (entries.map String.toList).map Text.strip = entries.map String.toList := by
    rw [List.map_map]
    exact List.map_congr_left fun e he => (h e he).1.2
  have hfull : (entries.map String.toList).filter (!·.isEmpty) = entries.map String.toList := by
    refine List.filter_eq_self.mpr fun part hp => ?_
    obtain ⟨e, he, rfl⟩ := List.mem_map.mp hp
    simpa using (h e he).1.1
  rw [readEntries, splitCommas_intercalate (by simpa using hne) hparts, hstrip, hfull, List.map_map]
  simp [Function.comp_def]

end Entries

section Parts

/-- What a text of three parts says, by its head. -/
def ofParts (text head : String) (argument : List Char) : Except TextError Ty :=
  if head = "Array" then
    (read argument).map array
  else if head = "Entity" && !argument.isEmpty then
    .ok (entity (String.ofList argument))
  else if head = "Measure" && !argument.isEmpty then
    .ok (measure (String.ofList argument))
  else if head = "Enum" then
    if (readEntries argument).isEmpty then .error (.noEntries text)
    else .ok (enum (readEntries argument))
  else
    .error (.unknown text)

theorem read_of_mem {cs : List Char} (hopen : '(' ∈ Text.strip cs)
    (hclose : (Text.strip cs).getLast? = some ')') :
    read cs = ofParts (String.ofList (Text.strip cs)) (String.ofList (headOf (Text.strip cs)))
      (argumentOf (Text.strip cs)) := by
  rw [read]
  simp [hopen, hclose, ofParts]

theorem read_of_not_mem {cs : List Char} (h : '(' ∉ Text.strip cs) :
    read cs = readSimple (String.ofList (Text.strip cs)) := by
  rw [read]
  simp [h]

def compose (head : String) (argument : List Char) : List Char :=
  head.toList ++ '(' :: argument ++ [')']

theorem mem_compose (head : String) (argument : List Char) : '(' ∈ compose head argument := by
  simp [compose]

theorem getLast?_compose (head : String) (argument : List Char) :
    (compose head argument).getLast? = some ')' :=
  List.getLast?_concat

theorem eq_of_mem_argumentHeads {head : String} (h : head ∈ argumentHeads) :
    head = "Entity" ∨ head = "Enum" ∨ head = "Measure" ∨ head = "Array" := by
  simpa [argumentHeads] using h

theorem bne_open_of_mem_head {head : String} (h : head ∈ argumentHeads) :
    ∀ c ∈ head.toList, (c != '(') = true := by
  rcases eq_of_mem_argumentHeads h with rfl | rfl | rfl | rfl <;> simp

theorem strip_compose {head : String} (argument : List Char) (h : head ∈ argumentHeads) :
    Text.strip (compose head argument) = compose head argument := by
  obtain ⟨c, hc, hblank⟩ : ∃ c, head.toList.head? = some c ∧ Text.isBlank c = false := by
    rcases eq_of_mem_argumentHeads h with rfl | rfl | rfl | rfl <;> exact ⟨_, rfl, by decide⟩
  refine Text.strip_eq_self (c := c) ?_ hblank (getLast?_compose head argument) (by decide)
  simp [compose, hc]

theorem headOf_compose {head : String} (argument : List Char) (h : head ∈ argumentHeads) :
    headOf (compose head argument) = head.toList := by
  rw [headOf, compose, List.append_assoc,
    List.takeWhile_append_of_pos (bne_open_of_mem_head h)]
  simp

theorem argumentOf_compose {head : String} {argument : List Char} (h : head ∈ argumentHeads)
    (harg : Text.strip argument = argument) : argumentOf (compose head argument) = argument := by
  rw [argumentOf, compose, List.append_assoc,
    List.dropWhile_append_of_pos (bne_open_of_mem_head h)]
  simp [harg]

/-- The parts of a composed text are found again, if the argument has no blanks around it. -/
theorem read_compose {head : String} {argument : List Char} (h : head ∈ argumentHeads)
    (harg : Text.strip argument = argument) :
    read (compose head argument) =
      ofParts (String.ofList (compose head argument)) head argument := by
  have hstrip := strip_compose argument h
  have hread := read_of_mem (hstrip.symm ▸ mem_compose head argument)
    (hstrip.symm ▸ getLast?_compose head argument)
  rw [hread, hstrip, headOf_compose argument h, argumentOf_compose h harg, String.ofList_toList]

end Parts

theorem isName_ofList {cs : List Char} (hne : cs ≠ []) (h : Text.strip cs = cs) :
    IsName (String.ofList cs) := by
  refine ⟨?_, by rw [String.toList_ofList, h]⟩
  intro hempty
  exact hne (by simpa [← String.toList_inj] using hempty)

theorem strip_argumentOf (cs : List Char) : Text.strip (argumentOf cs) = argumentOf cs :=
  Text.strip_strip _

theorem isWritable_of_readSimple {s : String} {ty : Ty} (h : readSimple s = .ok ty) :
    ty.IsWritable := by
  unfold readSimple at h
  split at h
  next found hfound =>
    obtain rfl := Except.ok.inj h
    obtain ⟨_, _, heq, _⟩ := List.lookup_eq_some_iff.mp hfound
    have hmem : (s, found) ∈ simpleTypes := by simp [heq]
    simp only [simpleTypes, List.mem_cons, Prod.mk.injEq, List.not_mem_nil, or_false] at hmem
    rcases hmem with h | h | h | h | h | h | h | h <;> rw [h.2] <;> trivial
  next => split at h <;> cases h

theorem isWritable_of_read {cs : List Char} {ty : Ty} (h : read cs = .ok ty) : ty.IsWritable := by
  fun_induction read cs generalizing ty
  case case2 argument _ _ ih =>
    cases hread : read argument with
    | error e => simp [hread, Except.map] at h
    | ok elem =>
      rw [hread] at h
      obtain rfl := Except.ok.inj h
      have helem : elem.IsWritable := ih hread
      exact helem
  case case3 argument _ _ hentity =>
    obtain rfl := Except.ok.inj h
    have hne : argument ≠ [] := by simpa using (Bool.and_eq_true_iff.mp hentity).2
    exact isName_ofList hne (strip_argumentOf _)
  case case4 argument _ _ _ hmeasure =>
    obtain rfl := Except.ok.inj h
    have hne : argument ≠ [] := by simpa using (Bool.and_eq_true_iff.mp hmeasure).2
    exact isName_ofList hne (strip_argumentOf _)
  case case6 hentries =>
    obtain rfl := Except.ok.inj h
    exact ⟨by simpa using hentries, fun _ he => isEntry_of_mem_readEntries he⟩
  case case8 => exact isWritable_of_readSimple h
  case case1 | case5 | case7 => cases h

theorem toList_text_entity (name : String) :
    (entity name).text.toList = compose "Entity" name.toList := by
  simp [text, compose]

theorem toList_text_measure (unit : String) :
    (measure unit).text.toList = compose "Measure" unit.toList := by
  simp [text, compose]

theorem toList_text_enum (entries : List String) :
    (enum entries).text.toList =
      compose "Enum" ([','].intercalate (entries.map String.toList)) := by
  simp [text, compose]

theorem toList_text_array (elem : Ty) :
    (array elem).text.toList = compose "Array" elem.text.toList := by
  simp [text, compose]

theorem strip_text (ty : Ty) : Text.strip ty.text.toList = ty.text.toList := by
  cases ty with
  | entity name => rw [toList_text_entity, strip_compose _ (by decide)]
  | measure unit => rw [toList_text_measure, strip_compose _ (by decide)]
  | enum entries => rw [toList_text_enum, strip_compose _ (by decide)]
  | array elem => rw [toList_text_array, strip_compose _ (by decide)]
  | _ => decide

/-- Entries without blanks around them are joined to an argument without blanks around it. -/
theorem strip_intercalate {entries : List String} (hne : entries ≠ [])
    (h : ∀ e ∈ entries, IsEntry e) :
    Text.strip ([','].intercalate (entries.map String.toList)) =
      [','].intercalate (entries.map String.toList) := by
  induction entries with
  | nil => exact absurd rfl hne
  | cons e rest ih =>
    obtain ⟨⟨hname, hstrip⟩, _⟩ := h e List.mem_cons_self
    cases rest with
    | nil => simpa using hstrip
    | cons f rest =>
      have hrest := ih (by simp) fun g hg => h g (List.mem_cons_of_mem _ hg)
      have hnext : f.toList ≠ [] := by simpa using (h f (by simp)).1.1
      simp only [List.map_cons, List.intercalate_cons_cons] at hrest ⊢
      refine Text.trimBoth_append _ (by simpa using hname) ?_ hstrip hrest
      cases rest <;> simp [hnext]

theorem read_text {ty : Ty} (h : ty.IsWritable) : read ty.text.toList = .ok ty := by
  induction ty with
  | entity name =>
    have hne : name.toList ≠ [] := by simpa using h.1
    rw [toList_text_entity, read_compose (by decide) h.2]
    simp [ofParts, hne]
  | measure unit =>
    have hne : unit.toList ≠ [] := by simpa using h.1
    rw [toList_text_measure, read_compose (by decide) h.2]
    simp [ofParts, hne]
  | enum entries =>
    rw [toList_text_enum, read_compose (by decide) (strip_intercalate h.1 h.2)]
    simp [ofParts, readEntries_intercalate h.1 h.2, h.1]
  | array elem ih =>
    rw [toList_text_array, read_compose (by decide) elem.strip_text]
    simp [ofParts, ih h, Except.map]
  | _ =>
    rw [read_of_not_mem (by decide)]
    decide

/-- Writing loses nothing: a type that was read is read again from its own text, and so is every
type with proper names and entries. -/
theorem ofText_text :
    (∀ s ty, ofText s = .ok ty → ofText ty.text = .ok ty) ∧
      ∀ ty : Ty, ty.IsWritable → ofText ty.text = .ok ty :=
  ⟨fun _ _ h => read_text (isWritable_of_read h), fun _ h => read_text h⟩

/-- Blanks and empty entries go, and the parentheses of a name stay. -/
theorem ofText_text_nested :
    let prices := array (array (enum ["cheap (daily)", "dear"]))
    let places := array (entity "com.map:place (old)")
    (ofText " Array( Array(Enum( cheap (daily) ,, dear)) ) " = .ok prices ∧
        ofText prices.text = .ok prices) ∧
      places.IsWritable ∧ ofText places.text = .ok places := by
  intro prices places
  have hread : ofText " Array( Array(Enum( cheap (daily) ,, dear)) ) " = .ok prices := by
    decide +kernel
  have hwritable : IsName "com.map:place (old)" := by
    unfold IsName
    decide
  exact ⟨⟨hread, ofText_text.1 _ prices hread⟩, hwritable, ofText_text.2 places hwritable⟩

end Colloquy.Ty
