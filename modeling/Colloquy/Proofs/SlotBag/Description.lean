import Colloquy.Grounding
import Colloquy.Proofs.SlotBag.Order
import Colloquy.Proofs.Value.Kind

namespace Colloquy

namespace Entries

variable {α : Type}

theorem get?_eq_some_of_mem {entries : Entries α} (h : entries.names.Nodup) {name : String} {value : α}
    (hmem : (name, value) ∈ entries) : entries.get? name = some value := by
  induction entries with
  | nil => cases hmem
  | cons entry rest ih =>
    obtain ⟨n, v⟩ := entry
    obtain ⟨hn, hrest⟩ := List.nodup_cons.mp h
    rcases List.mem_cons.mp hmem with heq | hmem
    · cases heq
      simp [get?]
    · have hmemName : name ∈ names rest := List.mem_map_of_mem (f := Prod.fst) hmem
      have hne : n ≠ name := fun heq => hn (heq ▸ hmemName)
      rw [get?, if_neg hne, ih hrest hmem]

end Entries

namespace Value

theorem isIn_of_allIn {v : Value} {values items : List Value} (hv : v.isIn values = true)
    (h : allIn values items = true) : v.isIn items = true := by
  obtain ⟨w, hw, hsame⟩ := isIn_iff.mp hv
  exact isIn_of_same hsame (List.all_eq_true.mp h w hw)

theorem allIn_insertNew_iff {v : Value} {known items : List Value} :
    allIn (v.insertNew known) items = true ↔ allIn known items = true ∧ v.isIn items = true := by
  by_cases hv : v.isIn known = true
  · rw [insertNew_of_isIn hv]
    exact ⟨fun h => ⟨h, isIn_of_allIn hv h⟩, And.left⟩
  · simp [insertNew_of_not_isIn hv, allIn]

theorem allIn_insertAll_iff {values known items : List Value} :
    allIn (insertAll values known) items = true ↔
      allIn known items = true ∧ ∀ v ∈ values, v.isIn items = true := by
  induction values generalizing known with
  | nil => simp [insertAll]
  | cons v rest ih =>
    have hstep : insertAll (v :: rest) known = insertAll rest (v.insertNew known) := rfl
    rw [hstep, ih, allIn_insertNew_iff, List.forall_mem_cons, and_assoc]

theorem isArray_of_accepts {ty : Ty} {v : Value} (hconstant : v.isConstant = true)
    (hitems : v.items? = none) (h : ty.accepts v.ty = true) : ty.isArray = false := by
  cases ty with
  | array elem =>
    obtain ⟨items, rfl⟩ := exists_items_of_accepts hconstant h
    cases hitems
  | _ => rfl

end Value

/-- Where a field takes containments, an equality on it has a value that goes with arrays. -/
theorem Atom.StatesFact.accepts_of_containment {signature : Option Signature} {a c : Atom}
    (ha : a.StatesFact signature) (hc : c.StatesFact signature) (hfield : c.field = a.field)
    (hop : a.op.family = .containment) (hop' : c.op.family = .equality) :
    ∃ elem, (Ty.array elem).accepts c.value.ty = true := by
  obtain ⟨s, argument, rfl, hargument, _, hcase⟩ := ha
  obtain ⟨s', argument', hs, hargument', _, hcase'⟩ := hc
  cases hs
  rw [hfield, hargument] at hargument'
  cases hargument'
  rcases hcase with ⟨h, _⟩ | ⟨_, elem, helem, _⟩
  · cases hop.symm.trans h
  · rcases hcase' with ⟨_, haccepts⟩ | ⟨h, _⟩
    · exact ⟨elem, helem ▸ haccepts⟩
    · cases hop'.symm.trans h

/-- A row shows what an atom says: an equal value of the field, or an array with the element. -/
def Row.Shows (row : Row) (a : Atom) : Prop :=
  (a.op.family = .equality →
      ∃ found, row.get? a.field = some found ∧ found.same a.value = true) ∧
    (a.op.family = .containment →
      ∃ items, row.get? a.field = some (.array items) ∧ a.value.isIn items = true)

theorem Row.shows_iff_of_equality {row : Row} {a : Atom} (hop : a.op.family = .equality) :
    row.Shows a ↔ ∃ found, row.get? a.field = some found ∧ found.same a.value = true := by
  simp [Shows, hop]

theorem Row.shows_iff_of_containment {row : Row} {a : Atom} (hop : a.op.family = .containment) :
    row.Shows a ↔
      ∃ items, row.get? a.field = some (.array items) ∧ a.value.isIn items = true := by
  simp [Shows, hop]

namespace SlotBag

variable {bag next last : SlotBag} {atoms : List Atom} {row : Row} {found stated : Value}

theorem factHolds_eq_same (h : stated.items? = none) :
    factHolds found stated = found.same stated := by
  cases stated with
  | array _ => cases h
  | _ => cases found <;> rfl

theorem factHolds_array_iff {named : List Value} :
    factHolds found (.array named) = true ↔
      ∃ items, found = .array items ∧ Value.allIn named items = true := by
  cases found <;> simp [factHolds, Value.same, Value.sameBy]

theorem describes_iff (h : bag.names.Nodup) :
    bag.describes row = true ↔
      ∀ name stated, bag.get? name = some stated →
        ∃ found, row.get? name = some found ∧ factHolds found stated = true := by
  rw [describes, List.all_eq_true]
  constructor
  · intro hall name stated hget
    have hslot := hall _ (Entries.mem_of_get?_eq_some hget)
    cases hfound : row.get? name with
    | none => simp [hfound] at hslot
    | some found => exact ⟨found, rfl, by simpa [hfound] using hslot⟩
  · rintro hall ⟨name, stated⟩ hmem
    obtain ⟨found, hfound, hfact⟩ := hall name stated (Entries.get?_eq_some_of_mem h hmem)
    simpa [hfound] using hfact

theorem nodup_names_addAll (h : bag.addAll atoms = some last) (hbag : bag.names.Nodup) :
    last.names.Nodup := by
  induction atoms generalizing bag with
  | nil => rwa [eq_of_addAll_nil h]
  | cons a rest ih =>
    obtain ⟨next, hnext, h⟩ := addAll_cons_eq_some_iff.mp h
    obtain ⟨_, _, rfl⟩ := addAtom_eq_some_iff.mp hnext
    exact ih h (Entries.nodup_names_put a.field _ hbag)

theorem statesFact_of_addAll (h : bag.addAll atoms = some last) :
    ∀ a ∈ atoms, a.StatesFact bag.signature := by
  induction atoms generalizing bag with
  | nil => simp
  | cons a rest ih =>
    obtain ⟨next, hnext, h⟩ := addAll_cons_eq_some_iff.mp h
    rw [List.forall_mem_cons]
    exact ⟨(addAtom_eq_some_iff.mp hnext).1, signature_addAtom hnext ▸ ih h⟩

theorem unmixed_of_addAll (h : bag.addAll atoms = some last)
    (hvalues : ∀ a ∈ atoms, a.op.family = .equality →
      a.value.isConstant = true ∧ a.value.items? = none) : Atom.Unmixed atoms := by
  have hfacts := statesFact_of_addAll h
  intro name
  by_cases hcontainment : ∃ a ∈ atoms, a.field = name ∧ a.op.family = .containment
  · obtain ⟨a, ha, hname, hop⟩ := hcontainment
    refine Or.inr fun c hc hname' => (hfacts c hc).family.resolve_left fun hop' => ?_
    obtain ⟨elem, haccepts⟩ :=
      (hfacts a ha).accepts_of_containment (hfacts c hc) (hname'.trans hname.symm) hop hop'
    obtain ⟨hconstant, hitems⟩ := hvalues c hc hop'
    cases Value.isArray_of_accepts hconstant hitems haccepts
  · refine Or.inl fun a ha hname => (hfacts a ha).family.resolve_right fun hop => ?_
    exact hcontainment ⟨a, ha, hname, hop⟩

section Facts

variable {s : Signature} {a : Atom}
  (h : (empty (some s)).addAll atoms = some bag) (hmixed : Atom.Unmixed atoms) (ha : a ∈ atoms)
include h hmixed ha

/-- What is asked of a field with equalities: the one value that all of them give it. -/
theorem factHolds_iff_of_equality (hop : a.op.family = .equality) (hget : bag.get? a.field = some stated)
    (hvalues : ∀ c ∈ atoms, c.op.family = .equality → c.value.items? = none) :
    (∃ found, row.get? a.field = some found ∧ factHolds found stated = true) ↔
      ∀ c ∈ atoms, c.field = a.field → row.Shows c := by
  have hops := hmixed.allOf ha
  rw [hop] at hops
  obtain ⟨d, hd, hfield, hvalue⟩ := get?_of_equality h ha hops
  obtain rfl : stated = d.value := Option.some.inj (hget.symm.trans hvalue)
  have hdop := hops d hd hfield
  constructor
  · rintro ⟨found, hfound, hfact⟩ c hc hname
    have halike := alike_of_addAll hmixed h hd hc (hfield.trans hname.symm) hdop
    rw [factHolds_eq_same (hvalues d hd hdop), Value.same_congr_right found halike.bare_eq] at hfact
    rw [← hname] at hfound
    exact (Row.shows_iff_of_equality (hops c hc hname)).mpr ⟨found, hfound, hfact⟩
  · intro hall
    obtain ⟨found, hfound, hsame⟩ := (Row.shows_iff_of_equality hdop).mp (hall d hd hfield)
    rw [hfield] at hfound
    exact ⟨found, hfound, (factHolds_eq_same (hvalues d hd hdop)).trans hsame⟩

/-- What is asked of a field with containments: an array with the elements of all of them. -/
theorem factHolds_iff_of_containment (hop : a.op.family = .containment)
    (hget : bag.get? a.field = some stated) :
    (∃ found, row.get? a.field = some found ∧ factHolds found stated = true) ↔
      ∀ c ∈ atoms, c.field = a.field → row.Shows c := by
  have hops := hmixed.allOf ha
  rw [hop] at hops
  obtain rfl := Option.some.inj (hget.symm.trans (get?_of_containment h ha hops))
  constructor
  · rintro ⟨found, hfound, hfact⟩ c hc hname
    obtain ⟨items, rfl, hin⟩ := factHolds_array_iff.mp hfact
    have hstated : c.value ∈ Atom.statedOf a.field atoms :=
      Atom.mem_statedOf_iff.mpr ⟨c, hc, hname, rfl⟩
    have helement := (Value.allIn_insertAll_iff.mp hin).2 _ hstated
    rw [← hname] at hfound
    exact (Row.shows_iff_of_containment (hops c hc hname)).mpr ⟨items, hfound, helement⟩
  · intro hall
    obtain ⟨items, hfound, _⟩ := (Row.shows_iff_of_containment hop).mp (hall a ha rfl)
    have helements : ∀ v ∈ Atom.statedOf a.field atoms, v.isIn items = true := by
      intro v hv
      obtain ⟨c, hc, hname, rfl⟩ := Atom.mem_statedOf_iff.mp hv
      obtain ⟨others, hothers, hin⟩ :=
        (Row.shows_iff_of_containment (hops c hc hname)).mp (hall c hc hname)
      rw [hname, hfound] at hothers
      cases hothers
      exact hin
    have hin : Value.allIn (Value.insertAll (Atom.statedOf a.field atoms) []) items = true :=
      Value.allIn_insertAll_iff.mpr ⟨rfl, helements⟩
    exact ⟨.array items, hfound, factHolds_array_iff.mpr ⟨items, rfl, hin⟩⟩

end Facts

/-- A bag describes a row if the row shows what each of its facts says. -/
theorem describes_iff_shows {s : Signature} (h : (empty (some s)).addAll atoms = some bag)
    (hvalues : ∀ a ∈ atoms, a.op.family = .equality →
      a.value.isConstant = true ∧ a.value.items? = none) :
    bag.describes row = true ↔ ∀ a ∈ atoms, row.Shows a := by
  have hmixed := unmixed_of_addAll h hvalues
  have hfield : ∀ a ∈ atoms, ∀ stated, bag.get? a.field = some stated →
      ((∃ found, row.get? a.field = some found ∧ factHolds found stated = true) ↔
        ∀ c ∈ atoms, c.field = a.field → row.Shows c) := by
    intro a ha stated hget
    rcases (statesFact_of_addAll h a ha).family with hop | hop
    · exact factHolds_iff_of_equality h hmixed ha hop hget fun c hc hcop => (hvalues c hc hcop).2
    · exact factHolds_iff_of_containment h hmixed ha hop hget
  rw [describes_iff (nodup_names_addAll h List.nodup_nil)]
  constructor
  · intro hall a ha
    obtain ⟨stated, hget⟩ := has_iff_exists.mp ((has_addAll_iff h).mpr (Or.inr ⟨a, ha, rfl⟩))
    exact (hfield a ha stated hget).mp (hall a.field stated hget) a ha rfl
  · intro hall name stated hget
    have hhas : bag.has name = true := has_iff_exists.mpr ⟨stated, hget⟩
    obtain ⟨a, ha, rfl⟩ := ((has_addAll_iff h).mp hhas).resolve_left (by simp)
    exact (hfield a ha stated hget).mpr fun c hc _ => hall c hc

/-- A parcel with both tags of `parcelFacts`, and one more. -/
def labelledParcel : Row :=
  [("fee", .currency (.ofInt 15) (.text "eur")),
    ("tags", .array [.string "late", .string "gift", .string "fragile"])]

theorem describes_iff_shows_parcels :
    ∃ bag, (empty (some Filter.parcels)).addAll parcelFacts = some bag ∧
      (∀ a ∈ parcelFacts, a.op.family = .equality →
        a.value.isConstant = true ∧ a.value.items? = none) ∧
      bag.describes labelledParcel = true ∧ bag.describes Filter.dueParcel = false := by
  have hvalues : ∀ a ∈ parcelFacts, a.op.family = .equality →
      a.value.isConstant = true ∧ a.value.items? = none := by
    simp [parcelFacts, Operator.family, Value.isConstant, Value.items?]
  obtain ⟨bag, h⟩ : ∃ bag, (empty (some Filter.parcels)).addAll parcelFacts = some bag := ⟨_, by rfl⟩
  refine ⟨bag, h, hvalues, (describes_iff_shows h hvalues).mpr ?_,
    Bool.eq_false_iff.mpr fun hdue => ?_⟩
  · simp only [parcelFacts, List.forall_mem_cons]
    refine ⟨?_, ?_, ?_, by simp⟩
    · exact (Row.shows_iff_of_containment rfl).mpr ⟨_, rfl, by decide⟩
    · exact (Row.shows_iff_of_equality rfl).mpr ⟨_, rfl, by decide⟩
    · exact (Row.shows_iff_of_containment rfl).mpr ⟨_, rfl, by decide⟩
  · have hshows := (describes_iff_shows h hvalues).mp hdue _ List.mem_cons_self
    obtain ⟨items, hitems, hin⟩ := (Row.shows_iff_of_containment rfl).mp hshows
    cases hitems
    cases hin

end SlotBag

end Colloquy
