import Colloquy.Filter.Verdict
import Colloquy.Proofs.Filter.Typing
import Colloquy.Proofs.SlotBag.Addition

namespace Colloquy

namespace SlotBag

variable {bag next last : SlotBag} {a c : Atom} {atoms : List Atom} {name : String} {v : Value}

theorem testBag_of_equality (hop : a.op.family = .equality) :
    Filter.testBag bag a = .ok ((bag.get? a.field).any a.value.same) := by
  unfold Filter.testBag
  cases bag.get? a.field with
  | none => rfl
  | some present => simp [hop]

theorem testBag_of_containment (hop : a.op.family = .containment) :
    Filter.testBag bag a = .ok (a.value.isIn (bag.knownItems a.field)) := by
  unfold Filter.testBag knownItems
  cases bag.get? a.field with
  | none => rfl
  | some present => simp [hop]

/-- What is known of an array field stays known: a value that is given to the field is the one it has. -/
theorem isIn_knownItems_addAtom (h : bag.addAtom c = some next)
    (hv : v.isIn (bag.knownItems name) = true) : v.isIn (next.knownItems name) = true := by
  by_cases hname : c.field = name
  · subst hname
    obtain ⟨hfact, hallows, _⟩ := addAtom_eq_some_iff.mp h
    rw [knownItems_of_get? (get?_addAtom_self h)]
    rcases hfact.family with hop | hop
    · rw [valueWith_of_equality hop]
      cases hpresent : bag.get? c.field with
      | none => simp [knownItems, hpresent, Value.isIn] at hv
      | some present =>
        have hsame := hallows hop present hpresent
        rw [knownItems_of_get? hpresent] at hv
        rwa [← Value.isIn_items_of_bare_eq v (Value.same_iff.mp hsame).1]
    · rw [valueWith_of_containment hop]
      exact Value.isIn_insertNew_iff.mpr (Or.inl hv)
  · rwa [knownItems_addAtom_of_ne h hname]

theorem isIn_knownItems_addAll (h : bag.addAll atoms = some last)
    (hv : v.isIn (bag.knownItems name) = true) : v.isIn (last.knownItems name) = true := by
  induction atoms generalizing bag with
  | nil => rwa [eq_of_addAll_nil h]
  | cons c rest ih =>
    obtain ⟨next, hnext, h⟩ := addAll_cons_eq_some_iff.mp h
    exact ih h (isIn_knownItems_addAtom hnext hv)

def Keeps (bag : SlotBag) (name : String) (v : Value) : Prop :=
  ∃ present, bag.get? name = some present ∧ v.same present = true

def Outgrows (bag : SlotBag) (name : String) (v : Value) : Prop :=
  ∃ items, bag.get? name = some (.array items) ∧ (v.items?.getD []).length < items.length

theorem Keeps.same_self (h : bag.Keeps name v) : v.same v = true := by
  obtain ⟨present, _, hsame⟩ := h
  exact Value.same_self_iff.mpr (Value.same_iff.mp hsame).2

theorem Outgrows.not_keeps (h : bag.Outgrows name v) : ¬ bag.Keeps name v := by
  rintro ⟨present, hpresent, hsame⟩
  obtain ⟨items, hitems, hlength⟩ := h
  obtain rfl : present = .array items := Option.some.inj (hpresent.symm.trans hitems)
  have heq := Value.length_items_of_bare_eq (Value.same_iff.mp hsame).1
  rw [heq] at hlength
  exact Nat.lt_irrefl _ hlength

theorem Outgrows.addAtom (ho : bag.Outgrows name v) (h : bag.addAtom c = some next) :
    next.Outgrows name v := by
  obtain ⟨items, hitems, hlength⟩ := ho
  by_cases hname : c.field = name
  · subst hname
    have hget := get?_addAtom_self h
    obtain ⟨hfact, hallows, _⟩ := addAtom_eq_some_iff.mp h
    rcases hfact.family with hop | hop
    · rw [valueWith_of_equality hop] at hget
      have hsame := hallows hop _ hitems
      obtain ⟨others, hothers⟩ := Value.exists_items_of_same hsame
      have heq := Value.length_items_of_bare_eq (Value.same_iff.mp hsame).1
      rw [hothers] at hget heq
      exact ⟨others, hget, heq ▸ hlength⟩
    · rw [valueWith_of_containment hop, knownItems_of_get? hitems] at hget
      exact ⟨_, hget, Nat.lt_of_lt_of_le hlength (Value.length_le_insertNew c.value items)⟩
  · exact ⟨items, (get?_addAtom_of_ne h hname).trans hitems, hlength⟩

theorem Outgrows.addAll (ho : bag.Outgrows name v) (h : bag.addAll atoms = some last) :
    last.Outgrows name v := by
  induction atoms generalizing bag with
  | nil => rwa [eq_of_addAll_nil h]
  | cons c rest ih =>
    obtain ⟨next, hnext, h⟩ := addAll_cons_eq_some_iff.mp h
    exact ih (ho.addAtom hnext) h

/-- An atom gives a field an element that `v` does not hold. -/
def Adds (c : Atom) (name : String) (v : Value) : Prop :=
  c.field = name ∧ c.op.family = .containment ∧ c.value.isIn (v.items?.getD []) = false

/-- A value of a field stays, unless the atom adds an element that is not among its own. -/
theorem Keeps.addAtom (hk : bag.Keeps name v) (h : bag.addAtom c = some next) :
    (¬ Adds c name v ∧ next.Keeps name v) ∨ (Adds c name v ∧ next.Outgrows name v) := by
  obtain ⟨present, hpresent, hsame⟩ := hk
  have hbare : v.bare = present.bare := (Value.same_iff.mp hsame).1
  by_cases hname : c.field = name
  · subst hname
    have hget := get?_addAtom_self h
    obtain ⟨hfact, hallows, _⟩ := addAtom_eq_some_iff.mp h
    rcases hfact.family with hop | hop
    · rw [valueWith_of_equality hop] at hget
      refine Or.inl ⟨?_, c.value, hget, Value.same_trans hsame (hallows hop present hpresent)⟩
      rintro ⟨_, hcontainment, _⟩
      rw [hop] at hcontainment
      cases hcontainment
    · rw [valueWith_of_containment hop, knownItems_of_get? hpresent] at hget
      have hin := Value.isIn_items_of_bare_eq c.value hbare
      cases hknown : c.value.isIn (present.items?.getD []) with
      | true =>
        rw [Value.insertNew, if_pos hknown] at hget
        obtain ⟨items, rfl⟩ := Value.exists_items_of_isIn hknown
        refine Or.inl ⟨?_, _, hget, hsame⟩
        rintro ⟨_, _, hfresh⟩
        rw [hin, hknown] at hfresh
        cases hfresh
      | false =>
        rw [Value.insertNew, if_neg (by simp [hknown])] at hget
        refine Or.inr ⟨⟨rfl, hop, hin.trans hknown⟩, _, hget, ?_⟩
        rw [Value.length_items_of_bare_eq hbare, List.length_append]
        exact Nat.lt_succ_self _
  · refine Or.inl ⟨fun hadds => hname hadds.1, present, ?_, hsame⟩
    exact (get?_addAtom_of_ne h hname).trans hpresent

theorem Keeps.addAll_iff (hk : bag.Keeps name v) (h : bag.addAll atoms = some last) :
    last.Keeps name v ↔ ∀ c ∈ atoms, ¬ Adds c name v := by
  induction atoms generalizing bag with
  | nil =>
    rw [eq_of_addAll_nil h]
    simpa using hk
  | cons c rest ih =>
    obtain ⟨next, hnext, h⟩ := addAll_cons_eq_some_iff.mp h
    rw [List.forall_mem_cons]
    rcases hk.addAtom hnext with ⟨hc, hnext⟩ | ⟨hc, hnext⟩
    · rw [ih hnext h]
      exact ⟨fun hrest => ⟨hc, hrest⟩, And.right⟩
    · exact ⟨fun hlast => absurd hlast (hnext.addAll h).not_keeps, fun hall => absurd hc hall.1⟩

theorem collect_append (bag : SlotBag) (atoms others : List Atom) :
    bag.collect (atoms ++ others) = (bag.collect atoms).collect others :=
  List.foldl_append

/-- A fact of a bag stays true of it: an element that is known of a field at any later time, and the value
of a field until an element that the value does not hold is accepted for it. A value with a NaN in it is
not equal to itself, so a fact that states one is not even true of the bag that has just taken it. -/
theorem holdsForBag_later {s : Signature} {before : List Atom} (later : List Atom)
    (h : ((empty (some s)).collect before).addAtom a = some bag) :
    ∃ b, (Filter.atom a).holdsForBag ((empty (some s)).collect (before ++ a :: later)) = .ok b ∧
      (b = true ↔ a.value.same a.value = true ∧
        (a.op.family = .equality → ∀ c ∈ bag.accepted later, ¬ Adds c a.field a.value)) := by
  have hrun : (empty (some s)).collect (before ++ a :: later) = bag.collect later := by
    rw [collect_append, collect, List.foldl_cons, h]
    rfl
  have hlater : bag.addAll (bag.accepted later) = some (bag.collect later) := addAll_accepted bag later
  have hget := get?_addAtom_self h
  rw [hrun, Filter.holdsForBag, Filter.verdict]
  rcases (addAtom_eq_some_iff.mp h).1.family with hop | hop
  · rw [valueWith_of_equality hop] at hget
    have hkeeps : (bag.collect later).Keeps a.field a.value ↔
        a.value.same a.value = true ∧ ∀ c ∈ bag.accepted later, ¬ Adds c a.field a.value := by
      constructor
      · intro hlast
        have hself := hlast.same_self
        exact ⟨hself, (Keeps.addAll_iff ⟨a.value, hget, hself⟩ hlater).mp hlast⟩
      · rintro ⟨hself, hall⟩
        exact (Keeps.addAll_iff ⟨a.value, hget, hself⟩ hlater).mpr hall
    refine ⟨_, testBag_of_equality hop, ?_⟩
    rw [Option.any_eq_true]
    exact hkeeps.trans (and_congr_right fun _ => ⟨fun hall _ => hall, fun hall => hall hop⟩)
  · rw [valueWith_of_containment hop] at hget
    have hequality : a.op.family ≠ .equality := by simp [hop]
    refine ⟨_, testBag_of_containment hop, ?_⟩
    constructor
    · intro hin
      obtain ⟨w, _, hsame⟩ := Value.isIn_iff.mp hin
      exact ⟨Value.same_self_iff.mpr (Value.same_iff.mp hsame).2, fun h => absurd h hequality⟩
    · rintro ⟨hself, _⟩
      refine isIn_knownItems_addAll hlater ?_
      rw [knownItems_of_get? hget]
      exact Value.isIn_insertNew_iff.mpr (Or.inr hself)

/-- The tags of a parcel stay, as what is said of its fee is refused and the tag that is named is one of
them. -/
theorem holdsForBag_later_tags :
    let fee : Atom := ⟨"fee", .equal, .currency (.ofInt 15) (.text "eur")⟩
    let tags : Atom := ⟨"tags", .equal, .array [.string "fragile", .string "late"]⟩
    let cheap : Atom := ⟨"fee", .atMost, .currency (.ofInt 20) (.text "eur")⟩
    let late : Atom := ⟨"tags", .contains, .string "late"⟩
    ∃ bag, ((empty (some Filter.parcels)).collect [fee]).addAtom tags = some bag ∧
      bag.accepted [cheap, late] = [late] ∧
      (Filter.atom tags).holdsForBag
        ((empty (some Filter.parcels)).collect ([fee] ++ tags :: [cheap, late])) = .ok true := by
  intro fee tags cheap late
  obtain ⟨bag, h⟩ : ∃ bag, ((empty (some Filter.parcels)).collect [fee]).addAtom tags = some bag :=
    ⟨_, by rfl⟩
  have haccepted : bag.accepted [cheap, late] = [late] := by
    cases h
    rfl
  obtain ⟨b, hb, hiff⟩ := holdsForBag_later [cheap, late] h
  have htrue : b = true := by
    refine hiff.mpr ⟨by decide, fun _ c hc => ?_⟩
    rw [haccepted] at hc
    obtain rfl : c = late := List.mem_singleton.mp hc
    rintro ⟨_, _, hfresh⟩
    cases hfresh
  exact ⟨bag, h, haccepted, htrue ▸ hb⟩

/-- A tag that is not among the ones that were said to be all of them is accepted. -/
theorem fact_lost :
    let tags : Atom := ⟨"tags", .equal, .array [.string "fragile"]⟩
    let late : Atom := ⟨"tags", .contains, .string "late"⟩
    ∃ bag next, (empty (some Filter.parcels)).addAtom tags = some bag ∧
      bag.addAtom late = some next ∧ (empty (some Filter.parcels)).collect [tags, late] = next ∧
      (Filter.atom tags).holdsForBag bag = .ok true ∧
      (Filter.atom tags).holdsForBag next = .ok false := by
  intro tags late
  exact ⟨_, _, by rfl, by rfl, by rfl, by rfl, by rfl⟩

end SlotBag

end Colloquy
