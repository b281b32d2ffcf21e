import Colloquy.Proofs.Value.Equality
import Colloquy.SlotBag

namespace Colloquy

namespace Value

/-- The elements with `v` at the end, unless one is equal to it. -/
def insertNew (v : Value) (known : List Value) : List Value :=
  if v.isIn known then known else known ++ [v]

theorem isIn_iff {v : Value} {values : List Value} :
    v.isIn values = true ↔ ∃ w ∈ values, v.same w = true := by
  simp [isIn]

theorem isIn_of_same {v w : Value} {values : List Value} (h : v.same w = true)
    (hw : w.isIn values = true) : v.isIn values = true := by
  obtain ⟨u, hu, hwu⟩ := isIn_iff.mp hw
  exact isIn_iff.mpr ⟨u, hu, same_trans h hwu⟩

theorem insertNew_of_isIn {v : Value} {known : List Value} (h : v.isIn known = true) :
    v.insertNew known = known :=
  if_pos h

theorem insertNew_of_not_isIn {v : Value} {known : List Value} (h : ¬ v.isIn known = true) :
    v.insertNew known = known ++ [v] :=
  if_neg h

theorem isIn_insertNew_iff {v w : Value} {known : List Value} :
    w.isIn (v.insertNew known) = true ↔ w.isIn known = true ∨ w.same v = true := by
  unfold insertNew
  split
  next hv => exact ⟨Or.inl, fun h => h.elim id fun hw => isIn_of_same hw hv⟩
  next => simp [isIn]

theorem length_le_insertNew (v : Value) (known : List Value) :
    known.length ≤ (v.insertNew known).length := by
  unfold insertNew
  split <;> simp

theorem exists_items_of_isIn {u v : Value} (h : u.isIn (v.items?.getD []) = true) :
    ∃ items, v = array items := by
  cases v with
  | array items => exact ⟨items, rfl⟩
  | _ => cases h

theorem exists_items_of_same {items : List Value} {v : Value} (h : (array items).same v = true) :
    ∃ others, v = array others := by
  cases v with
  | array others => exact ⟨others, rfl⟩
  | _ => cases h

theorem items?_bare (v : Value) : v.bare.items?.getD [] = (v.items?.getD []).map bare := by
  cases v <;> simp [bare, items?, bareItems_eq_map]

theorem length_items_of_bare_eq {v w : Value} (h : v.bare = w.bare) :
    (v.items?.getD []).length = (w.items?.getD []).length := by
  have hmap := congrArg (fun u : Value => (u.items?.getD []).length) h
  simpa only [items?_bare, List.length_map] using hmap

theorem isIn_items_of_bare_eq {v w : Value} (u : Value) (h : v.bare = w.bare) :
    u.isIn (v.items?.getD []) = u.isIn (w.items?.getD []) := by
  have hbare : ∀ values : List Value, u.isIn (values.map bare) = u.isIn values := by
    intro values
    simp only [isIn, List.any_map]
    congr 1
    funext x
    exact same_congr_right u (bare_bare x)
  rw [← hbare, ← items?_bare, h, items?_bare, hbare]

end Value

/-- An atom that says something of an output field of a function, with a value that goes with the type of
the field. -/
def Atom.StatesFact (signature : Option Signature) (a : Atom) : Prop :=
  ∃ s argument, signature = some s ∧ s.argument? a.field = some argument ∧
    argument.isInput = false ∧
      ((a.op.family = .equality ∧ argument.ty.accepts a.value.ty = true) ∨
        (a.op.family = .containment ∧
          ∃ elem, argument.ty = .array elem ∧ elem.accepts a.value.ty = true))

theorem Atom.StatesFact.family {signature : Option Signature} {a : Atom}
    (h : a.StatesFact signature) : a.op.family = .equality ∨ a.op.family = .containment := by
  obtain ⟨_, _, _, _, _, ⟨hop, _⟩ | ⟨hop, _⟩⟩ := h
  · exact Or.inl hop
  · exact Or.inr hop

namespace SlotBag

variable {bag next last : SlotBag} {a : Atom} {atoms : List Atom}

@[simp] theorem get?_set_self (bag : SlotBag) (name : String) (v : Value) :
    (bag.set name v).get? name = some v :=
  Entries.get?_put_self bag.slots name v

theorem get?_set_of_ne (bag : SlotBag) {name other : String} (v : Value) (h : name ≠ other) :
    (bag.set name v).get? other = bag.get? other :=
  Entries.get?_put_of_ne bag.slots v h

@[simp] theorem has_empty (signature : Option Signature) (name : String) :
    (empty signature).has name = false :=
  rfl

theorem has_iff_exists {name : String} : bag.has name = true ↔ ∃ v, bag.get? name = some v :=
  Option.isSome_iff_exists

/-- An atom that gives a field a value finds no other one there. -/
def Allows (bag : SlotBag) (a : Atom) : Prop :=
  a.op.family = .equality →
    ∀ present, bag.get? a.field = some present → present.same a.value = true

def valueWith (bag : SlotBag) (a : Atom) : Value :=
  if a.op.family = .containment then .array (a.value.insertNew (bag.knownItems a.field))
  else a.value

theorem valueWith_of_equality (h : a.op.family = .equality) : bag.valueWith a = a.value := by
  simp [valueWith, h]

theorem valueWith_of_containment (h : a.op.family = .containment) :
    bag.valueWith a = .array (a.value.insertNew (bag.knownItems a.field)) := by
  simp [valueWith, h]

theorem addEquality_eq_some_iff {ty : Ty} {field : String} {v : Value} :
    bag.addEquality ty field v = some next ↔
      ty.accepts v.ty = true ∧
        (∀ present, bag.get? field = some present → present.same v = true) ∧
          next = bag.set field v := by
  unfold addEquality
  cases ty.accepts v.ty with
  | false => simp
  | true =>
    cases bag.get? field with
    | none => simp [eq_comm (a := next)]
    | some present => simp [eq_comm (a := next)]

theorem addElement_eq_some_iff {ty : Ty} {field : String} {v : Value} :
    bag.addElement ty field v = some next ↔
      (∃ elem, ty = .array elem ∧ elem.accepts v.ty = true) ∧
        next = bag.set field (.array (v.insertNew (bag.knownItems field))) := by
  unfold addElement
  cases ty with
  | array elem =>
    cases h : elem.accepts v.ty <;> simp [h, Value.insertNew, eq_comm (a := next)]
  | _ => simp

/-- An addition is accepted where the atom states a fact that the bag allows, and it changes the field of
the atom alone. -/
theorem addAtom_eq_some_iff :
    bag.addAtom a = some next ↔
      a.StatesFact bag.signature ∧ bag.Allows a ∧ next = bag.set a.field (bag.valueWith a) := by
  constructor
  · intro h
    obtain ⟨s, hs, h⟩ := Option.bind_eq_some_iff.mp h
    obtain ⟨argument, hargument, h⟩ := Option.bind_eq_some_iff.mp h
    split at h
    next => cases h
    next hinput =>
      have hinput : argument.isInput = false := by simpa using hinput
      split at h
      next hop =>
        obtain ⟨hty, hallows, hnext⟩ := addEquality_eq_some_iff.mp h
        refine ⟨⟨s, argument, hs, hargument, hinput, Or.inl ⟨hop, hty⟩⟩, fun _ => hallows, ?_⟩
        rw [hnext, valueWith_of_equality hop]
      next hop =>
        obtain ⟨helem, hnext⟩ := addElement_eq_some_iff.mp h
        refine ⟨⟨s, argument, hs, hargument, hinput, Or.inr ⟨hop, helem⟩⟩, ?_, ?_⟩
        · intro hequality
          rw [hop] at hequality
          cases hequality
        · rw [hnext, valueWith_of_containment hop]
      next => cases h
  · rintro ⟨⟨s, argument, hs, hargument, hinput, hfact⟩, hallows, rfl⟩
    refine Option.bind_eq_some_iff.mpr ⟨s, hs, Option.bind_eq_some_iff.mpr ⟨argument, hargument, ?_⟩⟩
    rw [if_neg (by simp [hinput])]
    rcases hfact with ⟨hop, hty⟩ | ⟨hop, helem⟩
    · rw [hop, valueWith_of_equality hop]
      exact addEquality_eq_some_iff.mpr ⟨hty, hallows hop, rfl⟩
    · rw [hop, valueWith_of_containment hop]
      exact addElement_eq_some_iff.mpr ⟨helem, rfl⟩

theorem signature_addAtom (h : bag.addAtom a = some next) : next.signature = bag.signature := by
  obtain ⟨_, _, rfl⟩ := addAtom_eq_some_iff.mp h
  rfl

theorem get?_addAtom_self (h : bag.addAtom a = some next) :
    next.get? a.field = some (bag.valueWith a) := by
  obtain ⟨_, _, rfl⟩ := addAtom_eq_some_iff.mp h
  exact get?_set_self bag a.field _

theorem get?_addAtom_of_ne {name : String} (h : bag.addAtom a = some next) (hne : a.field ≠ name) :
    next.get? name = bag.get? name := by
  obtain ⟨_, _, rfl⟩ := addAtom_eq_some_iff.mp h
  exact get?_set_of_ne bag _ hne

theorem knownItems_of_get? {name : String} {present : Value}
    (h : bag.get? name = some present) : bag.knownItems name = present.items?.getD [] := by
  simp [knownItems, h]

theorem knownItems_addAtom_of_ne {name : String} (h : bag.addAtom a = some next)
    (hne : a.field ≠ name) : next.knownItems name = bag.knownItems name := by
  rw [knownItems, knownItems, get?_addAtom_of_ne h hne]

theorem has_addAtom_iff {name : String} (h : bag.addAtom a = some next) :
    next.has name = true ↔ bag.has name = true ∨ a.field = name := by
  rw [has_iff_exists, has_iff_exists]
  by_cases hname : a.field = name
  · subst hname
    simp [get?_addAtom_self h]
  · rw [get?_addAtom_of_ne h hname]
    exact (or_iff_left hname).symm

/-- Adds the facts of all atoms, unless one is refused. -/
def addAll (bag : SlotBag) (atoms : List Atom) : Option SlotBag :=
  atoms.foldlM addAtom bag

theorem addAll_cons_eq_some_iff :
    bag.addAll (a :: atoms) = some last ↔
      ∃ next, bag.addAtom a = some next ∧ next.addAll atoms = some last :=
  Option.bind_eq_some_iff

theorem eq_of_addAll_nil (h : bag.addAll [] = some last) : last = bag :=
  (Option.some.inj h).symm

def collect (bag : SlotBag) (atoms : List Atom) : SlotBag :=
  atoms.foldl (fun bag a => (bag.addAtom a).getD bag) bag

def accepted (bag : SlotBag) : List Atom → List Atom
  | [] => []
  | a :: rest =>
    match bag.addAtom a with
    | some next => a :: next.accepted rest
    | none => bag.accepted rest

/-- Without the atoms that are refused there is no refusal, and the bag is the same. -/
theorem addAll_accepted (bag : SlotBag) (atoms : List Atom) :
    bag.addAll (bag.accepted atoms) = some (bag.collect atoms) := by
  induction atoms generalizing bag with
  | nil => rfl
  | cons a rest ih =>
    rw [collect, List.foldl_cons, accepted]
    cases h : bag.addAtom a with
    | none => exact ih bag
    | some next => exact addAll_cons_eq_some_iff.mpr ⟨next, h, ih next⟩

end SlotBag

end Colloquy
