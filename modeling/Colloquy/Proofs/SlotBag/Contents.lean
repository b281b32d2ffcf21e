import Colloquy.Proofs.SlotBag.Addition
import Mathlib.Data.List.Pairwise

namespace Colloquy

/-- All atoms on a field have operators of one family. -/
def Atom.AllOf (family : Operator.Family) (name : String) (atoms : List Atom) : Prop :=
  ∀ a ∈ atoms, a.field = name → a.op.family = family

/-- Each field is used with equalities alone or with containments alone. -/
def Atom.Unmixed (atoms : List Atom) : Prop :=
  ∀ name, AllOf .equality name atoms ∨ AllOf .containment name atoms

/-- Two atoms do not give a field different values. -/
def Atom.Agrees (a c : Atom) : Prop :=
  a.field = c.field → a.op.family = .equality → c.op.family = .equality →
    a.value.same c.value = true

theorem Atom.Agrees.symm {a c : Atom} (h : a.Agrees c) : c.Agrees a :=
  fun hfield hc ha => Value.same_symm (h hfield.symm ha hc)

instance : Std.Symm Atom.Agrees :=
  ⟨fun _ _ => Atom.Agrees.symm⟩

theorem Atom.AllOf.of_cons {family : Operator.Family} {name : String} {a : Atom} {rest : List Atom}
    (h : AllOf family name (a :: rest)) : AllOf family name rest :=
  fun c hc => h c (List.mem_cons_of_mem _ hc)

theorem Atom.Unmixed.of_cons {a : Atom} {rest : List Atom} (h : Unmixed (a :: rest)) :
    Unmixed rest :=
  fun name => (h name).imp AllOf.of_cons AllOf.of_cons

theorem Atom.AllOf.perm {family : Operator.Family} {name : String} {atoms others : List Atom}
    (h : AllOf family name atoms) (hperm : atoms.Perm others) : AllOf family name others :=
  fun a ha => h a (hperm.mem_iff.mpr ha)

theorem Atom.Unmixed.perm {atoms others : List Atom} (h : Unmixed atoms)
    (hperm : atoms.Perm others) : Unmixed others :=
  fun name => (h name).imp (·.perm hperm) (·.perm hperm)

theorem Atom.Unmixed.allOf {atoms : List Atom} {a : Atom} (h : Unmixed atoms) (ha : a ∈ atoms) :
    AllOf a.op.family a.field atoms := by
  rcases h a.field with hall | hall <;> rwa [hall a ha rfl]

def Atom.statedOf (name : String) (atoms : List Atom) : List Value :=
  (atoms.filter (·.field == name)).map Atom.value

theorem Atom.mem_statedOf_iff {name : String} {atoms : List Atom} {v : Value} :
    v ∈ statedOf name atoms ↔ ∃ a ∈ atoms, a.field = name ∧ a.value = v := by
  simp [statedOf, and_assoc]

def Value.insertAll (values known : List Value) : List Value :=
  values.foldl (fun known v => v.insertNew known) known

namespace SlotBag

variable {bag next last : SlotBag} {a c : Atom} {atoms : List Atom} {name : String}

theorem has_addAll_iff (h : bag.addAll atoms = some last) :
    last.has name = true ↔ bag.has name = true ∨ ∃ a ∈ atoms, a.field = name := by
  induction atoms generalizing bag with
  | nil => simp [eq_of_addAll_nil h]
  | cons a rest ih =>
    obtain ⟨next, hnext, h⟩ := addAll_cons_eq_some_iff.mp h
    rw [ih h, has_addAtom_iff hnext, or_assoc]
    simp only [List.mem_cons, exists_eq_or_imp]

theorem get?_addAll_of_equality (hall : Atom.AllOf .equality name atoms)
    (h : bag.addAll atoms = some last) :
    last.get? name = bag.get? name ∨
      ∃ a ∈ atoms, a.field = name ∧ last.get? name = some a.value := by
  induction atoms generalizing bag with
  | nil => exact Or.inl (by rw [eq_of_addAll_nil h])
  | cons a rest ih =>
    obtain ⟨next, hnext, h⟩ := addAll_cons_eq_some_iff.mp h
    rcases ih hall.of_cons h with hlast | ⟨c, hc, hname, hlast⟩
    · by_cases hname : a.field = name
      · have hop := hall a List.mem_cons_self hname
        subst hname
        rw [get?_addAtom_self hnext, valueWith_of_equality hop] at hlast
        exact Or.inr ⟨a, List.mem_cons_self, rfl, hlast⟩
      · exact Or.inl (hlast.trans (get?_addAtom_of_ne hnext hname))
    · exact Or.inr ⟨c, List.mem_cons_of_mem _ hc, hname, hlast⟩

/-- A field that is used with containments has an array of the elements that they state. -/
theorem get?_addAll_of_containment (hall : Atom.AllOf .containment name atoms)
    (hbag : ∀ v, bag.get? name = some v → v = .array (bag.knownItems name))
    (h : bag.addAll atoms = some last) :
    last.knownItems name = Value.insertAll (Atom.statedOf name atoms) (bag.knownItems name) ∧
      ∀ v, last.get? name = some v → v = .array (last.knownItems name) := by
  induction atoms generalizing bag with
  | nil =>
    rw [eq_of_addAll_nil h]
    exact ⟨rfl, hbag⟩
  | cons a rest ih =>
    obtain ⟨next, hnext, h⟩ := addAll_cons_eq_some_iff.mp h
    by_cases hname : a.field = name
    · have hop := hall a List.mem_cons_self hname
      subst hname
      have hget := get?_addAtom_self hnext
      rw [valueWith_of_containment hop] at hget
      have hknown : next.knownItems a.field = a.value.insertNew (bag.knownItems a.field) :=
        knownItems_of_get? hget
      have hstated : Atom.statedOf a.field (a :: rest) = a.value :: Atom.statedOf a.field rest := by
        simp [Atom.statedOf]
      have hnextArray : ∀ v, next.get? a.field = some v → v = .array (next.knownItems a.field) := by
        intro v hv
        rw [hknown]
        exact Option.some.inj (hv.symm.trans hget)
      rw [hstated, Value.insertAll, List.foldl_cons, ← hknown]
      exact ih hall.of_cons hnextArray h
    · have hstated : Atom.statedOf name (a :: rest) = Atom.statedOf name rest := by
        simp [Atom.statedOf, hname]
      have hget := get?_addAtom_of_ne hnext hname
      have hknown := knownItems_addAtom_of_ne hnext hname
      rw [hstated, ← hknown]
      exact ih hall.of_cons (by rwa [hget, hknown]) h

section Empty

variable {signature : Option Signature} (h : (empty signature).addAll atoms = some last)
  (ha : a ∈ atoms)
include h ha

theorem get?_of_equality (hall : Atom.AllOf .equality a.field atoms) :
    ∃ c ∈ atoms, c.field = a.field ∧ last.get? a.field = some c.value := by
  refine (get?_addAll_of_equality hall h).resolve_left fun hnone => ?_
  obtain ⟨v, hv⟩ := has_iff_exists.mp ((has_addAll_iff h).mpr (Or.inr ⟨a, ha, rfl⟩))
  rw [hnone] at hv
  cases hv

theorem get?_of_containment (hall : Atom.AllOf .containment a.field atoms) :
    last.get? a.field = some (.array (Value.insertAll (Atom.statedOf a.field atoms) [])) := by
  have hempty : ∀ v, (empty signature).get? a.field = some v →
      v = .array ((empty signature).knownItems a.field) := by
    intro v hv
    cases hv
  obtain ⟨hknown, harray⟩ := get?_addAll_of_containment hall hempty h
  obtain ⟨v, hv⟩ := has_iff_exists.mp ((has_addAll_iff h).mpr (Or.inr ⟨a, ha, rfl⟩))
  rw [hv, harray v hv, hknown]
  rfl

end Empty

theorem allows_addAtom_iff (hmixed : Atom.Unmixed (a :: atoms)) (hc : c ∈ atoms)
    (h : bag.addAtom a = some next) : next.Allows c ↔ bag.Allows c ∧ a.Agrees c := by
  obtain ⟨hfact, hallows, _⟩ := addAtom_eq_some_iff.mp h
  by_cases hfield : a.field = c.field
  · rcases hmixed a.field with hall | hall
    · have ha := hall a List.mem_cons_self rfl
      have hget := get?_addAtom_self h
      rw [valueWith_of_equality ha, hfield] at hget
      constructor
      · intro hnext
        refine ⟨fun hop present hpresent => ?_, fun _ _ hop => hnext hop a.value hget⟩
        exact Value.same_trans (hallows ha present (hfield ▸ hpresent)) (hnext hop a.value hget)
      · rintro ⟨_, hagrees⟩ hop present hpresent
        obtain rfl : a.value = present := Option.some.inj (hget.symm.trans hpresent)
        exact hagrees hfield ha hop
    · have hop : c.op.family ≠ .equality := by
        rw [hall c (List.mem_cons_of_mem _ hc) hfield.symm]
        nofun
      exact ⟨fun _ => ⟨fun h => absurd h hop, fun _ _ h => absurd h hop⟩, fun _ h => absurd h hop⟩
  · rw [Allows, Allows, get?_addAtom_of_ne h hfield]
    exact ⟨fun hnext => ⟨hnext, fun h => absurd h hfield⟩, And.left⟩

/-- Facts that do not mix on a field are all accepted if the bag allows each of them and no two of them
give a field different values. -/
theorem exists_addAll_iff (hmixed : Atom.Unmixed atoms) :
    (∃ last, bag.addAll atoms = some last) ↔
      (∀ a ∈ atoms, a.StatesFact bag.signature ∧ bag.Allows a) ∧ atoms.Pairwise Atom.Agrees := by
  induction atoms generalizing bag with
  | nil => exact ⟨fun _ => ⟨by simp, List.Pairwise.nil⟩, fun _ => ⟨bag, rfl⟩⟩
  | cons a rest ih =>
    simp only [List.pairwise_cons, List.forall_mem_cons]
    constructor
    · rintro ⟨last, h⟩
      obtain ⟨next, hnext, h⟩ := addAll_cons_eq_some_iff.mp h
      obtain ⟨hrest, hpairwise⟩ := (ih hmixed.of_cons).mp ⟨last, h⟩
      rw [signature_addAtom hnext] at hrest
      obtain ⟨hfact, hallows, _⟩ := addAtom_eq_some_iff.mp hnext
      have hstep : ∀ c ∈ rest, bag.Allows c ∧ a.Agrees c :=
        fun c hc => (allows_addAtom_iff hmixed hc hnext).mp (hrest c hc).2
      exact ⟨⟨⟨hfact, hallows⟩, fun c hc => ⟨(hrest c hc).1, (hstep c hc).1⟩⟩,
        fun c hc => (hstep c hc).2, hpairwise⟩
    · rintro ⟨⟨⟨hfact, hallows⟩, hrest⟩, hagrees, hpairwise⟩
      have hnext := addAtom_eq_some_iff.mpr ⟨hfact, hallows, rfl⟩
      have hnextRest : ∀ c ∈ rest, c.StatesFact (bag.set a.field (bag.valueWith a)).signature ∧
          (bag.set a.field (bag.valueWith a)).Allows c :=
        fun c hc => ⟨(hrest c hc).1,
          (allows_addAtom_iff hmixed hc hnext).mpr ⟨(hrest c hc).2, hagrees c hc⟩⟩
      obtain ⟨last, h⟩ := (ih hmixed.of_cons).mpr ⟨hnextRest, hpairwise⟩
      exact ⟨last, addAll_cons_eq_some_iff.mpr ⟨_, hnext, h⟩⟩

theorem alike_of_addAll (hmixed : Atom.Unmixed atoms) (h : bag.addAll atoms = some last)
    (ha : a ∈ atoms) (hc : c ∈ atoms) (hfield : a.field = c.field)
    (hop : a.op.family = .equality) : a.value.Alike c.value := by
  have hpairwise := ((exists_addAll_iff hmixed).mp ⟨last, h⟩).2
  by_cases heq : a = c
  · exact Or.inl (heq ▸ rfl)
  · have hall := hmixed.allOf ha
    rw [hop] at hall
    exact Or.inr (hpairwise.forall ha hc heq hfield hop (hall c hc hfield.symm))

end SlotBag

end Colloquy
