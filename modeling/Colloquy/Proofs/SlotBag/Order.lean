import Colloquy.Proofs.Filter.Typing
import Colloquy.Proofs.SlotBag.Contents
import Mathlib.Data.Multiset.AddSub

namespace Colloquy

namespace Value

instance : IsTrans Value Alike :=
  ⟨fun _ _ _ => Alike.trans⟩

/-- Lists of alike elements, in any order. -/
def SameElements (values others : List Value) : Prop :=
  Multiset.Rel Alike values others

theorem SameElements.refl (values : List Value) : SameElements values values :=
  Multiset.rel_refl_of_refl_on fun v _ => Alike.refl v

theorem SameElements.of_perm {values others : List Value} (h : values.Perm others) :
    SameElements values others := by
  rw [SameElements, Multiset.coe_eq_coe.mpr h]
  exact SameElements.refl others

theorem SameElements.symm {values others : List Value} (h : SameElements values others) :
    SameElements others values :=
  (Multiset.rel_flip.mpr h).mono fun _ _ _ _ hab => Alike.symm hab

theorem SameElements.trans {values others third : List Value} (h : SameElements values others)
    (h' : SameElements others third) : SameElements values third :=
  Multiset.Rel.trans Alike h h'

theorem SameElements.concat {values others : List Value} {v w : Value}
    (h : SameElements values others) (hvw : v.Alike w) :
    SameElements (values ++ [v]) (others ++ [w]) :=
  Multiset.Rel.add h (Multiset.Rel.cons hvw Multiset.Rel.zero)

theorem SameElements.isIn_imp {values others : List Value} {v : Value}
    (h : SameElements values others) (hv : v.isIn values = true) : v.isIn others = true := by
  obtain ⟨u, hu, hsame⟩ := isIn_iff.mp hv
  obtain ⟨w, hw, halike⟩ := Multiset.exists_mem_of_rel_of_mem h (Multiset.mem_coe.mpr hu)
  exact isIn_iff.mpr ⟨w, Multiset.mem_coe.mp hw, same_congr_right v halike.bare_eq ▸ hsame⟩

theorem SameElements.insertNew {values others : List Value} (h : SameElements values others)
    (v : Value) : SameElements (v.insertNew values) (v.insertNew others) := by
  have hin : v.isIn values = v.isIn others := Bool.eq_iff_iff.mpr ⟨h.isIn_imp, h.symm.isIn_imp⟩
  unfold Value.insertNew
  rw [hin]
  split
  · exact h
  · exact h.concat (Alike.refl v)

theorem insertNew_comm (v w : Value) (known : List Value) :
    SameElements (w.insertNew (v.insertNew known)) (v.insertNew (w.insertNew known)) := by
  by_cases hv : v.isIn known = true
  · have hin : v.isIn (w.insertNew known) = true := isIn_insertNew_iff.mpr (Or.inl hv)
    rw [insertNew_of_isIn hv, insertNew_of_isIn hin]
    exact SameElements.refl _
  · by_cases hw : w.isIn known = true
    · have hin : w.isIn (v.insertNew known) = true := isIn_insertNew_iff.mpr (Or.inl hw)
      rw [insertNew_of_isIn hw, insertNew_of_isIn hin]
      exact SameElements.refl _
    · by_cases hsame : w.same v = true
      · have hwin : w.isIn (v.insertNew known) = true := isIn_insertNew_iff.mpr (Or.inr hsame)
        have hvin : v.isIn (w.insertNew known) = true :=
          isIn_insertNew_iff.mpr (Or.inr (same_symm hsame))
        rw [insertNew_of_isIn hwin, insertNew_of_isIn hvin, insertNew_of_not_isIn hv,
          insertNew_of_not_isIn hw]
        exact (SameElements.refl known).concat (Or.inr (same_symm hsame))
      · have hwin : ¬ w.isIn (v.insertNew known) = true :=
          fun h => (isIn_insertNew_iff.mp h).elim hw hsame
        have hvin : ¬ v.isIn (w.insertNew known) = true :=
          fun h => (isIn_insertNew_iff.mp h).elim hv fun h => hsame (same_symm h)
        rw [insertNew_of_not_isIn hwin, insertNew_of_not_isIn hvin, insertNew_of_not_isIn hv,
          insertNew_of_not_isIn hw, List.append_assoc, List.append_assoc]
        exact SameElements.of_perm ((List.Perm.swap w v []).append_left known)

theorem SameElements.insertAll {known others : List Value} (h : SameElements known others)
    (values : List Value) : SameElements (insertAll values known) (insertAll values others) := by
  induction values generalizing known others with
  | nil => exact h
  | cons v rest ih => exact ih (h.insertNew v)

theorem insertAll_perm {values others : List Value} (hperm : values.Perm others)
    (known : List Value) : SameElements (insertAll values known) (insertAll others known) := by
  induction hperm generalizing known with
  | nil => exact SameElements.refl known
  | cons v _ ih => exact ih (v.insertNew known)
  | swap v w rest => exact (insertNew_comm w v known).insertAll rest
  | trans _ _ ih ih' => exact (ih known).trans (ih' known)

end Value

namespace SlotBag

variable {s : Signature} {atoms others : List Atom}

/-- Facts that do not mix on a field are accepted in all orders or in none, and the bags agree: in their
fields, in the values of equalities, and in the elements of containments up to their order. -/
theorem addAll_perm (hperm : atoms.Perm others) (hmixed : Atom.Unmixed atoms) :
    ((∃ bag, (empty (some s)).addAll atoms = some bag) ↔
        ∃ bag, (empty (some s)).addAll others = some bag) ∧
      ∀ bag bag', (empty (some s)).addAll atoms = some bag →
        (empty (some s)).addAll others = some bag' →
          (∀ name, bag.has name = bag'.has name) ∧
          (∀ a ∈ atoms, a.op.family = .equality → ∃ v w, bag.get? a.field = some v ∧
            bag'.get? a.field = some w ∧ v.Alike w) ∧
          (∀ a ∈ atoms, a.op.family = .containment → ∃ items items',
            bag.get? a.field = some (.array items) ∧ bag'.get? a.field = some (.array items') ∧
              Value.SameElements items items') := by
  have hothers : Atom.Unmixed others := hmixed.perm hperm
  refine ⟨?_, fun bag bag' h h' => ⟨fun name => ?_, fun a ha hop => ?_, fun a ha hop => ?_⟩⟩
  · rw [exists_addAll_iff hmixed, exists_addAll_iff hothers, hperm.pairwise_iff Atom.Agrees.symm]
    simp only [hperm.mem_iff]
  · refine Bool.eq_iff_iff.mpr ?_
    rw [has_addAll_iff h, has_addAll_iff h']
    simp only [hperm.mem_iff]
  · have hall := hop ▸ hmixed.allOf ha
    obtain ⟨c, hc, hfield, hv⟩ := get?_of_equality h ha hall
    obtain ⟨c', hc', hfield', hw⟩ :=
      get?_of_equality h' (hperm.mem_iff.mp ha) (hall.perm hperm)
    have halike := alike_of_addAll hmixed h hc (hperm.mem_iff.mpr hc')
      (hfield.trans hfield'.symm) (hall c hc hfield)
    exact ⟨c.value, c'.value, hv, hw, halike⟩
  · have hall := hop ▸ hmixed.allOf ha
    have hstated : (Atom.statedOf a.field atoms).Perm (Atom.statedOf a.field others) :=
      (hperm.filter _).map _
    exact ⟨_, _, get?_of_containment h ha hall,
      get?_of_containment h' (hperm.mem_iff.mp ha) (hall.perm hperm),
      Value.insertAll_perm hstated []⟩

/-- Two tags of a parcel, and its fee between them. -/
def parcelFacts : List Atom :=
  [⟨"tags", .contains, .string "fragile"⟩, ⟨"fee", .equal, .currency (.ofInt 15) (.text "eur")⟩,
    ⟨"tags", .containsLike, .string "late"⟩]

theorem addAll_perm_reverse :
    parcelFacts.Perm parcelFacts.reverse ∧ Atom.Unmixed parcelFacts ∧
      ∃ bag bag', (empty (some Filter.parcels)).addAll parcelFacts = some bag ∧
        (empty (some Filter.parcels)).addAll parcelFacts.reverse = some bag' ∧
        (∀ name, bag.has name = bag'.has name) ∧
        ∃ items items', bag.get? "tags" = some (.array items) ∧
          bag'.get? "tags" = some (.array items') ∧ Value.SameElements items items' := by
  have hperm : parcelFacts.Perm parcelFacts.reverse := (List.reverse_perm parcelFacts).symm
  have hmixed : Atom.Unmixed parcelFacts := by
    intro name
    by_cases hname : name = "fee"
    · subst hname
      exact Or.inl (by simp [Atom.AllOf, parcelFacts, Operator.family])
    · exact Or.inr (by simp [Atom.AllOf, parcelFacts, Operator.family, Ne.symm hname])
  obtain ⟨bag, h⟩ : ∃ bag, (empty (some Filter.parcels)).addAll parcelFacts = some bag := ⟨_, by rfl⟩
  obtain ⟨haccepted, hagree⟩ := addAll_perm hperm hmixed
  obtain ⟨bag', h'⟩ := haccepted.mp ⟨bag, h⟩
  obtain ⟨hhas, _, helements⟩ := hagree bag bag' h h'
  exact ⟨hperm, hmixed, bag, bag', h, h', hhas, helements _ List.mem_cons_self rfl⟩

end SlotBag

end Colloquy
