import Colloquy.Proofs.Value.Kind

namespace Colloquy.Value

/-- A constant that the type accepts, and at a type of arrays an array of such constants of the type of
its elements. -/
def IsConstantOf : Value → Ty → Prop
  | v, .array elem =>
    v.isGround = true ∧ (Ty.array elem).accepts v.ty = true ∧
      ∃ items, v = array items ∧ ∀ item ∈ items, item.IsConstantOf elem
  | v, ty => v.isGround = true ∧ ty.accepts v.ty = true

/-- Whether an array in a value, at a place where the type has arrays, holds behind its first element one
that the type of the elements does not accept. -/
def hasStray : Value → Ty → Bool
  | array items, .array elem =>
    items.tail.any (fun item => !elem.accepts item.ty) || items.any fun item => item.hasStray elem
  | _, _ => false

variable {v : Value} {ty elem : Ty} {items : List Value}

theorem isConstantOf_iff_of_not_array (h : ty.isArray = false) :
    v.IsConstantOf ty ↔ v.isGround = true ∧ ty.accepts v.ty = true := by
  cases ty with
  | array elem => cases h
  | _ => exact Iff.rfl

theorem IsConstantOf.isGround (h : v.IsConstantOf ty) : v.isGround = true := by
  cases ty <;> exact h.1

theorem IsConstantOf.accepts (h : v.IsConstantOf ty) : ty.accepts v.ty = true := by
  cases ty with
  | array elem => exact h.2.1
  | _ => exact h.2

theorem accepts_of_all (h : ∀ item ∈ items, elem.accepts item.ty = true) :
    (Ty.array elem).accepts (array items).ty = true := by
  cases items with
  | nil => exact Ty.accepts_any elem
  | cons first rest => exact h first List.mem_cons_self

theorem isConstantOf_array_iff :
    (array items).IsConstantOf (.array elem) ↔ ∀ item ∈ items, item.IsConstantOf elem := by
  constructor
  · rintro ⟨_, _, _, ⟨⟩, h⟩
    exact h
  · intro h
    refine ⟨?_, ?_, items, rfl, h⟩
    · exact allGround_iff.mpr fun item hitem => (h item hitem).isGround
    · exact accepts_of_all fun item hitem => (h item hitem).accepts

theorem hasStray_eq_false (h : ty.isArray = false) : v.hasStray ty = false := by
  cases ty with
  | array elem => cases h
  | _ => cases v <;> rfl

theorem hasStray_array_eq_false_iff :
    (array items).hasStray (.array elem) = false ↔
      (∀ item ∈ items.tail, elem.accepts item.ty = true) ∧
        ∀ item ∈ items, item.hasStray elem = false := by
  simp [hasStray]

/-- What a type accepts is a constant of it all the way down, if no element has gone astray. -/
theorem isConstantOf_iff (hv : v.isGround = true) :
    v.IsConstantOf ty ↔ ty.accepts v.ty = true ∧ v.hasStray ty = false := by
  induction ty generalizing v with
  | array elem ih =>
    constructor
    · intro h
      refine ⟨h.accepts, ?_⟩
      obtain ⟨items, rfl⟩ := exists_items_of_accepts (isConstant_of_isGround hv) h.accepts
      have hitems := isConstantOf_array_iff.mp h
      refine hasStray_array_eq_false_iff.mpr ⟨fun item hitem => ?_, fun item hitem => ?_⟩
      · exact (hitems item (List.mem_of_mem_tail hitem)).accepts
      · exact ((ih (hitems item hitem).isGround).mp (hitems item hitem)).2
    · rintro ⟨haccepts, hstray⟩
      obtain ⟨items, rfl⟩ := exists_items_of_accepts (isConstant_of_isGround hv) haccepts
      obtain ⟨htail, hwithin⟩ := hasStray_array_eq_false_iff.mp hstray
      refine isConstantOf_array_iff.mpr fun item hitem => ?_
      refine (ih (allGround_iff.mp hv item hitem)).mpr ⟨?_, hwithin item hitem⟩
      -- The type of an array is that of its first element; the check of strays is about the others.
      cases items with
      | nil => cases hitem
      | cons first rest =>
        rcases List.mem_cons.mp hitem with rfl | hrest
        · exact haccepts
        · exact htail item hrest
  | _ =>
    rw [isConstantOf_iff_of_not_array rfl, hasStray_eq_false rfl]
    simp [hv]

theorem isConstantOf_iff_of_accepts (hv : v.isGround = true) (h : ty.accepts v.ty = true) :
    v.IsConstantOf ty ↔ v.hasStray ty = false := by
  rw [isConstantOf_iff hv, h]
  simp

/-- The two ways to say that a constant is of a type all the way down. -/
theorem isConstantOf_iff_isOf : v.IsConstantOf ty ↔ v.isGround = true ∧ v.isOf ty = true := by
  induction ty generalizing v with
  | array elem ih =>
    constructor
    · intro h
      obtain ⟨items, rfl⟩ := exists_items_of_accepts (isConstant_of_isGround h.isGround) h.accepts
      have hitems := isConstantOf_array_iff.mp h
      exact ⟨h.isGround, allOf_iff.mpr fun item hitem => (ih.mp (hitems item hitem)).2⟩
    · rintro ⟨hv, h⟩
      obtain ⟨items, rfl, hitems⟩ := exists_items_of_isOf hv h
      refine isConstantOf_array_iff.mpr fun item hitem => ?_
      exact ih.mpr ⟨allGround_iff.mp hv item hitem, hitems item hitem⟩
  | _ => rw [isConstantOf_iff_of_not_array rfl, isOf_eq_accepts rfl]

end Colloquy.Value
