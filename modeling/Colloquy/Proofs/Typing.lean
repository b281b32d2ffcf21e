import Colloquy.Proofs.Call
import Colloquy.Proofs.Filter.Typing
import Colloquy.Proofs.Value.Constant

namespace Colloquy

/-- The type that a value has to be of to be compared with a field of type `ty`. -/
def Operator.operandTy? (op : Operator) (ty : Ty) : Option Ty :=
  match op.family with
  | .containment =>
    match ty with
    | .array elem => some elem
    | _ => none
  | .membership => some (.array ty)
  | .unknown => none
  | _ => some ty

theorem Value.isString_ty_array {items : List Value} : (array items).ty.isString = false := by
  cases items <;> rfl

theorem Atom.accepts_of_fits {op : Operator} {ty : Ty} {items : List Value}
    (h : fits op ty (.array items) = true) :
    ∃ operand, op.operandTy? ty = some operand ∧ operand.accepts (Value.array items).ty = true := by
  cases op with
  | equal => exact ⟨ty, rfl, h⟩
  | like =>
    refine ⟨ty, rfl, ?_⟩
    cases ty with
    | string => exact h
    | entity kind => simpa [fits, Value.isString_ty_array] using h
    | _ => cases h
  | contains | containsLike =>
    cases ty with
    | array elem => exact ⟨elem, rfl, h⟩
    | _ => cases h
  | inArray | inArrayLike =>
    exact ⟨.array ty, rfl, Value.accepts_of_all fun item hitem => List.all_eq_true.mp h item hitem⟩
  | atLeast | atMost => exact ⟨ty, rfl, (Bool.and_eq_true_iff.mp h).2⟩
  | other => cases h

theorem Call.accepts_of_isWellTyped {c : Call} {p : Param} (h : c.isWellTyped = true)
    (hp : p ∈ c.params) (hv : p.value.isConstant = true) :
    ∃ argument, c.signature.argument? p.name = some argument ∧ argument.isInput = true ∧
      argument.ty.accepts p.value.ty = true := by
  obtain ⟨argument, hargument, hin, haccepts⟩ :=
    acceptsParam_iff.mp ((isWellTyped_iff.mp h).2 p hp)
  exact ⟨argument, hargument, hin, haccepts hv⟩

/-- A constant that a type accepts, or that the checks of filters and calls let through, is of the type that
is asked for all the way down exactly if no element of it has gone astray. -/
theorem constants_of_checks {v : Value} (hv : v.isGround = true) :
    (∀ ty : Ty, ty.accepts v.ty = true → (v.IsConstantOf ty ↔ v.hasStray ty = false)) ∧
    (∀ items, v = .array items → ∀ (s : Signature) (f : Filter), f.isWellTyped s = true →
      ∀ field op, .atom ⟨field, op, v⟩ ∈ f.slotClauses →
        ∃ argument operand, s.argument? field = some argument ∧
          op.operandTy? argument.ty = some operand ∧
          (v.IsConstantOf operand ↔ v.hasStray operand = false)) ∧
    ∀ c : Call, c.isWellTyped = true → ∀ name, ⟨name, v⟩ ∈ c.params →
      ∃ argument, c.signature.argument? name = some argument ∧
        (v.IsConstantOf argument.ty ↔ v.hasStray argument.ty = false) := by
  refine ⟨fun ty => Value.isConstantOf_iff_of_accepts hv, ?_, ?_⟩
  · rintro items rfl s f hf field op ha
    have hwell : (Filter.atom ⟨field, op, .array items⟩).isWellTyped s = true :=
      (Filter.isInherited_isWellTyped s).of_mem_slotClauses hf ha
    obtain ⟨argument, hargument, hfits⟩ := Filter.fits_of_isWellTyped hwell hv
    obtain ⟨operand, hoperand, haccepts⟩ := Atom.accepts_of_fits hfits
    exact ⟨argument, operand, hargument, hoperand, Value.isConstantOf_iff_of_accepts hv haccepts⟩
  · intro c hc name hp
    obtain ⟨argument, hargument, _, haccepts⟩ :=
      Call.accepts_of_isWellTyped hc hp (Value.isConstant_of_isGround hv)
    exact ⟨argument, hargument, Value.isConstantOf_iff_of_accepts hv haccepts⟩

/-- Parcels that are either just fragile, or heavy and late. -/
def eitherTags : Value :=
  .array [.array [.string "fragile"], .array [.string "heavy", .string "late"]]

theorem constants_of_checks_parcels :
    eitherTags.isGround = true ∧
      (Filter.atom ⟨"tags", .inArray, eitherTags⟩).isWellTyped Filter.parcels = true ∧
      eitherTags.IsConstantOf (.array (.array .string)) := by
  have hv : eitherTags.isGround = true := rfl
  have hf : (Filter.atom ⟨"tags", .inArray, eitherTags⟩).isWellTyped Filter.parcels = true := by
    decide
  obtain ⟨argument, operand, hargument, hoperand, hiff⟩ :=
    (constants_of_checks hv).2.1 _ rfl _ _ hf _ _ List.mem_cons_self
  cases hargument
  cases hoperand
  exact ⟨hv, hf, hiff.mpr (by decide)⟩

/-- A number behind the first tag is no tag, and the check lets it pass. -/
theorem stray_passes :
    let tags := Value.array [.string "fragile", .number (.ofInt 3)]
    tags.isGround = true ∧ (Ty.array .string).accepts tags.ty = true ∧
      (Filter.atom ⟨"tags", .equal, tags⟩).isWellTyped Filter.parcels = true ∧
      ¬ tags.IsConstantOf (.array .string) := by
  intro tags
  have hv : tags.isGround = true := rfl
  refine ⟨hv, by decide, by decide, fun h => ?_⟩
  cases ((Value.isConstantOf_iff hv).mp h).2

end Colloquy
