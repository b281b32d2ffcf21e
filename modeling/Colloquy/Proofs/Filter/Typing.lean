import Colloquy.Proofs.Filter.Atoms
import Colloquy.Proofs.Ty.Acceptance
import Colloquy.Proofs.Value.Ground
import Colloquy.Typing

namespace Colloquy

/-- A row of constants in output fields, each of a type that the declared one accepts or is accepted
by. -/
def Row.Fits (s : Signature) (row : Row) : Prop :=
  ∀ name v, row.get? name = some v → v.isGround = true ∧
    ∃ a, s.argument? name = some a ∧ a.isInput = false ∧
      (a.ty.accepts v.ty = true ∨ v.ty.accepts a.ty = true)

namespace Filter

theorem allWellTyped_eq_all (s : Signature) (fs : List Filter) :
    allWellTyped s fs = fs.all (isWellTyped s) := by
  induction fs with
  | nil => rfl
  | cons f rest ih => simp [allWellTyped, ih]

theorem isInherited_isWellTyped (s : Signature) :
    IsInherited fun f => f.isWellTyped s = true where
  always := rfl
  never := rfl
  not_iff f := by rw [isWellTyped]
  join_iff k fs := by
    cases k <;> simp [Connective.join, isWellTyped, allWellTyped_eq_all]
  external := fun _ _ _ _ _ h => h

theorem fits_of_isWellTyped {s : Signature} {a : Atom} (h : a.isWellTyped s = true)
    (hv : a.value.isGround = true) :
    ∃ argument, s.argument? a.field = some argument ∧
      Atom.fits a.op argument.ty a.value = true := by
  unfold Atom.isWellTyped at h
  cases ha : s.argument? a.field with
  | none => simp [ha] at h
  | some argument =>
    refine ⟨argument, rfl, ?_⟩
    simp only [ha, Value.isConstant_of_isGround hv, Bool.not_true, Bool.false_or,
      Bool.and_eq_true] at h
    exact h.2

section Tests

variable {s : Signature} {row : Row} {bag : SlotBag} {a : Atom}

/-- A row asks of an atom no more than that both values denote something. -/
theorem testRow_ok (hv : a.value.isGround = true) (hrow : row.Fits s) :
    ∃ b, testRow row a = .ok b := by
  unfold testRow
  cases hfound : row.get? a.field with
  | none => exact ⟨false, rfl⟩
  | some found =>
    obtain ⟨p, hp⟩ := (Value.exists_plain_iff found).mpr (hrow a.field found hfound).1
    obtain ⟨q, hq⟩ := (Value.exists_plain_iff a.value).mpr hv
    cases a.op.family with
    | equality => exact ⟨p.same q, by simp [comparePlain, hp, hq, bind, Except.bind]⟩
    | _ => exact ⟨true, rfl⟩

end Tests

def parcels : Signature where
  isAction := false
  className := "com.post"
  name := "parcel"
  arguments := [⟨.output, "id", .entity "com.post:parcel", [], "id"⟩,
    ⟨.output, "fee", .currency, [], "fee"⟩, ⟨.output, "due", .date, [], "due"⟩,
    ⟨.output, "tags", .array .string, [], "tags"⟩]
  isList := true
  annotations := []
  canonical := "parcel"
  nodup := by decide

def dueParcel : Row :=
  [("id", .entity "p1" "com.post:parcel" .null),
    ("fee", .currency (.ofInt 15) (.text "eur")), ("due", .date ⟨2024, 3, 1, rfl⟩),
    ("tags", .array [])]

end Filter

end Colloquy
