import Colloquy.Ty.Basic

namespace Colloquy.Ty

/-- Whether a type, or that of the elements of its arrays at some depth, is left open. -/
def hasAny : Ty → Bool
  | any => true
  | array elem => elem.hasAny
  | _ => false

@[simp] theorem any_accepts (a : Ty) : any.accepts a = true := by
  cases a <;> rfl

@[simp] theorem accepts_any (a : Ty) : a.accepts any = true := by
  cases a <;> rfl

attribute [local simp] accepts

theorem accepts_self (a : Ty) : a.accepts a = true := by
  induction a with
  | array elem ih => exact ih
  | _ => simp

theorem accepts_array_iff {a elem : Ty} :
    a.accepts (array elem) = true ↔ a = any ∨ ∃ e, a = array e ∧ e.accepts elem = true := by
  cases a <;> simp

theorem array_accepts_iff {elem c : Ty} :
    (array elem).accepts c = true ↔ c = any ∨ ∃ e, c = array e ∧ elem.accepts e = true := by
  cases c <;> simp

theorem accepts_enum_iff {a : Ty} {entries : List String} :
    a.accepts (enum entries) = true ↔ a = any ∨ ∃ es, a = enum es ∧ entries ⊆ es := by
  cases a <;> simp [List.subset_def]

theorem enum_accepts_iff {c : Ty} {entries : List String} :
    (enum entries).accepts c = true ↔ c = any ∨ ∃ es, c = enum es ∧ es ⊆ entries := by
  cases c <;> simp [List.subset_def]

theorem eq_of_accepts {ty source : Ty} (hty : ty ≠ .any) (hsource : source ≠ .any)
    (harray : ty.isArray = false) (henum : ty.isEnum = false) (h : ty.accepts source = true) :
    source = ty := by
  cases ty <;> cases source <;> simp_all [isArray, isEnum]

/-- A type without parts of its own is accepted by itself and by the open type alone. -/
theorem eq_any_or_eq_of_accepts {a b : Ty} (h : a.accepts b = true) (hany : b ≠ any)
    (harray : b.isArray = false) (henum : b.isEnum = false) : a = any ∨ a = b := by
  cases b <;> cases a <;> simp_all [isArray, isEnum]

theorem accepts_trans {a b c : Ty} (hb : b.hasAny = false) (hab : a.accepts b = true)
    (hbc : b.accepts c = true) : a.accepts c = true := by
  induction b generalizing a c with
  | any => cases hb
  | array elem ih =>
    rcases accepts_array_iff.mp hab with rfl | ⟨e, rfl, he⟩
    · exact any_accepts c
    · rcases array_accepts_iff.mp hbc with rfl | ⟨f, rfl, hf⟩
      · exact accepts_any _
      · exact accepts_array_iff.mpr (Or.inr ⟨e, rfl, ih hb he hf⟩)
  | enum entries =>
    rcases accepts_enum_iff.mp hab with rfl | ⟨es, rfl, hes⟩
    · exact any_accepts c
    · rcases enum_accepts_iff.mp hbc with rfl | ⟨fs, rfl, hfs⟩
      · exact accepts_any _
      · exact accepts_enum_iff.mpr (Or.inr ⟨es, rfl, List.Subset.trans hfs hes⟩)
  | _ =>
    rcases eq_any_or_eq_of_accepts hab nofun rfl rfl with rfl | rfl
    · exact any_accepts c
    · exact hbc

/-- A type that is left open at some depth links types of which one does not accept the other. -/
theorem exists_linked_of_hasAny {b : Ty} (h : b.hasAny = true) :
    ∃ a c : Ty, a.accepts b = true ∧ b.accepts c = true ∧ a.accepts c = false := by
  induction b with
  | any => exact ⟨string, number, rfl, rfl, rfl⟩
  | array elem ih =>
    obtain ⟨a, c, hab, hbc, hac⟩ := ih h
    exact ⟨array a, array c, hab, hbc, hac⟩
  | _ => cases h

/-- Acceptance is reflexive, and it is transitive through a type exactly if nothing in the type is left
open. -/
theorem accepts_preorder :
    (∀ a : Ty, a.accepts a = true) ∧
      ∀ b : Ty, b.hasAny = false ↔
        ∀ a c : Ty, a.accepts b = true → b.accepts c = true → a.accepts c = true := by
  refine ⟨accepts_self, fun b => ⟨fun hb a c => accepts_trans hb, fun h => ?_⟩⟩
  cases hb : b.hasAny with
  | false => rfl
  | true =>
    obtain ⟨a, c, hab, hbc, hac⟩ := exists_linked_of_hasAny hb
    rw [h a c hab hbc] at hac
    cases hac

theorem accepts_preorder_prices :
    (array (enum ["cheap", "moderate"])).hasAny = false ∧
      (array (enum ["cheap", "moderate", "luxury"])).accepts
        (array (enum ["cheap", "moderate"])) = true ∧
      (array (enum ["cheap", "moderate"])).accepts (array (enum ["moderate"])) = true ∧
      (array (enum ["cheap", "moderate", "luxury"])).accepts (array (enum ["moderate"])) = true :=
  ⟨rfl, by decide, by decide,
    (accepts_preorder.2 (array (enum ["cheap", "moderate"]))).mp rfl _ _ (by decide) (by decide)⟩

end Colloquy.Ty
