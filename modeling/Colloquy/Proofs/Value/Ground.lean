import Colloquy.Value.Plain

namespace Colloquy.Value

mutual

/-- Whether a value holds neither references nor undefined values, at any depth. -/
def isGround : Value → Bool
  | array items => allGround items
  | varRef _ => false
  | undefined _ => false
  | _ => true

def allGround : List Value → Bool
  | [] => true
  | v :: rest => isGround v && allGround rest

end

theorem allGround_iff {vs : List Value} : allGround vs = true ↔ ∀ v ∈ vs, v.isGround = true := by
  induction vs with
  | nil => simp [allGround]
  | cons v rest ih => simp [allGround, ih]

mutual

theorem exists_plain_iff : ∀ v : Value, (∃ p, v.plain = .ok p) ↔ v.isGround = true
  | array items => by
    rw [isGround, ← exists_plains_iff items, plain]
    cases plains items <;> simp [Except.map]
  | varRef _ | undefined _ => by simp [plain, isGround]
  | string _ | number _ | boolean _ | enum _ | entity _ _ _ | currency _ _ | measure _ _ | date _
  | location _ _ _ => by simp [plain, isGround]

theorem exists_plains_iff : ∀ vs : List Value, (∃ ps, plains vs = .ok ps) ↔ allGround vs = true
  | [] => by simp [plains, allGround]
  | v :: rest => by
    rw [allGround, Bool.and_eq_true, ← exists_plain_iff v, ← exists_plains_iff rest, plains]
    cases v.plain <;> cases plains rest <;> simp [Except.map]

end

theorem isConstant_of_isGround {v : Value} (h : v.isGround = true) : v.isConstant = true := by
  cases v <;> first | rfl | cases h

theorem ty_ne_any {v : Value} (h : v.isGround = true) : v.ty ≠ .any := by
  cases v with
  | array items => cases items <;> simp [ty]
  | varRef _ | undefined _ => cases h
  | _ => simp [ty]

end Colloquy.Value
