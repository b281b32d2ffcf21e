import Colloquy.Proofs.Value.Ground

namespace Colloquy.Value

mutual

/-- The references and undefined values in a value, from the left. -/
def placeholders : Value → List Value
  | array items => placeholdersAll items
  | varRef name => [varRef name]
  | undefined isLocal => [undefined isLocal]
  | _ => []

def placeholdersAll : List Value → List Value
  | [] => []
  | v :: rest => placeholders v ++ placeholdersAll rest

end

mutual

theorem placeholders_eq_nil_iff : ∀ v : Value, v.placeholders = [] ↔ v.isGround = true
  | array items => by rw [placeholders, isGround, placeholdersAll_eq_nil_iff items]
  | varRef _ | undefined _ => by simp [placeholders, isGround]
  | string _ | number _ | boolean _ | enum _ | entity _ _ _ | currency _ _ | measure _ _ | date _
  | location _ _ _ => by simp [placeholders, isGround]

theorem placeholdersAll_eq_nil_iff :
    ∀ vs : List Value, placeholdersAll vs = [] ↔ allGround vs = true
  | [] => by simp [placeholdersAll, allGround]
  | v :: rest => by
    rw [placeholdersAll, allGround, List.append_eq_nil_iff, Bool.and_eq_true,
      placeholders_eq_nil_iff v, placeholdersAll_eq_nil_iff rest]

end

theorem exists_plain_iff_placeholders (v : Value) :
    (∃ p, v.plain = .ok p) ↔ v.placeholders = [] :=
  (exists_plain_iff v).trans (placeholders_eq_nil_iff v).symm

mutual

theorem plain_eq_error_iff : ∀ (v : Value) (e : EvalError),
    v.plain = .error e ↔ ∃ hole, v.placeholders.head? = some hole ∧ hole.plain = .error e
  | array items, e => by
    rw [placeholders, ← plains_eq_error_iff items e, plain]
    cases plains items <;> simp [Except.map]
  | varRef _, _ | undefined _, _ => by simp [placeholders, plain]
  | string _, _ | number _, _ | boolean _, _ | enum _, _ | entity _ _ _, _ | currency _ _, _
  | measure _ _, _ | date _, _ | location _ _ _, _ => by simp [placeholders, plain]

theorem plains_eq_error_iff : ∀ (vs : List Value) (e : EvalError),
    plains vs = .error e ↔
      ∃ hole, (placeholdersAll vs).head? = some hole ∧ hole.plain = .error e
  | [], _ => by simp [plains, placeholdersAll]
  | v :: rest, e => by
    have hfirst := plain_eq_error_iff v
    rw [plains, placeholdersAll, List.head?_append]
    cases hv : v.plain with
    | error e' =>
      obtain ⟨hole, hhead, hhole⟩ := (hfirst e').mp hv
      simp [hhead, hhole]
    | ok p =>
      -- What denotes something has no placeholder, so the first one is in the rest.
      have hnone : v.placeholders = [] := (exists_plain_iff_placeholders v).mp ⟨p, hv⟩
      rw [hnone, List.head?_nil, Option.none_or, ← plains_eq_error_iff rest e]
      cases plains rest <;> simp [Except.map]

end

/-- What denotes something counts as constant. So do the arrays with a placeholder at some depth, and
nothing else; of these, as of all values, the first placeholder says why they denote nothing. -/
theorem isConstant_iff (v : Value) :
    (v.isConstant = true ↔ (∃ p, v.plain = .ok p) ∨
        ∃ items, v = array items ∧ (array items).placeholders ≠ []) ∧
      ∀ e, v.plain = .error e ↔
        ∃ hole, v.placeholders.head? = some hole ∧ hole.plain = .error e := by
  refine ⟨?_, plain_eq_error_iff v⟩
  rw [exists_plain_iff_placeholders]
  cases v with
  | array items => by_cases h : (array items).placeholders = [] <;> simp [isConstant, h]
  | _ => simp [isConstant, placeholders]

/-- An array of a reference counts as constant and denotes nothing. -/
theorem isConstant_array_varRef :
    (array [varRef "found"]).isConstant = true ∧
      (array [varRef "found"]).plain = .error (.unbound "found") :=
  ⟨rfl, rfl⟩

end Colloquy.Value
