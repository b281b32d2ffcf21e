import Colloquy.Table.Basic

namespace Colloquy.Table

def calls : Table → List Call
  | invoke c => [c]
  | join l r _ | sequence l r => l.calls ++ r.calls
  | varRef _ _ | resultRef _ _ _ _ => []
  | filter t _ | project t _ | sort t _ _ | index t _ | slice t _ _ | compute t _ _ | named t _
  | aggregate t _ _ _ | history t _ _ | window t _ _ | timeSeries t _ _ => t.calls

/-- The leaf whose function a query passes on. -/
def source : Table → Table
  | join _ t _ | sequence _ t | filter t _ | project t _ | sort t _ _ | index t _ | slice t _ _
  | compute t _ _ | named t _ | aggregate t _ _ _ | history t _ _ | window t _ _
  | timeSeries t _ _ => t.source
  | t => t

/-- The function of the query or the results that a table refers to. -/
def reference? : Table → Option Signature
  | varRef _ function | resultRef _ _ _ function => some function
  | _ => none

theorem functionNames_eq_map_calls (t : Table) :
    t.functionNames = t.calls.map Call.functionName := by
  induction t with
  | join _ _ _ ihl ihr | sequence _ _ ihl ihr =>
    rw [functionNames, ihl, ihr, calls, List.map_append]
  | invoke | varRef | resultRef => rfl
  | _ => assumption

/-- The source of a query is a call or a reference. -/
theorem source_cases (t : Table) :
    (∃ c, t.source = invoke c) ∨ ∃ function, t.source.reference? = some function := by
  induction t with
  | invoke c => exact Or.inl ⟨c, rfl⟩
  | varRef _ function | resultRef _ _ _ function => exact Or.inr ⟨function, rfl⟩
  | join _ _ _ _ ih | sequence _ _ _ ih => exact ih
  | _ => assumption

theorem getLast?_calls {t : Table} {c : Call} (h : t.source = invoke c) :
    t.calls.getLast? = some c := by
  induction t with
  | invoke d =>
    cases h
    rfl
  | varRef | resultRef => cases h
  | join _ _ _ _ ih | sequence _ _ _ ih => rw [calls, List.getLast?_append, ih h, Option.some_or]
  | filter _ _ ih | project _ _ ih | sort _ _ _ ih | index _ _ ih | slice _ _ _ ih
  | compute _ _ _ ih | named _ _ ih | aggregate _ _ _ _ ih | history _ _ _ ih | window _ _ _ ih
  | timeSeries _ _ _ ih => exact ih h

/-- A projection shows fewer fields of a function, but it stays the same function. -/
theorem qualifiedName_signature (t : Table) :
    t.signature.qualifiedName = t.source.signature.qualifiedName := by
  induction t with
  | invoke | varRef | resultRef => rfl
  | join _ _ _ _ ih | sequence _ _ _ ih => exact ih
  | _ => assumption

theorem signature_of_reference? {t : Table} {function : Signature}
    (h : t.reference? = some function) : t.signature = function := by
  cases t with
  | varRef | resultRef => exact Option.some.inj h
  | _ => cases h

end Colloquy.Table
