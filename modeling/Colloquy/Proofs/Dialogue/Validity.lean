import Colloquy.Dialogue.Validity
import Colloquy.Proofs.Signature

namespace Colloquy

theorem Act.isKnown_iff_mem_known {act : Act} : act.isKnown = true ↔ act ∈ Act.known := by
  cases act <;> simp [isKnown, payloads?, known]

/-- A statement does something, its query is valid, and its calls fit their signatures and refer to
outputs of the query only. -/
structure Statement.WellFormed (s : Statement) : Prop where
  acts : s.table.isSome = true ∨ s.hasCall = true
  query : ∀ t, s.table = some t → t.isValid = true
  calls : ∀ c ∈ s.calls, c.isWellTyped = true
  bound : ∀ c ∈ s.calls, ∀ p ∈ c.params, ∀ name, p.value = .varRef name → s.provides name = true

/-- An item has results exactly when it is executed. -/
structure Item.WellFormed (i : Item) : Prop where
  results : i.results.isSome = i.isExecuted
  statement : i.statement.WellFormed

namespace Statement

theorem hasCall_iff {s : Statement} : s.hasCall = true ↔ s.calls ≠ [] := by
  unfold hasCall calls
  induction s.actions with
  | nil => simp
  | cons a rest ih =>
    cases a with
    | notify => simpa [Action.isCall, Action.call?] using ih
    | call c => simp [Action.isCall, Action.call?]

theorem hasCall_iff_exists_mem {s : Statement} : s.hasCall = true ↔ ∃ c, c ∈ s.calls := by
  rw [hasCall_iff, ← List.length_pos_iff, List.length_pos_iff_exists_mem]

theorem mem_calls_iff {s : Statement} {c : Call} : c ∈ s.calls ↔ .call c ∈ s.actions := by
  simp only [calls, List.mem_filterMap]
  constructor
  · rintro ⟨a, ha, hc⟩
    cases a with
    | notify => cases hc
    | call d =>
      cases hc
      exact ha
  · exact fun h => ⟨.call c, h, rfl⟩

theorem provides_iff {s : Statement} {name : String} :
    s.provides name = true ↔
      ∃ t, s.table = some t ∧ ∃ ty, (name, ty) ∈ t.signature.outputs := by
  unfold provides
  cases s.table with
  | none => simp
  | some t => simp [Signature.hasOutput_iff]

theorem unboundVariable?_eq_none_iff {s : Statement} {c : Call} :
    s.unboundVariable? c = none ↔
      ∀ p ∈ c.params, ∀ name, p.value = .varRef name → s.provides name = true := by
  simp only [unboundVariable?, List.findSome?_eq_none_iff]
  constructor
  · intro h p hp name hv
    have hn := h p hp
    rw [hv] at hn
    cases hs : s.provides name with
    | true => rfl
    | false => simp [hs] at hn
  · intro h p hp
    split
    next name hv => simp [h p hp name hv]
    next => rfl

theorem checkCalls_eq_ok_iff {s : Statement} {index : Nat} {cs : List Call} :
    s.checkCalls index cs = .ok () ↔
      ∀ c ∈ cs, c.isWellTyped = true ∧ s.unboundVariable? c = none := by
  induction cs with
  | nil => simp [checkCalls]
  | cons c cs ih =>
    rw [checkCalls, List.forall_mem_cons, ← ih]
    cases hc : c.isWellTyped with
    | false => simp
    | true => cases hu : s.unboundVariable? c <;> simp

theorem check_eq_ok_iff {s : Statement} {index : Nat} :
    s.check index = .ok () ↔ s.WellFormed := by
  have hcalls : s.checkCalls index s.calls = .ok () ↔
      (∀ c ∈ s.calls, c.isWellTyped = true) ∧
        ∀ c ∈ s.calls, ∀ p ∈ c.params, ∀ name, p.value = .varRef name →
          s.provides name = true := by
    simp only [checkCalls_eq_ok_iff, unboundVariable?_eq_none_iff]
    exact ⟨fun h => ⟨fun c hc => (h c hc).1, fun c hc => (h c hc).2⟩,
      fun h c hc => ⟨h.1 c hc, h.2 c hc⟩⟩
  unfold check
  cases ht : s.table with
  | none =>
    dsimp only
    cases ha : s.hasCall with
    | false =>
      simp only [Bool.false_eq_true, if_false, reduceCtorEq, false_iff]
      intro h
      simpa [ht, ha] using h.acts
    | true =>
      simp only [if_true, hcalls]
      exact ⟨fun h => ⟨Or.inr ha, by simp [ht], h.1, h.2⟩, fun h => ⟨h.calls, h.bound⟩⟩
  | some t =>
    dsimp only
    cases hv : t.isValid with
    | false =>
      simp only [Bool.false_eq_true, if_false, reduceCtorEq, false_iff]
      intro h
      simpa [hv] using h.query t ht
    | true =>
      simp only [if_true, hcalls]
      exact ⟨fun h => ⟨Or.inl (by simp [ht]), by simpa [ht] using hv, h.1, h.2⟩,
        fun h => ⟨h.calls, h.bound⟩⟩

end Statement

namespace Item

theorem isExecuted_iff {i : Item} : i.isExecuted = true ↔ i.status = .executed := by
  simp [isExecuted]

theorem isExecuted_eq_false_iff {i : Item} : i.isExecuted = false ↔ i.status ≠ .executed := by
  simp [isExecuted]

theorem wellFormed_iff {i : Item} :
    i.WellFormed ↔
      (i.results.isSome = true ↔ i.status = .executed) ∧
      (i.statement.table.isSome = true ∨ ∃ c, .call c ∈ i.statement.actions) ∧
      (∀ t, i.statement.table = some t → t.isValid = true) ∧
      ∀ c, .call c ∈ i.statement.actions →
        c.isWellTyped = true ∧ ∀ p ∈ c.params, ∀ name, p.value = .varRef name →
          ∃ t, i.statement.table = some t ∧ ∃ ty, (name, ty) ∈ t.signature.outputs := by
  simp only [← Statement.mem_calls_iff, ← Statement.hasCall_iff_exists_mem,
    ← Statement.provides_iff, ← isExecuted_iff, ← Bool.eq_iff_iff]
  constructor
  · intro h
    refine ⟨h.results, h.statement.acts, h.statement.query, fun c hc => ⟨?_, ?_⟩⟩
    · exact h.statement.calls c hc
    · exact h.statement.bound c hc
  · rintro ⟨hresults, hacts, hquery, hcalls⟩
    exact ⟨hresults, hacts, hquery, fun c hc => (hcalls c hc).1, fun c hc => (hcalls c hc).2⟩

end Item

namespace State

/-- An executed item has only executed items before it. -/
def Ordered (items : List Item) : Prop :=
  items.Pairwise fun i j => j.isExecuted = true → i.isExecuted = true

theorem ordered_cons {i : Item} {rest : List Item} :
    Ordered (i :: rest) ↔
      (∀ j ∈ rest, j.isExecuted = true → i.isExecuted = true) ∧ Ordered rest :=
  List.pairwise_cons

theorem ordered_append {done rest : List Item} (hdone : ∀ i ∈ done, i.isExecuted = true)
    (hrest : ∀ i ∈ rest, i.isExecuted = false) : Ordered (done ++ rest) := by
  refine List.pairwise_append.mpr ⟨?_, ?_, ?_⟩
  · exact List.pairwise_of_forall_mem_list (fun i hi _ _ _ => hdone i hi)
  · exact List.pairwise_of_forall_mem_list (fun i _ j hj he => by simp [hrest j hj] at he)
  · exact fun i hi _ _ _ => hdone i hi

theorem ordered_iff_exists_append {items : List Item} :
    Ordered items ↔ ∃ done rest, items = done ++ rest ∧ (∀ i ∈ done, i.isExecuted = true) ∧
      ∀ i ∈ rest, i.isExecuted = false := by
  constructor
  · intro h
    induction items with
    | nil => exact ⟨[], [], rfl, by simp, by simp⟩
    | cons i items ih =>
      obtain ⟨hfirst, hlater⟩ := ordered_cons.mp h
      cases hi : i.isExecuted with
      | true =>
        obtain ⟨done, rest, rfl, hdone, hrest⟩ := ih hlater
        exact ⟨i :: done, rest, rfl, List.forall_mem_cons.mpr ⟨hi, hdone⟩, hrest⟩
      | false =>
        -- The first item that is not executed ends the front part, since none behind it is.
        refine ⟨[], i :: items, rfl, by simp, List.forall_mem_cons.mpr ⟨hi, ?_⟩⟩
        intro j hj
        cases hx : j.isExecuted with
        | false => rfl
        | true => simp [hfirst j hj hx] at hi
  · rintro ⟨done, rest, rfl, hdone, hrest⟩
    exact ordered_append hdone hrest

theorem checkItems_cons_eq_ok_iff {index : Nat} {seen : Bool} {i : Item} {rest : List Item} :
    checkItems index seen (i :: rest) = .ok () ↔
      i.WellFormed ∧ (seen = true → i.isExecuted = false) ∧
        checkItems (index + 1) (seen || !i.isExecuted) rest = .ok () := by
  have hi : i.WellFormed ↔ i.results.isSome = i.isExecuted ∧
      i.statement.check index = .ok () := by
    rw [Statement.check_eq_ok_iff]
    exact ⟨fun h => ⟨h.results, h.statement⟩, fun h => ⟨h.1, h.2⟩⟩
  rw [checkItems, hi]
  cases i.isExecuted <;> cases seen <;> cases i.results <;>
    cases i.statement.check index <;> simp

theorem checkItems_eq_ok_iff {index : Nat} {seen : Bool} {items : List Item} :
    checkItems index seen items = .ok () ↔
      (∀ i ∈ items, i.WellFormed) ∧ Ordered items ∧
        (seen = true → ∀ i ∈ items, i.isExecuted = false) := by
  induction items generalizing index seen with
  | nil => simp [checkItems, Ordered]
  | cons i rest ih =>
    rw [checkItems_cons_eq_ok_iff, ih, ordered_cons, List.forall_mem_cons]
    constructor
    · rintro ⟨hi, hseen, hrest, hord, hlater⟩
      refine ⟨⟨hi, hrest⟩, ⟨?_, hord⟩, ?_⟩
      · intro j hj he
        cases hx : i.isExecuted with
        | true => rfl
        | false => rw [hlater (by simp [hx]) j hj] at he; cases he
      · intro hs
        rw [List.forall_mem_cons]
        exact ⟨hseen hs, hlater (by simp [hs])⟩
    · rintro ⟨⟨hi, hrest⟩, ⟨hfirst, hord⟩, hseen⟩
      refine ⟨hi, fun hs => (hseen hs) i List.mem_cons_self, hrest, hord, ?_⟩
      intro hlate j hj
      rcases Bool.or_eq_true_iff.mp hlate with hs | hx
      · exact hseen hs j (List.mem_cons_of_mem _ hj)
      · cases he : j.isExecuted with
        | false => rfl
        | true => simp [hfirst j hj he] at hx

theorem isValid_iff_check_eq_ok {s : State} : s.isValid = true ↔ s.check = .ok () := by
  unfold isValid
  cases s.check <;> simp [Except.isOk, Except.toBool]

theorem isValid_iff {s : State} :
    s.isValid = true ↔ s.policy = transaction ∧ s.act.isKnown = true ∧
      (∀ i ∈ s.history, i.WellFormed) ∧ Ordered s.history := by
  rw [isValid_iff_check_eq_ok]
  unfold check
  by_cases hp : s.policy = transaction
  · cases ha : s.act.isKnown <;> simp [hp, checkItems_eq_ok_iff]
  · simp [hp]

/-- The check accepts a state exactly when its policy and act are known, its executed items come
first and are those with results, and each item has a query or a call, where the query is valid, the
calls fit their signatures, and a parameter refers to outputs of the query only. -/
theorem check_decides {s : State} :
    s.check = .ok () ↔
      s.policy = transaction ∧ s.act ∈ Act.known ∧
      (∃ done rest, s.history = done ++ rest ∧ (∀ i ∈ done, i.status = .executed) ∧
        ∀ i ∈ rest, i.status ≠ .executed) ∧
      ∀ i ∈ s.history,
        (i.results.isSome = true ↔ i.status = .executed) ∧
        (i.statement.table.isSome = true ∨ ∃ c, .call c ∈ i.statement.actions) ∧
        (∀ t, i.statement.table = some t → t.isValid = true) ∧
        ∀ c, .call c ∈ i.statement.actions →
          c.isWellTyped = true ∧ ∀ p ∈ c.params, ∀ name, p.value = .varRef name →
            ∃ t, i.statement.table = some t ∧ ∃ ty, (name, ty) ∈ t.signature.outputs := by
  simp only [← isValid_iff_check_eq_ok, isValid_iff, Act.isKnown_iff_mem_known,
    ordered_iff_exists_append, Item.isExecuted_iff, Item.isExecuted_eq_false_iff,
    ← Item.wellFormed_iff]
  constructor
  · rintro ⟨hpolicy, hact, hitems, hfirst⟩
    exact ⟨hpolicy, hact, hfirst, hitems⟩
  · rintro ⟨hpolicy, hact, hfirst, hitems⟩
    exact ⟨hpolicy, hact, hitems, hfirst⟩

end State

end Colloquy
