import Colloquy.Exchange.Rule
import Colloquy.Proofs.Dialogue.Preservation

namespace Colloquy

namespace Step

/-- A step that adds an accepted item under the act of execution, or nothing under another act. -/
def IsUserTurn (s : State) (step : Step) : Prop :=
  match step.addition? s with
  | none => step.act ≠ .execute
  | some a => step.act = .execute ∧ a.status = .accepted ∧ ∃ i, a.items = [i]

/-- A step that proposes one item or adds nothing. -/
def IsAgentTurn (s : State) (step : Step) : Prop :=
  ∀ a, step.addition? s = some a → a.status = .proposed ∧ ∃ i, a.items = [i]

variable {s : State} {step : Step}

theorem IsUserTurn.accepts (h : step.IsUserTurn s) :
    ∀ a, step.addition? s = some a → a.status = .accepted := by
  intro a ha
  simp only [IsUserTurn, ha] at h
  exact h.2.1

theorem IsUserTurn.history_eq (h : step.IsUserTurn s) :
    step.history s = s.executed ++ (step.added s ++ step.left s) := by
  refine history_eq_of_accepted fun a ha hp => ?_
  rw [h.accepts a ha] at hp
  cases hp

theorem IsUserTurn.length_added (h : step.IsUserTurn s) :
    (step.added s).length = if step.act = .execute then 1 else 0 := by
  cases ha : step.addition? s with
  | none =>
    simp only [IsUserTurn, ha] at h
    simp [added_of_none ha, h]
  | some a =>
    simp only [IsUserTurn, ha] at h
    obtain ⟨hact, _, i, hi⟩ := h
    simp [added_of_some ha, hact, hi]

theorem IsUserTurn.status_of_mem_added (h : step.IsUserTurn s) {i : Item}
    (hi : i ∈ step.added s) : i.status = .accepted := by
  obtain ⟨a, ha, hn⟩ := mem_added_iff.mp hi
  exact (status_of_mem_addition ha hn).1.trans (h.accepts a ha)

/-- What the user's turn puts behind the executed items starts with an item that is not executed,
the new one or the next one. -/
theorem IsUserTurn.isExecuted_head (h : step.IsUserTurn s) :
    ∀ i, (step.added s ++ step.left s).head? = some i → i.isExecuted = false := by
  intro i hi
  cases ha : step.addition? s with
  | none =>
    have hkept : (State.unproposed s.pending).head? = some i := by
      rw [added_of_none ha, left_of_none ha, List.nil_append] at hi
      exact hi
    rw [State.unproposed, List.head?_takeWhile] at hkept
    exact State.isExecuted_eq_false_of_next (Option.filter_eq_some_iff.mp hkept).1
  | some a =>
    simp only [IsUserTurn, ha] at h
    obtain ⟨_, hstatus, j, hj⟩ := h
    rw [added_of_some ha, hj] at hi
    obtain rfl : j = i := Option.some.inj hi
    have hnew : j.status = a.status := (status_of_mem_addition ha (by simp [hj])).1
    simp [Item.isExecuted, hnew, hstatus]

theorem IsUserTurn.next_or_mem_left (h : step.IsUserTurn s) {i : Item}
    (hi : i ∈ State.unproposed s.pending) : s.next? = some i ∨ i ∈ step.left s := by
  cases ha : step.addition? s with
  | none => exact Or.inr (left_of_none ha ▸ hi)
  | some a =>
    have hne : a.status ≠ .proposed := by simp [h.accepts a ha]
    rw [left_of_some ha]
    exact State.next_or_mem_remaining hne _ hi

theorem IsAgentTurn.history_eq (h : step.IsAgentTurn s) :
    step.history s = s.executed ++ (step.left s ++ step.added s) :=
  history_eq_of_proposed fun a ha => (h a ha).1

theorem IsAgentTurn.length_added_le (h : step.IsAgentTurn s) : (step.added s).length ≤ 1 := by
  cases ha : step.addition? s with
  | none => simp [added_of_none ha]
  | some a =>
    obtain ⟨_, i, hi⟩ := h a ha
    simp [added_of_some ha, hi]

theorem IsAgentTurn.status_of_mem_added (h : step.IsAgentTurn s) {i : Item}
    (hi : i ∈ step.added s) : i.status = .proposed := by
  obtain ⟨a, ha, hn⟩ := mem_added_iff.mp hi
  exact (status_of_mem_addition ha hn).1.trans (h a ha).1

theorem IsAgentTurn.left_sublist_unproposed (h : step.IsAgentTurn s) :
    (step.left s).Sublist (State.unproposed s.pending) := by
  cases ha : step.addition? s with
  | none => exact left_of_none ha ▸ s.remaining_proposed_sublist false
  | some a =>
    rw [left_of_some ha, (h a ha).1]
    exact s.remaining_proposed_sublist a.replacesNext

end Step

end Colloquy
