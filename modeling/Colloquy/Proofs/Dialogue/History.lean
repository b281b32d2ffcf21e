import Colloquy.Dialogue.Builder
import Colloquy.Proofs.Dialogue.Validity
import Colloquy.Exchange.Stop

namespace Colloquy

namespace State

theorem executed_append_pending (s : State) : s.executed ++ s.pending = s.history :=
  List.takeWhile_append_dropWhile

theorem isExecuted_of_mem_executed {s : State} {i : Item} (h : i ∈ s.executed) :
    i.isExecuted = true :=
  List.all_eq_true.mp List.all_takeWhile i h

theorem pending_sublist (s : State) : s.pending.Sublist s.history :=
  List.dropWhile_sublist _

theorem mem_history_of_mem_executed {s : State} {i : Item} (h : i ∈ s.executed) :
    i ∈ s.history := by
  rw [← s.executed_append_pending]
  exact List.mem_append_left _ h

theorem isProposed_eq_false_of_isExecuted {i : Item} (h : i.isExecuted = true) :
    i.isProposed = false := by
  have hs : i.status = .executed := by simpa [Item.isExecuted] using h
  simp [Item.isProposed, hs]

theorem isExecuted_eq_false_of_isProposed {i : Item} (h : i.isProposed = true) :
    i.isExecuted = false := by
  have hs : i.status = .proposed := by simpa [Item.isProposed] using h
  simp [Item.isExecuted, hs]

theorem isExecuted_eq_false_of_next {s : State} {i : Item} (h : s.next? = some i) :
    i.isExecuted = false := by
  have hd := List.head?_dropWhile_not Item.isExecuted s.history
  have hh : (s.history.dropWhile Item.isExecuted).head? = some i := h
  simpa [hh] using hd

theorem isExecuted_eq_false_of_mem_pending {s : State} (h : Ordered s.history) {i : Item}
    (hi : i ∈ s.pending) : i.isExecuted = false := by
  cases hp : s.pending with
  | nil => simp [hp] at hi
  | cons first rest =>
    have hnext : s.next? = some first := by rw [next?, hp, List.head?_cons]
    have hfirst := isExecuted_eq_false_of_next hnext
    have hord := h.sublist s.pending_sublist
    rw [hp] at hi hord
    rcases List.mem_cons.mp hi with rfl | hr
    · exact hfirst
    · cases he : i.isExecuted with
      | false => rfl
      | true =>
        have hf := (ordered_cons.mp hord).1 i hr he
        rw [hfirst] at hf
        cases hf

theorem takeWhile_append_of_head? {α : Type} {p : α → Bool} {done rest : List α}
    (hdone : ∀ a ∈ done, p a = true) (hrest : ∀ a, rest.head? = some a → p a = false) :
    (done ++ rest).takeWhile p = done := by
  rw [List.takeWhile_append_of_pos hdone]
  cases rest with
  | nil => simp
  | cons a _ => simp [hrest a rfl]

theorem executed_eq_of_history {s : State} {done rest : List Item} (h : s.history = done ++ rest)
    (hdone : ∀ i ∈ done, i.isExecuted = true)
    (hrest : ∀ i, rest.head? = some i → i.isExecuted = false) : s.executed = done := by
  rw [executed, h]
  exact takeWhile_append_of_head? hdone hrest

theorem pending_eq_of_history {s : State} {done rest : List Item} (h : s.history = done ++ rest)
    (hdone : ∀ i ∈ done, i.isExecuted = true)
    (hrest : ∀ i, rest.head? = some i → i.isExecuted = false) : s.pending = rest := by
  have hs := s.executed_append_pending
  rw [executed_eq_of_history h hdone hrest, h] at hs
  exact List.append_cancel_left hs

/-- The pending items that remain beside new items of a status: those before the first proposal, or
all that are no proposals, without the next item if it is replaced. -/
def remaining (s : State) (status : Status) (replaceNext : Bool) : List Item :=
  if status = .proposed then
    if replaceNext then (unproposed s.pending).drop 1 else unproposed s.pending
  else (s.pendingAfter replaceNext).filter (!·.isProposed)

theorem addedHistory_eq (s : State) (status : Status) (items : List Item) (replaceNext : Bool) :
    s.addedHistory status items replaceNext =
      if status = .proposed then s.executed ++ s.remaining status replaceNext ++ items
      else s.executed ++ items ++ s.remaining status replaceNext := by
  unfold addedHistory remaining
  by_cases h : status = .proposed <;> simp [h]

theorem unproposed_history (s : State) :
    unproposed s.history = s.executed ++ s.remaining .proposed false := by
  have h : ∀ i ∈ s.executed, (!i.isProposed) = true := by
    intro i hi
    simp [isProposed_eq_false_of_isExecuted (isExecuted_of_mem_executed hi)]
  rw [← s.executed_append_pending, unproposed, List.takeWhile_append_of_pos h]
  rfl

theorem remaining_sublist (s : State) (status : Status) (replaceNext : Bool) :
    (s.remaining status replaceNext).Sublist s.pending := by
  unfold remaining pendingAfter unproposed
  cases replaceNext <;> split
  · exact List.takeWhile_sublist _
  · exact List.filter_sublist
  · exact (List.drop_sublist _ _).trans (List.takeWhile_sublist _)
  · exact List.filter_sublist.trans (List.drop_sublist _ _)

theorem isProposed_eq_false_of_mem_remaining {s : State} {status : Status} {replaceNext : Bool}
    {i : Item} (h : i ∈ s.remaining status replaceNext) : i.isProposed = false := by
  have hkept : ∀ i ∈ unproposed s.pending, i.isProposed = false := by
    intro i hi
    simpa using List.all_eq_true.mp List.all_takeWhile i hi
  unfold remaining at h
  split at h
  · split at h
    · exact hkept i (List.mem_of_mem_drop h)
    · exact hkept i h
  · simpa using (List.mem_filter.mp h).2

theorem remaining_proposed_sublist (s : State) (replaceNext : Bool) :
    (s.remaining .proposed replaceNext).Sublist (unproposed s.pending) := by
  unfold remaining
  cases replaceNext with
  | false => exact List.Sublist.refl _
  | true => exact List.drop_sublist _ _

/-- Of the items before the first proposal, only the next one may go when items are accepted. -/
theorem next_or_mem_remaining {s : State} {status : Status} (hs : status ≠ .proposed)
    (replaceNext : Bool) {i : Item} (hi : i ∈ unproposed s.pending) :
    s.next? = some i ∨ i ∈ s.remaining status replaceNext := by
  have hp : (!i.isProposed) = true := List.all_eq_true.mp List.all_takeWhile i hi
  have hmem : i ∈ s.pending := (List.takeWhile_sublist _).mem hi
  unfold remaining pendingAfter
  rw [if_neg hs]
  cases hpend : s.pending with
  | nil => simp [hpend] at hmem
  | cons first rest =>
    rw [hpend] at hmem
    rcases List.mem_cons.mp hmem with rfl | hr
    · exact Or.inl (by rw [next?, hpend, List.head?_cons])
    · refine Or.inr (List.mem_filter.mpr ⟨?_, hp⟩)
      cases replaceNext with
      | false => exact List.mem_cons_of_mem first hr
      | true => exact hr

end State

def Item.renewed (status : Status) (i : Item) : Item :=
  { i with status := status, results := none }

namespace State

theorem makeSimple_eq_ok_iff {s t : State} {act : Act} {questions : List String} :
    s.makeSimple act questions = .ok t ↔
      act.checkPayload (if questions.isEmpty then .none else .questions) = .ok () ∧
        t = ⟨transaction, act, if questions.isEmpty then none else some questions,
          s.executed ++ s.remaining .proposed false⟩ := by
  rw [makeSimple, bind_eq_ok_iff, ← unproposed_history]
  constructor
  · rintro ⟨_, hp, h⟩
    exact ⟨hp, (Except.ok.inj h).symm⟩
  · rintro ⟨hp, rfl⟩
    exact ⟨(), hp, rfl⟩

theorem addItems_eq_ok_iff {s t : State} {act : Act} {status : Status} {items : List Item}
    {payload : Payload} {replaceNext : Bool} :
    s.addItems act status items payload replaceNext = .ok t ↔
      act.checkPayload payload = .ok () ∧ status ≠ .executed ∧
        t = ⟨transaction, act, none,
          s.addedHistory status (items.map (Item.renewed status)) replaceNext⟩ := by
  rw [addItems, bind_eq_ok_iff]
  constructor
  · rintro ⟨_, hp, h⟩
    by_cases he : status = .executed
    · simp [he] at h
    · simp only [beq_iff_eq, he, if_false] at h
      exact ⟨hp, he, (Except.ok.inj h).symm⟩
  · rintro ⟨hp, he, rfl⟩
    refine ⟨(), hp, ?_⟩
    simp only [beq_iff_eq, he, if_false]
    rfl

end State

end Colloquy
