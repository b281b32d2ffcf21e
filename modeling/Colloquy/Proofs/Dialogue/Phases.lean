import Colloquy.Proofs.Dialogue.Preservation

namespace Colloquy

/-- The items of a history by their status. -/
structure Phases where
  executed : List Item
  accepted : List Item
  proposed : List Item

/-- A history is made of its phases, in their order. -/
structure State.Phased (s : State) (p : Phases) : Prop where
  history : s.history = p.executed ++ p.accepted ++ p.proposed
  executed : ∀ i ∈ p.executed, i.status = .executed
  accepted : ∀ i ∈ p.accepted, i.status = .accepted
  proposed : ∀ i ∈ p.proposed, i.status = .proposed

namespace Phases

/-- The accepted items without the next one, if that is replaced. -/
def kept (p : Phases) (replaceNext : Bool) : List Item :=
  if replaceNext then p.accepted.drop 1 else p.accepted

/-- The phases after an addition. New proposals take the place of the old ones, and newly accepted
items come before those that are pending. -/
def after (p : Phases) : Option Addition → Phases
  | none => ⟨p.executed, p.accepted, []⟩
  | some a =>
    if a.status = .proposed then ⟨p.executed, p.kept a.replacesNext, a.items⟩
    else ⟨p.executed, a.items ++ p.kept a.replacesNext, []⟩

theorem executed_after (p : Phases) (a : Option Addition) : (p.after a).executed = p.executed := by
  cases a with
  | none => rfl
  | some a =>
    unfold after
    dsimp only
    split <;> rfl

end Phases

namespace State.Phased

variable {s : State} {p : Phases}

theorem isExecuted_executed (h : s.Phased p) : ∀ i ∈ p.executed, i.isExecuted = true := by
  intro i hi
  simp [Item.isExecuted, h.executed i hi]

theorem isExecuted_head (h : s.Phased p) :
    ∀ i, (p.accepted ++ p.proposed).head? = some i → i.isExecuted = false := by
  intro i hi
  rcases List.mem_append.mp (List.mem_of_mem_head? hi) with ha | hp
  · simp [Item.isExecuted, h.accepted i ha]
  · simp [Item.isExecuted, h.proposed i hp]

theorem history_eq (h : s.Phased p) :
    s.history = p.executed ++ (p.accepted ++ p.proposed) := by
  rw [h.history, List.append_assoc]

theorem executed_eq (h : s.Phased p) : s.executed = p.executed :=
  State.executed_eq_of_history h.history_eq h.isExecuted_executed h.isExecuted_head

theorem pending_eq (h : s.Phased p) : s.pending = p.accepted ++ p.proposed :=
  State.pending_eq_of_history h.history_eq h.isExecuted_executed h.isExecuted_head

theorem next?_eq (h : s.Phased p) : s.next? = (p.accepted ++ p.proposed).head? := by
  rw [State.next?, h.pending_eq]

theorem remaining_eq (h : s.Phased p) (status : Status) (replaceNext : Bool) :
    s.remaining status replaceNext = p.kept replaceNext := by
  have ha : ∀ i ∈ p.accepted, (!i.isProposed) = true := by
    intro i hi
    simp [Item.isProposed, h.accepted i hi]
  have hp : ∀ i ∈ p.proposed, (!i.isProposed) = false := by
    intro i hi
    simp [Item.isProposed, h.proposed i hi]
  have hfilter : ∀ items, (∀ i ∈ items, i ∈ p.accepted) →
      (items ++ p.proposed).filter (!·.isProposed) = items := by
    intro items hitems
    rw [List.filter_append, List.filter_eq_self.mpr fun i hi => ha i (hitems i hi),
      List.filter_eq_nil_iff.mpr (by simpa using hp), List.append_nil]
  unfold State.remaining State.pendingAfter State.unproposed Phases.kept
  rw [h.pending_eq, State.takeWhile_append_of_head? ha fun i hi => hp i (List.mem_of_mem_head? hi)]
  cases replaceNext with
  | false =>
    simp only [Bool.false_eq_true, if_false, ite_eq_left_iff]
    exact fun _ => hfilter _ fun _ hi => hi
  | true =>
    simp only [if_true, ite_eq_left_iff]
    intro _
    -- The item that is replaced is a proposal where no item is accepted.
    cases hx : p.accepted with
    | nil =>
      refine List.filter_eq_nil_iff.mpr fun i hi => ?_
      simp [hp i (List.mem_of_mem_drop hi)]
    | cons i rest =>
      rw [hx] at hfilter
      exact hfilter rest fun _ => List.mem_cons_of_mem i

theorem status_of_mem_kept (h : s.Phased p) {replaceNext : Bool} {i : Item}
    (hi : i ∈ p.kept replaceNext) : i.status = .accepted := by
  unfold Phases.kept at hi
  split at hi
  next => exact h.accepted i (List.mem_of_mem_drop hi)
  next => exact h.accepted i hi

end State.Phased

namespace Step

/-- A step drops the proposals that it does not renew, puts its items in their phase, and leaves the
other items as they are. -/
theorem build_phased {s t : State} {step : Step} {p : Phases} (h : s.Phased p)
    (hb : step.build s = .ok t) : t.Phased (p.after (step.addition? s)) := by
  obtain ⟨_, hpending, rfl⟩ := build_eq_ok_iff.mp hb
  cases ha : step.addition? s with
  | none =>
    have hr : s.remaining .proposed false = p.accepted := h.remaining_eq .proposed false
    refine ⟨?_, h.executed, h.accepted, by simp [Phases.after]⟩
    simp [history, ha, h.executed_eq, hr, Phases.after]
  | some a =>
    have hnew : ∀ i ∈ a.items, i.status = a.status := fun i hi => (status_of_mem_addition ha hi).1
    have hhistory : step.history s = s.addedHistory a.status a.items a.replacesNext := by
      simp [history, ha]
    rw [State.addedHistory_eq, h.executed_eq, h.remaining_eq] at hhistory
    by_cases hp : a.status = .proposed
    · rw [if_pos hp] at hhistory
      simp only [Phases.after, if_pos hp]
      exact ⟨hhistory, h.executed, fun _ => h.status_of_mem_kept,
        fun i hi => (hnew i hi).trans hp⟩
    · rw [if_neg hp] at hhistory
      have hx : a.status = .accepted := by
        have he := hpending a ha
        cases hst : a.status <;> simp_all
      simp only [Phases.after, if_neg hp]
      refine ⟨by simpa using hhistory, h.executed, ?_, by simp⟩
      intro i hi
      rcases List.mem_append.mp hi with hn | hk
      · exact (hnew i hn).trans hx
      · exact h.status_of_mem_kept hk

/-- Along a run, every step changes the phases of the state before it as its addition asks. The
executed items stay those of the first state. -/
theorem states_phased {s : State} {steps : List Step} {built : List State} {p : Phases}
    (h : s.Phased p) (hb : states s steps = .ok built) {k : Nat} {before t : State} {step : Step}
    (hbefore : (s :: built)[k]? = some before) (hstep : steps[k]? = some step)
    (ht : built[k]? = some t) :
    ∃ q : Phases, q.executed = p.executed ∧ before.Phased q ∧
      before.next? = (q.accepted ++ q.proposed).head? ∧
      t.Phased (q.after (step.addition? before)) := by
  induction steps generalizing s built p k with
  | nil => simp at hstep
  | cons first rest ih =>
    obtain ⟨u, hu, hlater⟩ := bind_eq_ok_iff.mp hb
    obtain ⟨later, hl, hend⟩ := bind_eq_ok_iff.mp hlater
    cases hend
    have hphased := build_phased h hu
    cases k with
    | zero =>
      cases hbefore
      cases hstep
      cases ht
      exact ⟨p, rfl, h, h.next?_eq, hphased⟩
    | succ k =>
      obtain ⟨q, hq, hrest⟩ := ih hphased hl hbefore hstep ht
      exact ⟨q, by rw [hq, Phases.executed_after], hrest⟩

/-- The second step replaces an accepted call, the third drops the proposal that it made. -/
theorem states_phased_dinner :
    let c := Call.ofSignature reservation []
    let steps := [simple .searchQuestion ["cuisine"],
      callParam .recommendOne c "guests" (.number (.ofInt 2)) .proposed,
      query .execute (.query restaurants none) .accepted]
    ∃ built t, states dinner steps = .ok built ∧ built[2]? = some t ∧
      ∃ q : Phases, q.executed = dinner.executed ∧ t.Phased (q.after
        (some ⟨.accepted, [.pending (.ofTable (.query restaurants none)) .accepted], false⟩)) := by
  intro c steps
  have h : dinner.Phased ⟨dinner.executed, dinner.pending, []⟩ := by
    refine ⟨by simp [dinner.executed_append_pending], ?_, ?_, by simp⟩ <;>
      exact List.forall_mem_singleton.mpr rfl
  have hbuilt : ∃ built, states dinner steps = .ok built := ⟨_, rfl⟩
  obtain ⟨built, hb⟩ := hbuilt
  have hlast : ∃ t u, built[1]? = some u ∧ built[2]? = some t := by
    cases hb
    exact ⟨_, _, rfl, rfl⟩
  obtain ⟨t, u, hu, ht⟩ := hlast
  obtain ⟨q, hq, _, _, hphased⟩ := states_phased h hb (k := 2) hu rfl ht
  exact ⟨built, t, hb, ht, q, hq, hphased⟩

end Step

end Colloquy
