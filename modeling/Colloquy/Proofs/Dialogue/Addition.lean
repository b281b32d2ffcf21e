import Colloquy.Proofs.Dialogue.Preservation

namespace Colloquy

theorem Item.text?_of_not_executed {i : Item} (h : i.status ≠ .executed) :
    i.text? = i.statement.text?.map
      (· ++ " #[confirm=" ++ (if i.confirmed then "confirmed" else i.status.text) ++ "]") := by
  have hmark : i.mark = "confirm=" ++ if i.confirmed then "confirmed" else i.status.text := by
    rw [mark, if_neg (by simpa [isExecuted] using h)]
  have hopen : " #[" ++ "confirm=" = " #[confirm=" := rfl
  unfold text?
  rw [hmark]
  cases i.statement.text? with
  | none => rfl
  | some said =>
    rw [Option.map_some, ← hopen]
    simp only [Option.bind_eq_bind, Option.bind_some, String.append_assoc]

/-- One state is another with an item more. A proposal stands behind all that stays, and an accepted
item right behind what is executed. Only pending items may go. -/
def State.Gains (s t : State) (status : Status) (i : Item) : Prop :=
  ∃ left, left.Sublist s.pending ∧
    t.history = if status = .proposed then s.executed ++ left ++ [i] else s.executed ++ i :: left

theorem State.Gains.unique {s t : State} {status : Status} {i j : Item} (hi : s.Gains t status i)
    (hj : s.Gains t status j) : i = j := by
  obtain ⟨left, _, hi⟩ := hi
  obtain ⟨others, _, hj⟩ := hj
  rw [hi] at hj
  -- Whatever stays pending, the item stands last or right behind what is executed.
  by_cases h : status = .proposed
  · rw [if_pos h, if_pos h] at hj
    exact (List.concat_inj.mp (by simpa using hj)).2
  · rw [if_neg h, if_neg h] at hj
    exact (List.cons.inj (List.append_cancel_left hj)).1

namespace Step

def addsOne : Step → Bool
  | query _ _ _ => true
  | call _ _ _ => true
  | callParam _ _ _ _ _ => true
  | simple _ _ => false
  | add _ _ _ _ _ => false

/-- The pending item in whose place a step puts its own. -/
def renewed? (s : State) : Step → Option Item
  | callParam _ c _ _ _ => s.mergeable? c
  | _ => none

section

variable {s t : State} {step : Step} {status : Status} {i : Item} {replacesNext : Bool}

theorem history_of_addition? (ha : step.addition? s = some ⟨status, [i], replacesNext⟩) :
    step.history s =
      if status = .proposed then s.executed ++ s.remaining status replacesNext ++ [i]
      else s.executed ++ i :: s.remaining status replacesNext := by
  rw [history, ha]
  simp only [State.addedHistory_eq, List.append_assoc, List.cons_append, List.nil_append]

theorem gains_of_addition? (ha : step.addition? s = some ⟨status, [i], replacesNext⟩)
    (hb : step.build s = .ok t) : s.Gains t status i := by
  obtain ⟨_, _, rfl⟩ := build_eq_ok_iff.mp hb
  exact ⟨s.remaining status replacesNext, s.remaining_sublist status replacesNext,
    history_of_addition? ha⟩

end

/-- An item that takes the place of another keeps its confirmation. Any other starts without. -/
theorem exists_addition? (s : State) {step : Step} {status : Status} (hone : step.addsOne = true)
    (hstatus : step.status? = some status) :
    ∃ i replacesNext, step.addition? s = some ⟨status, [i], replacesNext⟩ ∧
      i.confirmed = (step.renewed? s).any Item.confirmed := by
  cases step with
  | simple | add => cases hone
  | query | call =>
    cases hstatus
    exact ⟨_, _, rfl, rfl⟩
  | callParam act c name value _ =>
    cases hstatus
    cases hm : s.mergeable? c with
    | none => exact ⟨_, _, by rw [addition?, hm], by rw [renewed?, hm]; rfl⟩
    | some next => exact ⟨_, _, by rw [addition?, hm], by rw [renewed?, hm]; rfl⟩

/-- A query or a call is added under its status and without results, and it is written with its
status unless it takes the place of an item that is confirmed. -/
theorem build_gains {s t : State} {step : Step} {status : Status} (hone : step.addsOne = true)
    (hstatus : step.status? = some status) (hb : step.build s = .ok t) :
    ∃ i, s.Gains t status i ∧ i.status = status ∧ i.results = none ∧
      (i.confirmed = true ↔ ∃ next, step.renewed? s = some next ∧ next.confirmed = true) ∧
      i.text? = i.statement.text?.map
        (· ++ " #[confirm=" ++ (if i.confirmed then "confirmed" else status.text) ++ "]") := by
  obtain ⟨i, replacesNext, ha, hconfirmed⟩ := exists_addition? s hone hstatus
  obtain ⟨hi, hresults⟩ := status_of_mem_addition ha (List.mem_singleton.mpr rfl)
  dsimp only at hi
  have hpending : status ≠ .executed := (build_eq_ok_iff.mp hb).2.1 _ ha
  refine ⟨i, gains_of_addition? ha hb, hi, hresults, ?_, ?_⟩
  · rw [hconfirmed, Option.any_eq_true]
  · rw [← hi]
    exact Item.text?_of_not_executed (hi ▸ hpending)

/-- The pending call takes a parameter and waits for its confirmation as before. -/
theorem build_gains_dinner :
    let step := callParam .execute (Call.ofSignature reservation []) "guests"
      (.number (.ofInt 2)) .accepted
    ∃ t i, step.build dinner = .ok t ∧ dinner.Gains t .accepted i ∧ i.confirmed = false ∧
      i.text? = i.statement.text?.map (· ++ " #[confirm=" ++ Status.accepted.text ++ "]") := by
  intro step
  have hbuilt : ∃ t, step.build dinner = .ok t := ⟨_, rfl⟩
  obtain ⟨t, hb⟩ := hbuilt
  obtain ⟨i, hgains, _, _, hconfirmed, htext⟩ := build_gains (by rfl) (by rfl) hb
  have hopen : i.confirmed = false := by
    rw [Bool.eq_false_iff, Ne, hconfirmed]
    rintro ⟨next, hnext, hc⟩
    cases hnext
    cases hc
  rw [hopen] at htext
  exact ⟨t, i, hb, hgains, hopen, htext⟩

end Step

/-- The user has confirmed the call that is pending. -/
def confirmedDinner : State :=
  { dinner with history := dinner.history.map fun i => { i with confirmed := true } }

namespace Step

/-- The agent's proposal takes the place of the confirmed call, and is written as confirmed. -/
theorem proposal_confirmed :
    let step := callParam .recommendOne (Call.ofSignature reservation []) "guests"
      (.number (.ofInt 2)) .proposed
    confirmedDinner.isValid = true ∧ ∃ t, step.build confirmedDinner = .ok t ∧
      ∀ i, confirmedDinner.Gains t .proposed i → i.confirmed = true ∧
        i.text? = some "@com.dine.book(place=$?, guests=2); #[confirm=confirmed]" := by
  intro step
  have hbuilt : ∃ t, step.build confirmedDinner = .ok t := ⟨_, rfl⟩
  obtain ⟨t, hb⟩ := hbuilt
  refine ⟨rfl, t, hb, fun i hi => ?_⟩
  cases hi.unique (gains_of_addition? (by rfl) hb)
  exact ⟨rfl, by decide⟩

end Step

end Colloquy
