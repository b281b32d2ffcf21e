import Colloquy.Proofs.Call
import Colloquy.Proofs.Dialogue.History

namespace Colloquy

inductive Step
  | simple (act : Act) (questions : List String)
  | query (act : Act) (t : Table) (status : Status)
  | call (act : Act) (c : Call) (status : Status)
  | callParam (act : Act) (c : Call) (name : String) (value : Value) (status : Status)
  | add (act : Act) (items : List Item) (payload : Payload) (status : Status) (replaceNext : Bool)

/-- New items, their status, and whether they take the place of the next item. -/
structure Addition where
  status : Status
  items : List Item
  replacesNext : Bool

namespace Step

def build (s : State) : Step → Except Breach State
  | simple act questions => s.makeSimple act questions
  | query act t status => s.addQuery act t status
  | call act c status => s.addCall act c status
  | callParam act c name value status => s.addCallParam act c name value status
  | add act items payload status replaceNext => s.addItems act status items payload replaceNext

def states (s : State) : List Step → Except Breach (List State)
  | [] => .ok []
  | step :: rest => do
    let t ← step.build s
    let later ← states t rest
    .ok (t :: later)

def act : Step → Act
  | simple act _ => act
  | query act _ _ => act
  | call act _ _ => act
  | callParam act _ _ _ _ => act
  | add act _ _ _ _ => act

def payload : Step → Payload
  | simple _ questions => if questions.isEmpty then .none else .questions
  | query _ _ _ => .query
  | call _ _ _ => .action
  | callParam _ _ _ _ _ => .action
  | add _ _ payload _ _ => payload

def questions? : Step → Option (List String)
  | simple _ questions => if questions.isEmpty then none else some questions
  | _ => none

/-- What a step adds to the history of a state. A parameter for a call that is pending renews the
item of the call. -/
def addition? (s : State) : Step → Option Addition
  | simple _ _ => none
  | query _ t status => some ⟨status, [.pending (.ofTable t) status], false⟩
  | call _ c status => some ⟨status, [.pending (.ofCalls [c]) status], false⟩
  | callParam _ c name value status =>
    match s.mergeable? c with
    | some next => some ⟨status, [(State.bindParam next name value).renewed status], true⟩
    | none => some ⟨status, [.pending (.ofCalls [c.set name value]) status], false⟩
  | add _ items _ status replaceNext => some ⟨status, items.map (Item.renewed status), replaceNext⟩

def history (s : State) (step : Step) : List Item :=
  match step.addition? s with
  | none => s.executed ++ s.remaining .proposed false
  | some a => s.addedHistory a.status a.items a.replacesNext

def added (s : State) (step : Step) : List Item :=
  match step.addition? s with
  | none => []
  | some a => a.items

def left (s : State) (step : Step) : List Item :=
  match step.addition? s with
  | none => s.remaining .proposed false
  | some a => s.remaining a.status a.replacesNext

/-- New items cannot be added as executed. -/
def IsPending (s : State) (step : Step) : Prop :=
  ∀ a, step.addition? s = some a → a.status ≠ .executed

theorem build_eq_ok_iff_of_addition {s t : State} {step : Step} {status : Status}
    {items : List Item} {replaceNext : Bool}
    (hb : step.build s = s.addItems step.act status items step.payload replaceNext)
    (ha : step.addition? s = some ⟨status, items.map (Item.renewed status), replaceNext⟩)
    (hq : step.questions? = none) :
    step.build s = .ok t ↔ step.act.checkPayload step.payload = .ok () ∧ step.IsPending s ∧
      t = ⟨State.transaction, step.act, step.questions?, step.history s⟩ := by
  have hp : step.IsPending s ↔ status ≠ .executed := by simp [IsPending, ha]
  rw [hb, State.addItems_eq_ok_iff, hp, hq, history, ha]

theorem build_eq_ok_iff {s t : State} {step : Step} :
    step.build s = .ok t ↔ step.act.checkPayload step.payload = .ok () ∧ step.IsPending s ∧
      t = ⟨State.transaction, step.act, step.questions?, step.history s⟩ := by
  cases step with
  | simple act questions =>
    have hp : (simple act questions).IsPending s := by simp [IsPending, addition?]
    simp only [hp, true_and]
    exact State.makeSimple_eq_ok_iff
  | query act t status => exact build_eq_ok_iff_of_addition rfl rfl rfl
  | call act c status => exact build_eq_ok_iff_of_addition rfl rfl rfl
  | callParam act c name value status =>
    cases hm : s.mergeable? c with
    | none =>
      have hb : (callParam act c name value status).build s = s.addItems act status
          [.pending (.ofCalls [c.set name value]) status] .action false := by
        simp only [build, State.addCallParam, hm]
      have ha : (callParam act c name value status).addition? s =
          some ⟨status, [.pending (.ofCalls [c.set name value]) status], false⟩ := by
        simp only [addition?, hm]
      exact build_eq_ok_iff_of_addition hb ha rfl
    | some next =>
      have hb : (callParam act c name value status).build s = s.addItems act status
          [State.bindParam next name value] .action true := by
        simp only [build, State.addCallParam, hm]
      have ha : (callParam act c name value status).addition? s =
          some ⟨status, [(State.bindParam next name value).renewed status], true⟩ := by
        simp only [addition?, hm]
      exact build_eq_ok_iff_of_addition hb ha rfl
  | add act items payload status replaceNext => exact build_eq_ok_iff_of_addition rfl rfl rfl

theorem status_of_mem_addition {s : State} {step : Step} {a : Addition} {i : Item}
    (ha : step.addition? s = some a) (hi : i ∈ a.items) :
    i.status = a.status ∧ i.results = none := by
  cases step with
  | simple => cases ha
  | query | call =>
    cases ha
    rw [List.mem_singleton.mp hi]
    exact ⟨rfl, rfl⟩
  | callParam act c name value status =>
    cases hm : s.mergeable? c <;> rw [addition?, hm] at ha <;> cases ha <;>
      rw [List.mem_singleton.mp hi] <;> exact ⟨rfl, rfl⟩
  | add act items payload status replaceNext =>
    cases ha
    obtain ⟨j, _, rfl⟩ := List.mem_map.mp hi
    exact ⟨rfl, rfl⟩

section

variable {s : State} {step : Step} {a : Addition}

theorem added_of_none (h : step.addition? s = none) : step.added s = [] := by
  rw [added, h]

theorem added_of_some (h : step.addition? s = some a) : step.added s = a.items := by
  rw [added, h]

theorem left_of_none (h : step.addition? s = none) : step.left s = s.remaining .proposed false := by
  rw [left, h]

theorem left_of_some (h : step.addition? s = some a) :
    step.left s = s.remaining a.status a.replacesNext := by
  rw [left, h]

theorem mem_added_iff {i : Item} :
    i ∈ step.added s ↔ ∃ a, step.addition? s = some a ∧ i ∈ a.items := by
  cases ha : step.addition? s with
  | none => simp [added_of_none ha]
  | some a => simp [added_of_some ha]

theorem left_sublist (s : State) (step : Step) : (step.left s).Sublist s.pending := by
  cases ha : step.addition? s with
  | none => exact left_of_none ha ▸ s.remaining_sublist _ _
  | some a => exact left_of_some ha ▸ s.remaining_sublist _ _

theorem isProposed_eq_false_of_mem_left {i : Item} (h : i ∈ step.left s) :
    i.isProposed = false := by
  cases ha : step.addition? s with
  | none => exact State.isProposed_eq_false_of_mem_remaining (left_of_none ha ▸ h)
  | some a => exact State.isProposed_eq_false_of_mem_remaining (left_of_some ha ▸ h)

theorem history_eq_of_proposed (h : ∀ a, step.addition? s = some a → a.status = .proposed) :
    step.history s = s.executed ++ (step.left s ++ step.added s) := by
  unfold history
  cases ha : step.addition? s with
  | none => rw [added_of_none ha, left_of_none ha, List.append_nil]
  | some a =>
    dsimp only
    rw [added_of_some ha, left_of_some ha, State.addedHistory_eq, if_pos (h a ha),
      List.append_assoc]

theorem history_eq_of_accepted (h : ∀ a, step.addition? s = some a → a.status ≠ .proposed) :
    step.history s = s.executed ++ (step.added s ++ step.left s) := by
  unfold history
  cases ha : step.addition? s with
  | none => rw [added_of_none ha, left_of_none ha, List.nil_append]
  | some a =>
    dsimp only
    rw [added_of_some ha, left_of_some ha, State.addedHistory_eq, if_neg (h a ha),
      List.append_assoc]

theorem history_eq_executed_append (s : State) (step : Step) :
    ∃ rest, step.history s = s.executed ++ rest ∧
      ∀ i ∈ rest, i ∈ step.left s ∨ i ∈ step.added s := by
  by_cases h : ∀ a, step.addition? s = some a → a.status = .proposed
  · exact ⟨_, history_eq_of_proposed h, fun i hi => List.mem_append.mp hi⟩
  · have hne : ∀ a, step.addition? s = some a → a.status ≠ .proposed := by
      intro a ha hp
      refine h fun b hb => ?_
      cases ha.symm.trans hb
      exact hp
    exact ⟨_, history_eq_of_accepted hne, fun i hi => (List.mem_append.mp hi).symm⟩

end

end Step

end Colloquy
