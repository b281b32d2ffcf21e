import Colloquy.Proofs.Exchange.Turn

namespace Colloquy

namespace State

/-- All that is executed, then one new accepted item if the act executes something, then accepted
items that were pending. -/
def UserSequel (s user : State) : Prop :=
  ∃ new rest, user.history = s.executed ++ (new ++ rest) ∧
    new.length = (if user.act = .execute then 1 else 0) ∧
    (∀ i ∈ new ++ rest, i.status = .accepted) ∧ rest.Sublist s.pending

/-- All that is executed, then accepted items that were pending, then at most one proposal. -/
def AgentSequel (s agent : State) : Prop :=
  ∃ rest offer, agent.history = s.executed ++ (rest ++ offer) ∧
    offer.length ≤ 1 ∧ (∀ i ∈ offer, i.status = .proposed) ∧
    (∀ i ∈ rest, i.status = .accepted) ∧ rest.Sublist s.pending

end State

/-- Both states of an exchange keep what is done. -/
structure Exchange.KeepsPast (s : State) (e : Exchange) : Prop where
  agent : s.AgentSequel e.agent
  user : s.UserSequel e.user

theorem status_eq_accepted {i : Item} (he : i.isExecuted = false) (hp : i.isProposed = false) :
    i.status = .accepted := by
  unfold Item.isExecuted at he
  unfold Item.isProposed at hp
  cases hs : i.status with
  | accepted => rfl
  | proposed => simp [hs] at hp
  | executed => simp [hs] at he

namespace State

variable {s : State}

def UserTurn (s user : State) : Prop :=
  ∃ step : Step, step.IsUserTurn s ∧ step.build s = .ok user

def AgentTurn (s agent : State) : Prop :=
  ∃ step : Step, step.IsAgentTurn s ∧ step.build s = .ok agent

theorem exchange_eq_ok {agent user : State} {e : Exchange} (h : s.exchange agent user = .ok e) :
    e = ⟨agent, user⟩ ∧ agent.isValid = true ∧ user.isValid = true := by
  unfold exchange at h
  cases ho : s.objection? ⟨agent, user⟩ with
  | some note => simp [ho] at h
  | none =>
    rw [ho] at h
    refine ⟨(Except.ok.inj h).symm, ?_⟩
    unfold objection? at ho
    split at ho
    next => cases ho
    next =>
      split at ho
      next => cases ho
      next =>
        split at ho
        next => cases ho
        next => cases ho
        next ha hu => exact ⟨isValid_iff_check_eq_ok.mpr ha, isValid_iff_check_eq_ok.mpr hu⟩

/-- Where the user's state is valid, it shows that no executed item is out of order before the first
proposal. -/
theorem UserTurn.sequel {user : State} (h : s.UserTurn user) (hv : user.isValid = true) :
    s.UserSequel user ∧ ∀ i ∈ unproposed s.pending, i.isExecuted = false := by
  obtain ⟨step, hturn, hbuild⟩ := h
  obtain ⟨_, _, _, hord⟩ := isValid_iff.mp hv
  obtain ⟨hact, hhistory⟩ : user.act = step.act ∧
      user.history = s.executed ++ (step.added s ++ step.left s) := by
    obtain ⟨_, _, rfl⟩ := Step.build_eq_ok_iff.mp hbuild
    exact ⟨rfl, hturn.history_eq⟩
  have hpending : user.pending = step.added s ++ step.left s :=
    pending_eq_of_history hhistory (fun _ => isExecuted_of_mem_executed) hturn.isExecuted_head
  have hopen : ∀ i ∈ step.added s ++ step.left s, i.isExecuted = false := by
    intro i hi
    exact isExecuted_eq_false_of_mem_pending hord (hpending ▸ hi)
  constructor
  · refine ⟨step.added s, step.left s, hhistory, hact ▸ hturn.length_added, ?_,
      step.left_sublist s⟩
    intro i hi
    rcases List.mem_append.mp hi with hn | hl
    · exact hturn.status_of_mem_added hn
    · exact status_eq_accepted (hopen i hi) (Step.isProposed_eq_false_of_mem_left hl)
  · intro i hi
    rcases hturn.next_or_mem_left hi with hnext | hl
    · exact isExecuted_eq_false_of_next hnext
    · exact hopen i (List.mem_append_right _ hl)

theorem AgentTurn.sequel {agent : State} (h : s.AgentTurn agent)
    (hopen : ∀ i ∈ unproposed s.pending, i.isExecuted = false) : s.AgentSequel agent := by
  obtain ⟨step, hturn, hbuild⟩ := h
  obtain ⟨_, _, rfl⟩ := Step.build_eq_ok_iff.mp hbuild
  refine ⟨step.left s, step.added s, hturn.history_eq, hturn.length_added_le,
    fun _ => hturn.status_of_mem_added, ?_, step.left_sublist s⟩
  intro i hi
  have he := hopen i (hturn.left_sublist_unproposed.mem hi)
  exact status_eq_accepted he (Step.isProposed_eq_false_of_mem_left hi)

/-- Where a turn of the agent and one of the user make an exchange, both keep what is done. An
executed item that is out of order could stay in the agent's history, behind the next one that is
replaced. But then it stays in the user's history too, which is not valid. -/
theorem keepsPast_of_exchange {agent user : State} {e : Exchange} (ha : s.AgentTurn agent)
    (hu : s.UserTurn user) (h : s.exchange agent user = .ok e) : e.KeepsPast s := by
  obtain ⟨rfl, _, hvalid⟩ := exchange_eq_ok h
  obtain ⟨hsequel, hopen⟩ := hu.sequel hvalid
  exact ⟨ha.sequel hopen, hsequel⟩

theorem userTurn_simple {user : State} {act : Act} {questions : List String}
    (hact : act ≠ .execute) (h : s.simple act questions = .ok user) : s.UserTurn user :=
  ⟨.simple act questions, hact, Stop.ofBreach_eq_ok_iff.mp h⟩

theorem userTurn_ask {user : State} {new : Filter} {strategy : Filter.Strategy}
    {fields : List String} (h : s.ask new strategy fields = .ok user) : s.UserTurn user := by
  obtain ⟨t, _, hadd⟩ := bind_eq_ok_iff.mp h
  exact ⟨.query .execute t .accepted, ⟨rfl, rfl, _, rfl⟩, Stop.ofBreach_eq_ok_iff.mp hadd⟩

theorem userTurn_accept {user : State} {top : Row} {c : Call} {chosen : Option Value}
    (h : s.accept top c chosen = .ok user) : s.UserTurn user := by
  obtain ⟨⟨id, param⟩, _, hadd⟩ := bind_eq_ok_iff.mp h
  refine ⟨.callParam .execute c param (chosen.getD id) .accepted, ?_,
    Stop.ofBreach_eq_ok_iff.mp hadd⟩
  cases hm : s.mergeable? c <;> simp [Step.IsUserTurn, Step.addition?, hm, Step.act]

theorem agentTurn_simple {agent : State} {act : Act} {questions : List String}
    (h : s.simple act questions = .ok agent) : s.AgentTurn agent := by
  refine ⟨.simple act questions, ?_, Stop.ofBreach_eq_ok_iff.mp h⟩
  intro a ha
  cases ha

theorem agentTurn_addQuery {agent : State} {act : Act} {t : Table}
    (h : Stop.ofBreach (s.addQuery act t .proposed) = .ok agent) : s.AgentTurn agent := by
  refine ⟨.query act t .proposed, ?_, Stop.ofBreach_eq_ok_iff.mp h⟩
  intro a ha
  cases ha
  exact ⟨rfl, _, rfl⟩

theorem agentTurn_proposeOn {agent : State} {act : Act} {top : Row} {action : Option Call}
    (h : s.proposeOn act top action = .ok agent) : s.AgentTurn agent := by
  cases action with
  | none => exact agentTurn_simple h
  | some c =>
    obtain ⟨⟨id, param⟩, _, hadd⟩ := bind_eq_ok_iff.mp h
    refine ⟨.callParam act c param id .proposed, ?_, Stop.ofBreach_eq_ok_iff.mp hadd⟩
    intro a ha
    cases hm : s.mergeable? c <;> rw [Step.addition?, hm] at ha <;> cases ha <;>
      exact ⟨rfl, _, rfl⟩

theorem agentTurn_proposeList {agent : State} {rows : List Row} {action : Option Call}
    (h : s.proposeList rows action = .ok agent) : s.AgentTurn agent := by
  cases action with
  | none => exact agentTurn_simple h
  | some c =>
    refine ⟨.call (.recommendMany rows.length) c .proposed, ?_, Stop.ofBreach_eq_ok_iff.mp h⟩
    intro a ha
    cases ha
    exact ⟨rfl, _, rfl⟩

end State

namespace Exchange

variable {s : State} {e : Exchange}

theorem preciseAnswer_keepsPast {questions : List String} {answer : Table}
    (h : preciseAnswer s questions answer = .ok e) : e.KeepsPast s := by
  obtain ⟨⟨t, f⟩, _, h⟩ := bind_eq_ok_iff.mp h
  obtain ⟨_, _, h⟩ := bind_eq_ok_iff.mp h
  obtain ⟨user, hu, h⟩ := bind_eq_ok_iff.mp h
  obtain ⟨agent, ha, h⟩ := bind_eq_ok_iff.mp h
  exact State.keepsPast_of_exchange (State.agentTurn_simple ha) (State.userTurn_ask hu) h

theorem impreciseAnswer_keepsPast {questions : List String} {answer : Filter}
    (h : impreciseAnswer s questions answer = .ok e) : e.KeepsPast s := by
  obtain ⟨_, _, h⟩ := bind_eq_ok_iff.mp h
  obtain ⟨_, _, h⟩ := bind_eq_ok_iff.mp h
  obtain ⟨user, hu, h⟩ := bind_eq_ok_iff.mp h
  obtain ⟨agent, ha, h⟩ := bind_eq_ok_iff.mp h
  exact State.keepsPast_of_exchange (State.agentTurn_simple ha) (State.userTurn_ask hu) h

theorem proposalReply_keepsPast {proposal request : Table}
    (h : proposalReply s proposal request = .ok e) : e.KeepsPast s := by
  obtain ⟨⟨t, f⟩, _, h⟩ := bind_eq_ok_iff.mp h
  obtain ⟨user, hu, h⟩ := bind_eq_ok_iff.mp h
  obtain ⟨agent, ha, h⟩ := bind_eq_ok_iff.mp h
  exact State.keepsPast_of_exchange (State.agentTurn_addQuery ha) (State.userTurn_ask hu) h

theorem negativeRecommendation_keepsPast {top : Row} {action : Option Call} {request : Table}
    (h : negativeRecommendation s top action request = .ok e) : e.KeepsPast s := by
  obtain ⟨⟨t, f⟩, _, h⟩ := bind_eq_ok_iff.mp h
  obtain ⟨user, hu, h⟩ := bind_eq_ok_iff.mp h
  obtain ⟨agent, ha, h⟩ := bind_eq_ok_iff.mp h
  exact State.keepsPast_of_exchange (State.agentTurn_proposeOn ha) (State.userTurn_ask hu) h

theorem positiveRecommendation_keepsPast {top : Row} {proposed accepted : Option Call}
    (h : positiveRecommendation s top proposed accepted = .ok e) : e.KeepsPast s := by
  obtain ⟨_, _, h⟩ := bind_eq_ok_iff.mp h
  cases accepted with
  | none =>
    obtain ⟨user, hu, h⟩ := bind_eq_ok_iff.mp h
    obtain ⟨agent, ha, h⟩ := bind_eq_ok_iff.mp h
    exact State.keepsPast_of_exchange (State.agentTurn_proposeOn ha)
      (State.userTurn_simple (by decide) hu) h
  | some c =>
    obtain ⟨user, hu, h⟩ := bind_eq_ok_iff.mp h
    obtain ⟨agent, ha, h⟩ := bind_eq_ok_iff.mp h
    exact State.keepsPast_of_exchange (State.agentTurn_proposeOn ha) (State.userTurn_accept hu) h

theorem listQuestion_keepsPast {rows : List Row} {name : Value} {action : Option Call}
    {questions : List (String × Option Ty)}
    (h : listQuestion s rows name action questions = .ok e) : e.KeepsPast s := by
  obtain ⟨_, _, h⟩ := bind_eq_ok_iff.mp h
  obtain ⟨user, hu, h⟩ := bind_eq_ok_iff.mp h
  obtain ⟨agent, ha, h⟩ := bind_eq_ok_iff.mp h
  exact State.keepsPast_of_exchange (State.agentTurn_proposeList ha) (State.userTurn_ask hu) h

theorem recommendationQuestion_keepsPast {top : Option Row} {action : Option Call}
    {questions : List (String × Option Ty)}
    (h : recommendationQuestion s top action questions = .ok e) : e.KeepsPast s := by
  obtain ⟨_, _, h⟩ := bind_eq_ok_iff.mp h
  obtain ⟨⟨act, row⟩, _, h⟩ := bind_eq_ok_iff.mp h
  obtain ⟨_, _, h⟩ := bind_eq_ok_iff.mp h
  obtain ⟨id, _, h⟩ := bind_eq_ok_iff.mp h
  obtain ⟨user, hu, h⟩ := bind_eq_ok_iff.mp h
  obtain ⟨agent, ha, h⟩ := bind_eq_ok_iff.mp h
  exact State.keepsPast_of_exchange (State.agentTurn_proposeOn ha) (State.userTurn_ask hu) h

theorem recommendationCancel_keepsPast {r : Recommendation}
    (h : recommendationCancel s r = .ok e) : e.KeepsPast s := by
  obtain ⟨_, _, h⟩ := bind_eq_ok_iff.mp h
  obtain ⟨user, hu, h⟩ := bind_eq_ok_iff.mp h
  obtain ⟨agent, ha, h⟩ := bind_eq_ok_iff.mp h
  exact State.keepsPast_of_exchange (State.agentTurn_proposeOn ha)
    (State.userTurn_simple (by decide) hu) h

theorem negativeList_keepsPast {rows : List Row} {action : Option Call} {request : Table}
    (h : negativeList s rows action request = .ok e) : e.KeepsPast s := by
  obtain ⟨⟨t, f⟩, _, h⟩ := bind_eq_ok_iff.mp h
  obtain ⟨user, hu, h⟩ := bind_eq_ok_iff.mp h
  obtain ⟨agent, ha, h⟩ := bind_eq_ok_iff.mp h
  exact State.keepsPast_of_exchange (State.agentTurn_proposeList ha) (State.userTurn_ask hu) h

theorem positiveList_keepsPast {rows : List Row} {proposed : Option Call} {name : Option Value}
    {accepted : Option Call} (h : positiveList s rows proposed name accepted = .ok e) :
    e.KeepsPast s := by
  obtain ⟨chosen, _, h⟩ := bind_eq_ok_iff.mp h
  obtain ⟨_, _, h⟩ := bind_eq_ok_iff.mp h
  dsimp only at h
  split at h
  next =>
    obtain ⟨user, hu, h⟩ := bind_eq_ok_iff.mp h
    obtain ⟨agent, ha, h⟩ := bind_eq_ok_iff.mp h
    exact State.keepsPast_of_exchange (State.agentTurn_proposeList ha) (State.userTurn_accept hu) h
  next =>
    obtain ⟨user, hu, h⟩ := bind_eq_ok_iff.mp h
    obtain ⟨agent, ha, h⟩ := bind_eq_ok_iff.mp h
    exact State.keepsPast_of_exchange (State.agentTurn_proposeList ha) (State.userTurn_ask hu) h

theorem emptySearchChange_keepsPast {question : Option String} {phrase : Table}
    (h : emptySearchChange s question phrase = .ok e) : e.KeepsPast s := by
  obtain ⟨⟨t, f⟩, _, h⟩ := bind_eq_ok_iff.mp h
  obtain ⟨_, _, h⟩ := bind_eq_ok_iff.mp h
  obtain ⟨_, _, h⟩ := bind_eq_ok_iff.mp h
  obtain ⟨_, _, h⟩ := bind_eq_ok_iff.mp h
  obtain ⟨_, _, h⟩ := bind_eq_ok_iff.mp h
  obtain ⟨user, hu, h⟩ := bind_eq_ok_iff.mp h
  obtain ⟨agent, ha, h⟩ := bind_eq_ok_iff.mp h
  exact State.keepsPast_of_exchange (State.agentTurn_simple ha) (State.userTurn_ask hu) h

end Exchange

/-- Whatever rule leads to an exchange, and from whatever state, the past stays as it is. -/
theorem Fragment.apply_keepsPast {s : State} {fragment : Fragment} {e : Exchange}
    (h : fragment.apply s = .ok e) : e.KeepsPast s := by
  cases fragment with
  | preciseAnswer => exact Exchange.preciseAnswer_keepsPast h
  | impreciseAnswer => exact Exchange.impreciseAnswer_keepsPast h
  | proposalReply => exact Exchange.proposalReply_keepsPast h
  | negativeRecommendation => exact Exchange.negativeRecommendation_keepsPast h
  | positiveRecommendation => exact Exchange.positiveRecommendation_keepsPast h
  | listQuestion => exact Exchange.listQuestion_keepsPast h
  | recommendationQuestion => exact Exchange.recommendationQuestion_keepsPast h
  | recommendationCancel => exact Exchange.recommendationCancel_keepsPast h
  | negativeList => exact Exchange.negativeList_keepsPast h
  | positiveList => exact Exchange.positiveList_keepsPast h
  | emptySearchChange => exact Exchange.emptySearchChange_keepsPast h

/-- The pending call takes the recommended place, in a proposal of the agent and in what the user
executes. -/
theorem Fragment.apply_keepsPast_dinner :
    let place : Row := [("id", .entity "thai-garden" "com.dine:restaurant" .null)]
    let c := Call.ofSignature reservation []
    ∃ e, (positiveRecommendation place (some c) (some c)).apply dinner = .ok e ∧
      e.KeepsPast dinner ∧ e.user.act = .execute := by
  intro place c
  have happly : ∃ e, (positiveRecommendation place (some c) (some c)).apply dinner = .ok e ∧
      e.user.act = .execute := ⟨_, rfl, rfl⟩
  obtain ⟨e, he, hact⟩ := happly
  exact ⟨e, he, apply_keepsPast he, hact⟩

end Colloquy
