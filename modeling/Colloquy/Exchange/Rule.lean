import Colloquy.Exchange.Stop
import Colloquy.Grounding

namespace Colloquy

structure Exchange where
  agent : State
  user : State

namespace State

/-- The query of the turn at hand and the filter of a fragment that queries the same function. The
fragment has to be a filtered call as soon as there is a query to compare it with. -/
def matchFragment (s : State) (fragment : Table) : Except Stop (Table × Filter) :=
  match s.currentTable? with
  | none => Stop.reject
  | some t =>
    match fragment with
    | .filter (.invoke c) f =>
      if s.currentFunction? = some c.functionName then .ok (t, f) else Stop.reject
    | _ => .error (.fault (.breach (.notAFilteredCall fragment)))

def identifiesCurrent (s : State) (id : Option Value) : Bool :=
  match id, s.currentSignature?.bind Signature.idTy? with
  | some v, some ty => v.ty == ty
  | _, _ => false

def refineCurrent (s : State) (new : Filter) (strategy : Filter.Strategy) (fields : List String) :
    Except Stop Table :=
  match s.currentTable? with
  | none => .error (.fault .noQuery)
  | some t =>
    match t.refine new strategy fields with
    | .error u => .error (.fault (.unsupported u))
    | .ok (.table refined) => .ok refined
    | .ok .refused => Stop.reject
    | .ok .noPlace => .error (.rejected (some (.noPlace t)))

def ask (s : State) (new : Filter) (strategy : Filter.Strategy) (fields : List String) :
    Except Stop State := do
  let t ← s.refineCurrent new strategy fields
  Stop.ofBreach (s.addQuery .execute t .accepted)

def askAbout (s : State) (id : Value) (strategy : Filter.Strategy) (fields : List String) :
    Except Stop State :=
  s.ask (.atom ⟨"id", .equal, id⟩) strategy fields

def simple (s : State) (act : Act) (questions : List String) : Except Stop State :=
  Stop.ofBreach (s.makeSimple act questions)

def proposeOn (s : State) (act : Act) (top : Row) (action : Option Call) : Except Stop State :=
  match action with
  | none => s.simple act []
  | some c => do
    let (id, param) ← Stop.ofBreach (chainParam top c)
    Stop.ofBreach (s.addCallParam act c param id .proposed)

def proposeList (s : State) (rows : List Row) (action : Option Call) : Except Stop State :=
  match action with
  | none => s.simple (.recommendMany rows.length) []
  | some c => Stop.ofBreach (s.addCall (.recommendMany rows.length) c .proposed)

/-- The state in which the user accepts a call, bound to what `top` is chained by. -/
def accept (s : State) (top : Row) (c : Call) (chosen : Option Value) : Except Stop State := do
  let (id, param) ← Stop.ofBreach (chainParam top c)
  Stop.ofBreach (s.addCallParam .execute c param (chosen.getD id) .accepted)

def objection? (s : State) (e : Exchange) : Option Note :=
  if !e.agent.act.isSystem then some (.notAgentAct e.agent.act.label)
  else if e.user.act.isSystem then some (.notUserAct e.user.act.label)
  else
    match e.agent.check, e.user.check with
    | .error p, _ => some (.invalidState true s.currentFunction? p)
    | .ok (), .error p => some (.invalidState false s.currentFunction? p)
    | .ok (), .ok () => none

/-- Keeps an exchange of an agent's act and a user's act that both lead to well-formed states. -/
def exchange (s : State) (agent user : State) : Except Stop Exchange :=
  match s.objection? ⟨agent, user⟩ with
  | some note => .error (.rejected (some note))
  | none => .ok ⟨agent, user⟩

end State

namespace Exchange

/-- The agent asks about some fields, and the user answers with a filter on the same function. -/
def preciseAnswer (s : State) (questions : List String) (answer : Table) :
    Except Stop Exchange := do
  let (t, f) ← s.matchFragment answer
  Stop.require (t.signature.allowsQuestions questions)
  let user ← s.ask f .answer []
  let act := if questions.isEmpty then Act.genericSearchQuestion else Act.searchQuestion
  let agent ← s.simple act questions
  s.exchange agent user

/-- The agent asks about some fields, and the user answers loosely. -/
def impreciseAnswer (s : State) (questions : List String) (answer : Filter) :
    Except Stop Exchange := do
  let t ← Stop.ofOption s.currentTable?
  Stop.require (!questions.isEmpty && t.signature.allowsQuestions questions &&
    answer.isWellTyped t.signature)
  let user ← s.ask answer .answer []
  let agent ← s.simple .searchQuestion questions
  s.exchange agent user

/-- The agent proposes a refined query, and the user takes it up with constraints of their own. -/
def proposalReply (s : State) (proposal request : Table) : Except Stop Exchange := do
  let (_, f) ← s.matchFragment request
  let user ← s.ask f .answer []
  let agent ← Stop.ofBreach (s.addQuery .proposeRefinedQuery proposal .proposed)
  s.exchange agent user

/-- The agent recommends a result, and the user asks for something else. -/
def negativeRecommendation (s : State) (top : Row) (action : Option Call) (request : Table) :
    Except Stop Exchange := do
  let (_, f) ← s.matchFragment request
  let user ← s.ask f .answerOrChange []
  let agent ← s.proposeOn .recommendOne top action
  s.exchange agent user

/-- The agent recommends a result, and the user accepts a call on it or asks to learn more. -/
def positiveRecommendation (s : State) (top : Row) (proposed accepted : Option Call) :
    Except Stop Exchange := do
  Stop.require (s.identifiesCurrent top.id?)
  let user ←
    match accepted with
    | none => s.simple .learnMore []
    | some c => s.accept top c none
  let agent ← s.proposeOn .recommendOne top proposed
  s.exchange agent user

/-- The agent proposes some results, and the user asks about fields of one of them. -/
def listQuestion (s : State) (rows : List Row) (name : Value) (action : Option Call)
    (questions : List (String × Option Ty)) : Except Stop Exchange := do
  Stop.require (s.identifiesCurrent (some name) && s.allowsQuestions questions)
  let user ← s.askAbout name .answer (questions.map Prod.fst)
  let agent ← s.proposeList rows action
  s.exchange agent user

/-- The act and the result of a recommendation. Without a result of its own it is about the first
one at hand, and can propose no call. -/
def recommended (s : State) (top : Option Row) (action : Option Call) : Except Stop (Act × Row) :=
  match top with
  | some row => .ok (.recommendOne, row)
  | none =>
    match action, s.rows.head? with
    | some _, _ => .error (.fault (.breach .actionOnQuestion))
    | none, none => Stop.reject
    | none, some row => .ok (.learnMoreWhat, row)

/-- The agent recommends a result or asks what to tell about it, and the user asks about fields. -/
def recommendationQuestion (s : State) (top : Option Row) (action : Option Call)
    (questions : List (String × Option Ty)) : Except Stop Exchange := do
  Stop.require (s.allowsQuestions questions)
  let (act, row) ← recommended s top action
  Stop.require (s.identifiesCurrent row.id?)
  let id ← Stop.ofOption row.id?
  let user ← s.askAbout id .answer (questions.map Prod.fst)
  let agent ← s.proposeOn act row action
  s.exchange agent user

/-- The agent recommends a result, and the user ends the conversation, unless something is still
pending. -/
def recommendationCancel (s : State) (r : Recommendation) : Except Stop Exchange := do
  Stop.require (s.next?.isNone && s.identifiesCurrent r.top.id?)
  let user ← s.simple .cancel []
  let agent ← s.proposeOn .recommendOne r.top r.action
  s.exchange agent user

/-- The agent proposes some results, and the user asks for something else. -/
def negativeList (s : State) (rows : List Row) (action : Option Call) (request : Table) :
    Except Stop Exchange := do
  let (_, f) ← s.matchFragment request
  let user ← s.ask f .answerOrChange []
  let agent ← s.proposeList rows action
  s.exchange agent user

/-- The agent proposes some results, and the user picks one, with or without a call on it. -/
def positiveList (s : State) (rows : List Row) (proposed : Option Call) (name : Option Value)
    (accepted : Option Call) : Except Stop Exchange := do
  let chosen ← Stop.ofOption name
  Stop.require (rows.any (·.id?.any (·.same chosen)) && s.identifiesCurrent name)
  let user ←
    match accepted, rows.head? with
    | some c, some first => s.accept first c name
    | _, _ => s.askAbout chosen .conjoin []
  let agent ← s.proposeList rows proposed
  s.exchange agent user

/-- Nothing was found, and the user changes a constraint, one that the agent asked about if it asked
about any. -/
def emptySearchChange (s : State) (question : Option String) (phrase : Table) :
    Except Stop Exchange := do
  let (t, f) ← s.matchFragment phrase
  Stop.require (s.rows.isEmpty && question.all t.signature.hasOutput)
  let a ← Stop.ofOption (← Stop.ofUnsupported t.attachment)
  Stop.require (question.all a.filter.mentions)
  let user ← s.ask f .change []
  let act := if question.isSome then Act.emptySearchQuestion else Act.emptySearch
  let agent ← s.simple act question.toList
  s.exchange agent user

end Exchange

inductive Fragment
  | preciseAnswer (questions : List String) (answer : Table)
  | impreciseAnswer (questions : List String) (answer : Filter)
  | proposalReply (proposal request : Table)
  | negativeRecommendation (top : Row) (action : Option Call) (request : Table)
  | positiveRecommendation (top : Row) (proposed accepted : Option Call)
  | listQuestion (rows : List Row) (name : Value) (action : Option Call)
      (questions : List (String × Option Ty))
  | recommendationQuestion (top : Option Row) (action : Option Call)
      (questions : List (String × Option Ty))
  | recommendationCancel (r : Recommendation)
  | negativeList (rows : List Row) (action : Option Call) (request : Table)
  | positiveList (rows : List Row) (proposed : Option Call) (name : Option Value)
      (accepted : Option Call)
  | emptySearchChange (question : Option String) (phrase : Table)

namespace Fragment

def rule : Fragment → String
  | preciseAnswer _ _ => "precise_search_question_answer"
  | impreciseAnswer _ _ => "imprecise_search_question_answer"
  | proposalReply _ _ => "proposal_reply_pair"
  | negativeRecommendation _ _ _ => "negative_recommendation_reply_pair"
  | positiveRecommendation _ _ _ => "positive_recommendation_reply_pair"
  | listQuestion _ _ _ _ => "list_proposal_search_question_pair"
  | recommendationQuestion _ _ _ => "recommendation_search_question_pair"
  | recommendationCancel _ => "recommendation_cancel_pair"
  | negativeList _ _ _ => "negative_list_proposal_reply_pair"
  | positiveList _ _ _ _ => "positive_list_proposal_reply_pair"
  | emptySearchChange _ _ => "empty_search_change_pair"

def apply (s : State) : Fragment → Except Stop Exchange
  | preciseAnswer questions answer => Exchange.preciseAnswer s questions answer
  | impreciseAnswer questions answer => Exchange.impreciseAnswer s questions answer
  | proposalReply proposal request => Exchange.proposalReply s proposal request
  | negativeRecommendation top action request =>
    Exchange.negativeRecommendation s top action request
  | positiveRecommendation top proposed accepted =>
    Exchange.positiveRecommendation s top proposed accepted
  | listQuestion rows name action questions => Exchange.listQuestion s rows name action questions
  | recommendationQuestion top action questions =>
    Exchange.recommendationQuestion s top action questions
  | recommendationCancel r => Exchange.recommendationCancel s r
  | negativeList rows action request => Exchange.negativeList s rows action request
  | positiveList rows proposed name accepted => Exchange.positiveList s rows proposed name accepted
  | emptySearchChange question phrase => Exchange.emptySearchChange s question phrase

def ruleNames : List String :=
  ["precise_search_question_answer", "imprecise_search_question_answer", "proposal_reply_pair",
   "negative_recommendation_reply_pair", "positive_recommendation_reply_pair",
   "list_proposal_search_question_pair", "recommendation_search_question_pair",
   "recommendation_cancel_pair", "negative_list_proposal_reply_pair",
   "positive_list_proposal_reply_pair", "empty_search_change_pair"]

end Fragment

end Colloquy
