import Colloquy.Generation.Run
import Colloquy.Exchange.Stop

/-!
How rules fail. A rule may find that the template breaks what it relies on or that the query cannot
be refined, and these faults are declared. Three rules narrow the query of the turn to a chosen
result without asking whether the turn has a query, and so they fail on the results of a call.
-/

namespace Colloquy

/-- The faults that a rule announces: breaches and queries that cannot be refined. -/
def Fault.isDeclared : Fault → Bool
  | breach _ => true
  | unsupported _ => true
  | noQuery => false
  | unknownRule _ => false

namespace Stop

variable {α β : Type}

/-- All that can go wrong is declared. -/
def Declares (x : Except Stop α) : Prop :=
  ∀ fault, x = .error (.fault fault) → fault.isDeclared = true

theorem declares_ok (a : α) : Declares (.ok a : Except Stop α) := by
  intro fault h
  cases h

theorem declares_rejected (note : Option Note) :
    Declares (.error (.rejected note) : Except Stop α) := by
  intro fault h
  cases h

theorem declares_fault {fault : Fault} (h : fault.isDeclared = true) :
    Declares (.error (.fault fault) : Except Stop α) := by
  intro other ho
  cases ho
  exact h

theorem declares_bind {x : Except Stop α} {f : α → Except Stop β} (hx : Declares x)
    (hf : ∀ a, x = .ok a → Declares (f a)) : Declares (x >>= f) := by
  cases x with
  | error stop =>
    intro fault h
    cases h
    exact hx fault rfl
  | ok a => exact hf a rfl

theorem declares_require (condition : Bool) : Declares (require condition) := by
  cases condition
  · exact declares_rejected none
  · exact declares_ok ()

theorem declares_ofOption (o : Option α) : Declares (ofOption o) := by
  cases o with
  | none => exact declares_rejected none
  | some a => exact declares_ok a

theorem declares_ofBreach (x : Except Breach α) : Declares (ofBreach x) := by
  cases x with
  | error b => exact declares_fault rfl
  | ok a => exact declares_ok a

theorem declares_ofUnsupported (x : Except Table.Unsupported α) : Declares (ofUnsupported x) := by
  cases x with
  | error u => exact declares_fault rfl
  | ok a => exact declares_ok a

end Stop

open Stop

namespace State

variable {s : State}

theorem declares_matchFragment (s : State) (fragment : Table) :
    Declares (s.matchFragment fragment) := by
  unfold matchFragment
  split
  · exact declares_rejected none
  · split
    · split
      · exact declares_ok _
      · exact declares_rejected none
    · exact declares_fault rfl

theorem declares_bind_matchFragment {α : Type} {fragment : Table}
    {k : Table × Filter → Except Stop α}
    (h : s.currentTable?.isSome = true → ∀ t f, Declares (k (t, f))) :
    Declares (s.matchFragment fragment >>= k) := by
  refine declares_bind (s.declares_matchFragment fragment) ?_
  rintro ⟨t, f⟩ hm
  refine h ?_ t f
  cases ht : s.currentTable? with
  | none => simp [matchFragment, ht, reject] at hm
  | some t => rfl

section Ask

variable {new : Filter} {strategy : Filter.Strategy} {fields : List String}

theorem declares_refineCurrent (h : s.currentTable?.isSome = true) :
    Declares (s.refineCurrent new strategy fields) := by
  obtain ⟨t, ht⟩ := Option.isSome_iff_exists.mp h
  simp only [refineCurrent, ht]
  split
  · exact declares_fault rfl
  · exact declares_ok _
  · exact declares_rejected none
  · exact declares_rejected _

theorem declares_ask (h : s.currentTable?.isSome = true) :
    Declares (s.ask new strategy fields) :=
  declares_bind (declares_refineCurrent h) fun _ _ => declares_ofBreach _

theorem ask_eq_noQuery (h : s.currentTable? = none) :
    s.ask new strategy fields = .error (.fault .noQuery) := by
  simp [ask, refineCurrent, h, bind, Except.bind]

end Ask

theorem declares_proposeOn (s : State) (act : Act) (top : Row) (action : Option Call) :
    Declares (s.proposeOn act top action) := by
  cases action with
  | none => exact declares_ofBreach _
  | some c => exact declares_bind (declares_ofBreach _) fun _ _ => declares_ofBreach _

theorem declares_proposeList (s : State) (rows : List Row) (action : Option Call) :
    Declares (s.proposeList rows action) := by
  cases action <;> exact declares_ofBreach _

theorem declares_accept (s : State) (top : Row) (c : Call) (chosen : Option Value) :
    Declares (s.accept top c chosen) :=
  declares_bind (declares_ofBreach _) fun _ _ => declares_ofBreach _

theorem declares_exchange (s agent user : State) : Declares (s.exchange agent user) := by
  unfold exchange
  split
  · exact declares_rejected _
  · exact declares_ok _

/-- A turn of the user and one of the agent that declare their faults make an exchange that does. -/
theorem declares_turns {user agent : Except Stop State} (hu : Declares user)
    (ha : Declares agent) :
    Declares (user >>= fun u => agent >>= fun a => s.exchange a u) :=
  declares_bind hu fun _ _ => declares_bind ha fun _ _ => declares_exchange s _ _

end State

/-- A fragment narrows the query of the turn to a result that was chosen, and its rule has found
nothing to object to so far. -/
def Fragment.Narrows (s : State) : Fragment → Prop
  | listQuestion _ name _ questions =>
    s.identifiesCurrent (some name) = true ∧ s.allowsQuestions questions = true
  | recommendationQuestion top action questions =>
    s.allowsQuestions questions = true ∧
      ∃ act row, Exchange.recommended s top action = .ok (act, row) ∧
        s.identifiesCurrent row.id? = true
  | positiveList rows _ (some chosen) none =>
    rows.any (·.id?.any (·.same chosen)) = true ∧ s.identifiesCurrent (some chosen) = true
  | _ => False

namespace Exchange

variable {s : State}

theorem declares_preciseAnswer (s : State) (questions : List String) (answer : Table) :
    Declares (preciseAnswer s questions answer) := by
  refine State.declares_bind_matchFragment fun hcurrent t f => ?_
  refine declares_bind (declares_require _) fun _ _ => ?_
  exact State.declares_turns (State.declares_ask hcurrent) (declares_ofBreach _)

theorem declares_impreciseAnswer (s : State) (questions : List String) (answer : Filter) :
    Declares (impreciseAnswer s questions answer) := by
  refine declares_bind (declares_ofOption _) fun t ht => ?_
  refine declares_bind (declares_require _) fun _ _ => ?_
  have hcurrent := Option.isSome_of_eq_some (ofOption_eq_ok_iff.mp ht)
  exact State.declares_turns (State.declares_ask hcurrent) (declares_ofBreach _)

theorem declares_proposalReply (s : State) (proposal request : Table) :
    Declares (proposalReply s proposal request) := by
  refine State.declares_bind_matchFragment fun hcurrent t f => ?_
  exact State.declares_turns (State.declares_ask hcurrent) (declares_ofBreach _)

theorem declares_negativeRecommendation (s : State) (top : Row) (action : Option Call)
    (request : Table) : Declares (negativeRecommendation s top action request) := by
  refine State.declares_bind_matchFragment fun hcurrent t f => ?_
  exact State.declares_turns (State.declares_ask hcurrent) (s.declares_proposeOn _ top action)

theorem declares_positiveRecommendation (s : State) (top : Row) (proposed accepted : Option Call) :
    Declares (positiveRecommendation s top proposed accepted) := by
  refine declares_bind (declares_require _) fun _ _ => ?_
  cases accepted with
  | none => exact State.declares_turns (declares_ofBreach _) (s.declares_proposeOn _ top proposed)
  | some c =>
    exact State.declares_turns (s.declares_accept top c none) (s.declares_proposeOn _ top proposed)

theorem declares_recommendationCancel (s : State) (r : Recommendation) :
    Declares (recommendationCancel s r) := by
  refine declares_bind (declares_require _) fun _ _ => ?_
  exact State.declares_turns (declares_ofBreach _) (s.declares_proposeOn _ r.top r.action)

theorem declares_negativeList (s : State) (rows : List Row) (action : Option Call)
    (request : Table) : Declares (negativeList s rows action request) := by
  refine State.declares_bind_matchFragment fun hcurrent t f => ?_
  exact State.declares_turns (State.declares_ask hcurrent) (s.declares_proposeList rows action)

theorem declares_emptySearchChange (s : State) (question : Option String) (phrase : Table) :
    Declares (emptySearchChange s question phrase) := by
  refine State.declares_bind_matchFragment fun hcurrent t f => ?_
  refine declares_bind (declares_require _) fun _ _ => ?_
  refine declares_bind (declares_ofUnsupported _) fun _ _ => ?_
  refine declares_bind (declares_ofOption _) fun a _ => ?_
  refine declares_bind (declares_require _) fun _ _ => ?_
  exact State.declares_turns (State.declares_ask hcurrent) (declares_ofBreach _)

section Narrowing

variable {rows : List Row} {action : Option Call} {questions : List (String × Option Ty)}

theorem declares_listQuestion {name : Value}
    (h : (Fragment.listQuestion rows name action questions).Narrows s →
      s.currentTable?.isSome = true) :
    Declares (listQuestion s rows name action questions) := by
  refine declares_bind (declares_require _) fun _ hr => ?_
  have hnarrows := Bool.and_eq_true_iff.mp (require_eq_ok_iff.mp hr)
  exact State.declares_turns (State.declares_ask (h hnarrows)) (s.declares_proposeList rows action)

theorem listQuestion_eq_noQuery {name : Value}
    (h : (Fragment.listQuestion rows name action questions).Narrows s)
    (hnone : s.currentTable? = none) :
    listQuestion s rows name action questions = .error (.fault .noQuery) := by
  simp only [listQuestion, require, h.1, h.2, State.askAbout, State.ask_eq_noQuery hnone]
  rfl

theorem declares_recommended (s : State) (top : Option Row) (action : Option Call) :
    Declares (recommended s top action) := by
  unfold recommended
  split
  · exact declares_ok _
  · split
    · exact declares_fault rfl
    · exact declares_rejected none
    · exact declares_ok _

theorem declares_recommendationQuestion {top : Option Row}
    (h : (Fragment.recommendationQuestion top action questions).Narrows s →
      s.currentTable?.isSome = true) :
    Declares (recommendationQuestion s top action questions) := by
  refine declares_bind (declares_require _) fun _ hq => ?_
  refine declares_bind (declares_recommended s top action) ?_
  rintro ⟨act, row⟩ hrow
  refine declares_bind (declares_require _) fun _ hid => ?_
  refine declares_bind (declares_ofOption _) fun id _ => ?_
  have hnarrows : (Fragment.recommendationQuestion top action questions).Narrows s :=
    ⟨require_eq_ok_iff.mp hq, act, row, hrow, require_eq_ok_iff.mp hid⟩
  exact State.declares_turns (State.declares_ask (h hnarrows)) (s.declares_proposeOn act row action)

theorem recommendationQuestion_eq_noQuery {top : Option Row}
    (h : (Fragment.recommendationQuestion top action questions).Narrows s)
    (hnone : s.currentTable? = none) :
    recommendationQuestion s top action questions = .error (.fault .noQuery) := by
  obtain ⟨hq, act, row, hrow, hid⟩ := h
  cases hrowId : row.id? with
  | none => simp [State.identifiesCurrent, hrowId] at hid
  | some id =>
    rw [hrowId] at hid
    simp only [recommendationQuestion, require, hq, hrow, hrowId, hid, ofOption, bind, Except.bind,
      if_true, State.askAbout, State.ask_eq_noQuery hnone]

theorem declares_positiveList {proposed accepted : Option Call} {name : Option Value}
    (h : (Fragment.positiveList rows proposed name accepted).Narrows s →
      s.currentTable?.isSome = true) :
    Declares (positiveList s rows proposed name accepted) := by
  refine declares_bind (declares_ofOption _) fun chosen hc => ?_
  obtain rfl := ofOption_eq_ok_iff.mp hc
  refine declares_bind (declares_require _) fun _ hr => ?_
  have hnarrows := Bool.and_eq_true_iff.mp (require_eq_ok_iff.mp hr)
  cases accepted with
  | none =>
    exact State.declares_turns (State.declares_ask (h hnarrows))
      (s.declares_proposeList rows proposed)
  | some c =>
    -- Something was chosen, so there is a first result to chain the call to.
    cases rows with
    | nil => simp at hnarrows
    | cons first rest =>
      exact State.declares_turns (s.declares_accept first c _)
        (s.declares_proposeList (first :: rest) proposed)

theorem positiveList_eq_noQuery {proposed accepted : Option Call} {name : Option Value}
    (h : (Fragment.positiveList rows proposed name accepted).Narrows s)
    (hnone : s.currentTable? = none) :
    positiveList s rows proposed name accepted = .error (.fault .noQuery) := by
  cases name with
  | none => cases h
  | some chosen =>
    cases accepted with
    | some c => cases h
    | none =>
      simp only [positiveList, ofOption, require, h.1, h.2, bind, Except.bind, Bool.and_self,
        if_true, State.askAbout, State.ask_eq_noQuery hnone]

end Narrowing

end Exchange

namespace Fragment

variable {s : State} {fragment : Fragment}

theorem declares_apply (h : fragment.Narrows s → s.currentTable?.isSome = true) :
    Declares (fragment.apply s) := by
  cases fragment with
  | preciseAnswer => exact Exchange.declares_preciseAnswer s _ _
  | impreciseAnswer => exact Exchange.declares_impreciseAnswer s _ _
  | proposalReply => exact Exchange.declares_proposalReply s _ _
  | negativeRecommendation => exact Exchange.declares_negativeRecommendation s _ _ _
  | positiveRecommendation => exact Exchange.declares_positiveRecommendation s _ _ _
  | listQuestion => exact Exchange.declares_listQuestion h
  | recommendationQuestion => exact Exchange.declares_recommendationQuestion h
  | recommendationCancel => exact Exchange.declares_recommendationCancel s _
  | negativeList => exact Exchange.declares_negativeList s _ _ _
  | positiveList => exact Exchange.declares_positiveList h
  | emptySearchChange => exact Exchange.declares_emptySearchChange s _ _

theorem apply_eq_noQuery (h : fragment.Narrows s) (hnone : s.currentTable? = none) :
    fragment.apply s = .error (.fault .noQuery) := by
  cases fragment with
  | listQuestion => exact Exchange.listQuestion_eq_noQuery h hnone
  | recommendationQuestion => exact Exchange.recommendationQuestion_eq_noQuery h hnone
  | positiveList => exact Exchange.positiveList_eq_noQuery h hnone
  | _ => cases h

theorem rule_mem_ruleNames (fragment : Fragment) : ruleNames.contains fragment.rule = true := by
  cases fragment <;> simp [rule, ruleNames]

end Fragment

namespace Candidate

theorem evaluate_eq_fault_iff {s : State} {fragment : Fragment} {fault : Fault} :
    (Candidate.fragment fragment).evaluate Fragment.ruleNames s = .error (.fault fault) ↔
      fragment.apply s = .error (.fault fault) := by
  rw [evaluate, fragment.rule_mem_ruleNames]
  cases fragment.apply s <;> simp [Except.map]

/-- Rules of the catalog fail in a way that they do not declare exactly where they narrow a query
that is not there. -/
theorem evaluate_faults (s : State) (fragment : Fragment) :
    ((Candidate.fragment fragment).evaluate Fragment.ruleNames s = .error (.fault .noQuery) ↔
      s.currentTable? = none ∧ fragment.Narrows s) ∧
    ∀ fault, (Candidate.fragment fragment).evaluate Fragment.ruleNames s = .error (.fault fault) →
      fault.isDeclared = true ∨ fault = .noQuery := by
  simp only [evaluate_eq_fault_iff]
  by_cases h : s.currentTable? = none ∧ fragment.Narrows s
  · have hfault := Fragment.apply_eq_noQuery h.2 h.1
    refine ⟨iff_of_true hfault h, fun fault hf => Or.inr ?_⟩
    rw [hfault] at hf
    cases hf
    rfl
  · have hdeclares : Declares (fragment.apply s) := by
      refine Fragment.declares_apply fun hn => ?_
      exact Option.isSome_iff_ne_none.mpr fun hnone => h ⟨hnone, hn⟩
    refine ⟨iff_of_false (fun hf => ?_) h, fun fault hf => Or.inl (hdeclares fault hf)⟩
    cases hdeclares _ hf

end Candidate

def refund : Signature where
  isAction := true
  className := "com.shop"
  name := "refund"
  arguments := [⟨.required, "id", .entity "com.shop:order", [], "id"⟩,
    ⟨.optional, "code", .string, [], "code"⟩]
  isList := false
  annotations := []
  canonical := "refund"
  nodup := by decide

def firstOrder : Value :=
  .entity "O1" "com.shop:order" .null

/-- An order was refunded. The identifier of the call has the type of orders. -/
def refunded : State where
  policy := State.transaction
  act := .execute
  params := none
  history := [.executed (.ofCalls [.ofSignature refund [⟨"id", firstOrder⟩]]) [] none false]

/-- The user asks for the code of one of the orders that the agent proposes. -/
def codeQuestion : Fragment :=
  .listQuestion [[("id", firstOrder)]] firstOrder none [("code", none)]

namespace Candidate

theorem evaluate_undeclared_refunded :
    refunded.isValid = true ∧
      ¬ ∀ fault, (fragment codeQuestion).evaluate Fragment.ruleNames refunded =
          .error (.fault fault) → fault.isDeclared = true := by
  have hfault : (fragment codeQuestion).evaluate Fragment.ruleNames refunded =
      .error (.fault .noQuery) := by rfl
  refine ⟨rfl, fun h => ?_⟩
  cases h _ hfault

end Candidate

end Colloquy
