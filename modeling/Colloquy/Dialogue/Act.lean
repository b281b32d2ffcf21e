import Colloquy.Entries

namespace Colloquy

inductive Payload
  | none
  | questions
  | action
  | query
deriving DecidableEq

namespace Payload

def text : Payload → String
  | none => "none"
  | questions => "questions"
  | action => "action"
  | query => "query"

end Payload

def Act.labels : List String :=
  ["sys_recommend_one", "sys_recommend_two", "sys_recommend_three", "sys_search_question",
   "sys_generic_search_question", "sys_empty_search", "sys_empty_search_question",
   "sys_propose_refined_query", "sys_learn_more_what", "execute", "learn_more", "cancel"]

/-- An act of the taxonomy, or a label that names none of them. -/
inductive Act
  | recommendOne
  | recommendTwo
  | recommendThree
  | searchQuestion
  | genericSearchQuestion
  | emptySearch
  | emptySearchQuestion
  | proposeRefinedQuery
  | learnMoreWhat
  | execute
  | learnMore
  | cancel
  | other (label : String) (isNew : label ∉ Act.labels)
deriving DecidableEq

namespace Act

def label : Act → String
  | recommendOne => "sys_recommend_one"
  | recommendTwo => "sys_recommend_two"
  | recommendThree => "sys_recommend_three"
  | searchQuestion => "sys_search_question"
  | genericSearchQuestion => "sys_generic_search_question"
  | emptySearch => "sys_empty_search"
  | emptySearchQuestion => "sys_empty_search_question"
  | proposeRefinedQuery => "sys_propose_refined_query"
  | learnMoreWhat => "sys_learn_more_what"
  | execute => "execute"
  | learnMore => "learn_more"
  | cancel => "cancel"
  | other s _ => s

def known : List Act :=
  [recommendOne, recommendTwo, recommendThree, searchQuestion, genericSearchQuestion, emptySearch,
   emptySearchQuestion, proposeRefinedQuery, learnMoreWhat, execute, learnMore, cancel]

def ofLabel : String → Act :=
  ofName known label other

/-- No two acts share a label. -/
theorem ofLabel_label (act : Act) : ofLabel act.label = act := by
  cases act with
  | other s isNew => exact ofName_of_not_mem known label other isNew
  | _ => rfl

theorem label_ofLabel : ∀ s : String, (ofLabel s).label = s :=
  name_ofName known label other fun _ _ => rfl

def systemMark : String :=
  "sys_"

/-- Acts of the agent are marked by their labels. -/
def isSystem (act : Act) : Bool :=
  systemMark.toList.isPrefixOf act.label.toList

def payloads? : Act → Option (List Payload)
  | recommendOne | recommendTwo | recommendThree => some [.none, .action]
  | searchQuestion => some [.questions]
  | genericSearchQuestion | emptySearch => some [.none]
  | emptySearchQuestion => some [.questions]
  | proposeRefinedQuery => some [.query]
  | learnMoreWhat => some [.none, .action]
  | execute => some [.none, .action, .query]
  | learnMore | cancel => some [.none]
  | other _ _ => none

def isKnown (act : Act) : Bool :=
  act.payloads?.isSome

def recommendMany (count : Nat) : Act :=
  if count = 2 then recommendTwo else recommendThree

end Act

end Colloquy
