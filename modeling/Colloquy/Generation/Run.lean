import Colloquy.Data.Writing
import Colloquy.Exchange.Rule

namespace Colloquy

/-- A fragment that is offered to a context, or the name of a rule that does not exist. -/
inductive Candidate
  | fragment (f : Fragment)
  | unknown (rule : String) (isNew : rule ∉ Fragment.ruleNames)

def Candidate.rule : Candidate → String
  | fragment f => f.rule
  | unknown rule _ => rule

structure Example where
  rule : String
  context : State
  exchange : Exchange

namespace Example

def fields (e : Example) : List (String × Option String) :=
  [("rule", some e.rule), ("context", e.context.text?), ("agent", e.exchange.agent.text?),
   ("user", e.exchange.user.text?)]

def line? (e : Example) : Option String := do
  let fields ← e.fields.mapM fun (name, text) => text.map fun s => (name, Data.text s)
  some ((Data.record fields).toJson Text.quoteUnicode ++ "\n")

def fileText? (examples : List Example) : Option String := do
  some (String.join (← examples.mapM line?))

end Example

def Candidate.evaluate (catalog : List String) (s : State) : Candidate → Except Stop Example
  | fragment f =>
    if catalog.contains f.rule then (f.apply s).map fun e => ⟨f.rule, s, e⟩
    else .error (.fault (.unknownRule f.rule))
  | unknown rule _ => .error (.fault (.unknownRule rule))

/-- What a run has come to. A failure ends it. -/
structure Run where
  examples : List Example
  log : List LogLine
  accepted : Entries Nat
  rejected : Entries Nat
  failure : Option Fault

namespace Run

def start : Run :=
  ⟨[], [], [], [], none⟩

def countUp (counts : Entries Nat) (name : String) : Entries Nat :=
  counts.put name ((counts.get? name).getD 0 + 1)

def accept (r : Run) (e : Example) : Run :=
  { r with examples := r.examples ++ [e], accepted := countUp r.accepted e.rule }

def reject (r : Run) (rule : String) (note : Option Note) : Run :=
  { r with
    log := r.log ++ note.toList.map Note.toLogLine
    rejected := countUp r.rejected rule }

/-- Tries the candidates of a context, of which `produced` examples came so far. -/
def context (catalog : List String) (limit : Nat) (s : State) (produced : Nat) (r : Run) :
    List Candidate → Run
  | [] => r
  | c :: rest =>
    match c.evaluate catalog s with
    | .ok e =>
      if limit != 0 && limit ≤ produced + 1 then r.accept e
      else context catalog limit s (produced + 1) (r.accept e) rest
    | .error (.rejected note) => context catalog limit s produced (r.reject c.rule note) rest
    | .error (.fault f) => { r with failure := some f }

def contexts (catalog : List String) (limit : Nat) (r : Run) : List (State × List Candidate) → Run
  | [] => r
  | (s, candidates) :: rest =>
    let r := context catalog limit s 0 r candidates
    if r.failure.isSome then r else contexts catalog limit r rest

def sortNames (names : List String) : List String :=
  names.mergeSort fun a b => decide (a ≤ b)

def triedRules (r : Run) : List String :=
  let names := r.accepted.names ++ r.rejected.names.filter (!r.accepted.has ·)
  sortNames names

def count (counts : Entries Nat) (name : String) : Nat :=
  (counts.get? name).getD 0

def ruleText (r : Run) (rule : String) : String :=
  "  " ++ rule ++ ": " ++ toString (count r.accepted rule) ++ " accepted, " ++
    toString (count r.rejected rule) ++ " rejected"

def summary (r : Run) (contextCount : Nat) : List LogLine :=
  .info ("Generated " ++ toString r.examples.length ++ " examples from " ++
      toString contextCount ++ " contexts") ::
    r.triedRules.map fun rule => .info (r.ruleText rule)

def restart (earlier : Run) : Run :=
  { start with accepted := earlier.accepted, rejected := earlier.rejected }

/-- A whole run of a generator that has come to `earlier` before. It closes with a summary unless it
fails. -/
def resume (catalog : List String) (limit : Nat) (earlier : Run)
    (work : List (State × List Candidate)) : Run :=
  let r := contexts catalog limit earlier.restart work
  if r.failure.isSome then r else { r with log := r.log ++ r.summary work.length }

def generate (catalog : List String) (limit : Nat) (work : List (State × List Candidate)) : Run :=
  resume catalog limit start work

end Run

end Colloquy
