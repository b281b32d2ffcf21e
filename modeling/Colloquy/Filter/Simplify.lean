import Colloquy.Filter.Basic

namespace Colloquy.Filter

def isAlways : Filter → Bool
  | always => true
  | _ => false

def isNever : Filter → Bool
  | never => true
  | _ => false

/-- Keeps the first of the operands that are equal to each other. An operand with a NaN in it is equal to
none, and so it is kept even beside itself. -/
def distinct : List Filter → List Filter
  | [] => []
  | f :: rest => f :: (distinct rest).filter (!f.same ·)

def negate : Filter → Filter
  | always => never
  | never => always
  | not f => f
  | f => not f

def conjuncts : Filter → List Filter
  | and fs => fs
  | f => [f]

def disjuncts : Filter → List Filter
  | or fs => fs
  | f => [f]

/-- The conjunction of operands that are neither constants nor conjunctions. -/
def ofConjuncts : List Filter → Filter
  | [] => always
  | [f] => f
  | fs => and fs

def ofDisjuncts : List Filter → Filter
  | [] => never
  | [f] => f
  | fs => or fs

def conjoinAll (fs : List Filter) : Filter :=
  let flat := fs.flatMap conjuncts
  if flat.any isNever then never else ofConjuncts (distinct (flat.filter (!·.isAlways)))

def disjoinAll (fs : List Filter) : Filter :=
  let flat := fs.flatMap disjuncts
  if flat.any isAlways then always else ofDisjuncts (distinct (flat.filter (!·.isNever)))

mutual

/-- Connectives of one kind are flattened, constants are absorbed, repeated operands are dropped, and two
negations cancel. -/
def simplify : Filter → Filter
  | not f => negate (simplify f)
  | and fs => conjoinAll (simplifyAll fs)
  | or fs => disjoinAll (simplifyAll fs)
  | external selector channel params f => external selector channel params (simplify f)
  | f => f

def simplifyAll : List Filter → List Filter
  | [] => []
  | f :: rest => simplify f :: simplifyAll rest

end

end Colloquy.Filter
