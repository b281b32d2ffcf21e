import Colloquy.Filter.Simplify

/-!
Conjunction and disjunction are one connective up to the exchange of the constants. What holds of
both is stated once, for a connective `k`, and filters are taken apart by it.
-/

namespace Colloquy

inductive Connective
  | and
  | or
deriving DecidableEq

namespace Connective

def join : Connective → List Filter → Filter
  | and, fs => .and fs
  | or, fs => .or fs

/-- Whether an operand says nothing. -/
def isUnit : Connective → Filter → Bool
  | and, f => f.isAlways
  | or, f => f.isNever

/-- Whether an operand settles the whole. -/
def isZero : Connective → Filter → Bool
  | and, f => f.isNever
  | or, f => f.isAlways

/-- The verdict of no operands. -/
def neutral : Connective → Bool
  | and => true
  | or => false

def unit : Connective → Filter
  | and => .always
  | or => .never

def zero : Connective → Filter
  | and => .never
  | or => .always

/-- The operands of a filter that the connective joins, or the filter itself. -/
def operands : Connective → Filter → List Filter
  | and, f => f.conjuncts
  | or, f => f.disjuncts

def ofOperands : Connective → List Filter → Filter
  | and, fs => .ofConjuncts fs
  | or, fs => .ofDisjuncts fs

def combine : Connective → List Filter → Filter
  | and, fs => .conjoinAll fs
  | or, fs => .disjoinAll fs

theorem combine_eq (k : Connective) (fs : List Filter) :
    k.combine fs = if (fs.flatMap k.operands).any k.isZero then k.zero
      else k.ofOperands (Filter.distinct ((fs.flatMap k.operands).filter (!k.isUnit ·))) := by
  cases k <;> rfl

theorem operands_join (k : Connective) (fs : List Filter) : k.operands (k.join fs) = fs := by
  cases k <;> rfl

/-- A filter is joined by the connective, or it is its own only operand. -/
theorem operands_cases (k : Connective) (f : Filter) :
    (∃ fs, f = k.join fs) ∨ k.operands f = [f] := by
  cases k <;> cases f <;> simp [join, operands, Filter.conjuncts, Filter.disjuncts]

/-- One operand is taken as it is, and any other number is joined. -/
theorem ofOperands_cases (k : Connective) (fs : List Filter) :
    (fs = [] ∧ k.ofOperands fs = k.unit) ∨ (∃ f, fs = [f] ∧ k.ofOperands fs = f) ∨
      (2 ≤ fs.length ∧ k.ofOperands fs = k.join fs) := by
  rcases fs with _ | ⟨f, _ | ⟨g, rest⟩⟩
  · exact Or.inl ⟨rfl, by cases k <;> rfl⟩
  · exact Or.inr (Or.inl ⟨f, rfl, by cases k <;> rfl⟩)
  · exact Or.inr (Or.inr ⟨by simp, by cases k <;> rfl⟩)

theorem eq_unit_of_isUnit {k : Connective} {f : Filter} (h : k.isUnit f = true) : f = k.unit := by
  cases k <;> cases f <;> first | rfl | simp [isUnit, Filter.isAlways, Filter.isNever] at h

theorem eq_zero_of_isZero {k : Connective} {f : Filter} (h : k.isZero f = true) : f = k.zero := by
  cases k <;> cases f <;> first | rfl | simp [isZero, Filter.isAlways, Filter.isNever] at h

end Connective

namespace Filter

/-- Induction over filters, with one case for the connectives and all operands at hand in it. -/
@[elab_as_elim]
theorem connectiveInduction {motive : Filter → Prop}
    (always : motive .always) (never : motive .never)
    (dontCare : ∀ field, motive (.dontCare field)) (atom : ∀ a, motive (.atom a))
    (not : ∀ f, motive f → motive (.not f))
    (join : ∀ (k : Connective) fs, (∀ f ∈ fs, motive f) → motive (k.join fs))
    (external : ∀ selector channel params f, motive f →
      motive (.external selector channel params f))
    (compute : ∀ lhs op rhs, motive (.compute lhs op rhs)) (f : Filter) : motive f := by
  apply Filter.rec (motive_1 := motive) (motive_2 := fun fs => ∀ f ∈ fs, motive f)
  case always => exact always
  case never => exact never
  case dontCare => exact dontCare
  case atom => exact atom
  case not => exact not
  case and => exact join .and
  case or => exact join .or
  case external => exact external
  case compute => exact compute
  case nil => simp
  case cons =>
    intro g rest hg hrest f hf
    rcases List.mem_cons.mp hf with rfl | hf
    · exact hg
    · exact hrest f hf

theorem simplifyAll_eq_map (fs : List Filter) : simplifyAll fs = fs.map simplify := by
  induction fs with
  | nil => rfl
  | cons f rest ih => simp [simplifyAll, ih]

theorem simplify_join (k : Connective) (fs : List Filter) :
    (k.join fs).simplify = k.combine (fs.map simplify) := by
  cases k <;> simp [Connective.join, Connective.combine, simplify, simplifyAll_eq_map]

end Filter

end Colloquy
