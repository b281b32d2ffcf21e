import Colloquy.Proofs.Value.Equality
import Colloquy.Value.Plain

namespace Colloquy

namespace Plain

mutual

/-- The denotation without the signs of zeros. -/
def bare : Plain → Plain
  | number x => number x.bare
  | point x y => point x.bare y.bare
  | list items => list (bareItems items)
  | p => p

def bareItems : List Plain → List Plain
  | [] => []
  | p :: rest => bare p :: bareItems rest

end

mutual

theorem bare_bare : ∀ p : Plain, p.bare.bare = p.bare
  | list items => by simp [bare, bareItems_bareItems items]
  | number x => by simp [bare]
  | point x y => by simp [bare]
  | text _ => rfl
  | flag _ => rfl
  | day _ => rfl

theorem bareItems_bareItems : ∀ ps : List Plain, bareItems (bareItems ps) = bareItems ps
  | [] => rfl
  | p :: rest => by simp [bareItems, bare_bare p, bareItems_bareItems rest]

end

mutual

theorem same_bare (p q : Plain) : p.bare.same q.bare = p.same q := by
  cases p <;> cases q <;> simp [bare, same, sameItems_bare, Double.same]

theorem sameItems_bare : ∀ ps qs : List Plain,
    sameItems (bareItems ps) (bareItems qs) = sameItems ps qs
  | [], [] => rfl
  | [], _ :: _ => rfl
  | _ :: _, [] => rfl
  | p :: ps, q :: qs => by simp [bareItems, sameItems, same_bare p q, sameItems_bare ps qs]

end

theorem pointLe_bare (a b c d : Double) :
    pointLe a.bare b.bare c.bare d.bare = pointLe a b c d := by
  simp only [pointLe, Double.same_bare, Double.le_bare]

mutual

theorem le_bare (p q : Plain) : p.bare.le q.bare = p.le q := by
  cases p <;> cases q <;> simp [bare, le, leItems_bare, pointLe_bare, Double.le]

theorem leItems_bare : ∀ ps qs : List Plain, leItems (bareItems ps) (bareItems qs) = leItems ps qs
  | [], _ => rfl
  | _ :: _, [] => rfl
  | p :: ps, q :: qs => by
    simp only [bareItems, leItems, same_bare p q, le_bare p q, leItems_bare ps qs]

end

end Plain

namespace Value

mutual

theorem plain_bare : ∀ v : Value, v.bare.plain = v.plain.map Plain.bare
  | array items => by
    simp only [bare, plain, plains_bareItems items]
    cases plains items <;> rfl
  | number _ => rfl
  | currency _ _ => rfl
  | measure _ _ => rfl
  | location _ _ _ => rfl
  | string _ => rfl
  | boolean _ => rfl
  | enum _ => rfl
  | entity _ _ _ => rfl
  | date _ => rfl
  | varRef _ => rfl
  | undefined _ => rfl

theorem plains_bareItems : ∀ vs : List Value,
    plains (bareItems vs) = (plains vs).map Plain.bareItems
  | [] => rfl
  | v :: rest => by
    simp only [bareItems, plains, plain_bare v, plains_bareItems rest]
    cases plain v <;> cases plains rest <;> rfl

end

end Value

end Colloquy
