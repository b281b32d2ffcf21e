import Colloquy.Filter.Verdict
import Colloquy.Proofs.Filter.Equality
import Colloquy.Proofs.Value.Denotation

/-!
Verdicts and the simplified form. A connective settles its operands from the left, and the first
verdict that is not the neutral one counts. Simplifying changes the operands in ways that this order
cannot tell, so a filter that has a verdict keeps it.
-/

namespace Colloquy

namespace Connective

variable {ε : Type} {test : Atom → Except ε Bool} {k : Connective}

/-- The verdict on two operands. The second counts only where the first is neutral. -/
def next (k : Connective) (v w : Except ε Bool) : Except ε Bool :=
  match v with
  | .ok b => if b = k.neutral then w else .ok b
  | .error e => .error e

@[simp] theorem next_neutral_left (w : Except ε Bool) : k.next (.ok k.neutral) w = w := by
  simp [next]

@[simp] theorem next_neutral_right (v : Except ε Bool) : k.next v (.ok k.neutral) = v := by
  cases v with
  | error e => rfl
  | ok b =>
    simp only [next]
    split
    next h => rw [h]
    next => rfl

theorem next_assoc (u v w : Except ε Bool) : k.next (k.next u v) w = k.next u (k.next v w) := by
  cases u with
  | error e => rfl
  | ok b => by_cases h : b = k.neutral <;> simp [next, h]

theorem next_eq_ok_iff {v w : Except ε Bool} {b : Bool} :
    k.next v w = .ok b ↔
      (v = .ok k.neutral ∧ w = .ok b) ∨ (v = .ok (!k.neutral) ∧ b = !k.neutral) := by
  cases v with
  | error e => simp [next]
  | ok c =>
    by_cases hc : c = k.neutral
    · simp [next, hc]
    · have hc' : c = !k.neutral := Bool.eq_not_of_ne hc
      simp [next, hc', eq_comm]

def settle (k : Connective) (test : Atom → Except ε Bool) : List Filter → Except ε Bool
  | [] => .ok k.neutral
  | f :: rest => k.next (f.verdict test) (settle k test rest)

theorem settle_append (fs gs : List Filter) :
    k.settle test (fs ++ gs) = k.next (k.settle test fs) (k.settle test gs) := by
  induction fs with
  | nil => simp [settle]
  | cons f fs ih => rw [List.cons_append, settle, settle, ih, next_assoc]

theorem settle_singleton (f : Filter) : k.settle test [f] = f.verdict test := by
  simp [settle]

end Connective

namespace Filter

variable {ε : Type} {test : Atom → Except ε Bool} {k : Connective}

theorem verdictAll_eq_settle (fs : List Filter) :
    verdictAll test fs = Connective.settle .and test fs := by
  induction fs with
  | nil => rfl
  | cons f rest ih =>
    rw [verdictAll, Connective.settle, ih]
    rcases verdict test f with e | _ | _ <;> rfl

theorem verdictAny_eq_settle (fs : List Filter) :
    verdictAny test fs = Connective.settle .or test fs := by
  induction fs with
  | nil => rfl
  | cons f rest ih =>
    rw [verdictAny, Connective.settle, ih]
    rcases verdict test f with e | _ | _ <;> rfl

theorem verdict_join (fs : List Filter) : (k.join fs).verdict test = k.settle test fs := by
  cases k
  · exact verdictAll_eq_settle fs
  · exact verdictAny_eq_settle fs

theorem verdict_unit : k.unit.verdict test = .ok k.neutral := by
  cases k <;> rfl

theorem verdict_zero : k.zero.verdict test = .ok (!k.neutral) := by
  cases k <;> rfl

theorem verdict_negate (f : Filter) : f.negate.verdict test = (f.verdict test).map (!·) := by
  cases f
  case not f =>
    simp only [negate, verdict]
    rcases f.verdict test with e | _ | _ <;> rfl
  all_goals rfl

end Filter

namespace Connective

variable {ε : Type} {test : Atom → Except ε Bool} {k : Connective}

theorem settle_operands (f : Filter) : k.settle test (k.operands f) = f.verdict test := by
  rcases k.operands_cases f with ⟨fs, rfl⟩ | hf
  · rw [operands_join, Filter.verdict_join]
  · rw [hf, settle_singleton]

theorem settle_flatMap_operands (fs : List Filter) :
    k.settle test (fs.flatMap k.operands) = k.settle test fs := by
  induction fs with
  | nil => rfl
  | cons f rest ih => rw [List.flatMap_cons, settle_append, settle_operands, ih, settle]

theorem settle_filter {p : Filter → Bool} {fs : List Filter}
    (hp : ∀ f ∈ fs, p f = false → f.verdict test = .ok k.neutral) :
    k.settle test (fs.filter p) = k.settle test fs := by
  induction fs with
  | nil => rfl
  | cons f rest ih =>
    have hrest := ih (fun g hg => hp g (List.mem_cons_of_mem _ hg))
    cases h : p f with
    | true => rw [List.filter_cons_of_pos h, settle, settle, hrest]
    | false =>
      have hf := hp f List.mem_cons_self h
      rw [List.filter_cons_of_neg (by simp [h]), settle, hf, next_neutral_left, hrest]

theorem settle_filter_not_isUnit (fs : List Filter) :
    k.settle test (fs.filter (!k.isUnit ·)) = k.settle test fs := by
  apply settle_filter
  intro f _ hf
  have hu : k.isUnit f = true := by simpa using hf
  rw [eq_unit_of_isUnit hu, Filter.verdict_unit]

theorem settle_map_congr {g : Filter → Filter} {fs : List Filter}
    (hg : ∀ f ∈ fs, (g f).verdict test = f.verdict test) :
    k.settle test (fs.map g) = k.settle test fs := by
  induction fs with
  | nil => rfl
  | cons f rest ih =>
    have hrest := ih (fun h hh => hg h (List.mem_cons_of_mem _ hh))
    rw [List.map_cons, settle, settle, hg f List.mem_cons_self, hrest]

theorem settle_map_of_ok {g : Filter → Filter} {fs : List Filter} {b : Bool}
    (hg : ∀ f ∈ fs, ∀ b, f.verdict test = .ok b → (g f).verdict test = .ok b)
    (h : k.settle test fs = .ok b) : k.settle test (fs.map g) = .ok b := by
  induction fs with
  | nil => exact h
  | cons f rest ih =>
    have hf := hg f List.mem_cons_self
    rw [settle, next_eq_ok_iff] at h
    rw [List.map_cons, settle, next_eq_ok_iff]
    rcases h with ⟨hn, hrest⟩ | ⟨hz, hb⟩
    · exact Or.inl ⟨hf _ hn, ih (fun g hm => hg g (List.mem_cons_of_mem _ hm)) hrest⟩
    · exact Or.inr ⟨hf _ hz, hb⟩

/-- Where an operand settles the whole, no other verdict is possible. -/
theorem eq_of_settle_of_any_isZero {fs : List Filter} {b : Bool} (hz : fs.any k.isZero = true)
    (h : k.settle test fs = .ok b) : b = !k.neutral := by
  induction fs with
  | nil => simp at hz
  | cons f rest ih =>
    rw [settle, next_eq_ok_iff] at h
    rcases h with ⟨hn, hrest⟩ | ⟨_, hb⟩
    · rcases Bool.or_eq_true_iff.mp hz with hf | hr
      · rw [eq_zero_of_isZero hf, Filter.verdict_zero] at hn
        simp at hn
      · exact ih hr hrest
    · exact hb

theorem verdict_ofOperands (fs : List Filter) :
    (k.ofOperands fs).verdict test = k.settle test fs := by
  rcases k.ofOperands_cases fs with ⟨rfl, hu⟩ | ⟨f, rfl, hf⟩ | ⟨_, hj⟩
  · rw [hu, Filter.verdict_unit, settle]
  · rw [hf, settle_singleton]
  · rw [hj, Filter.verdict_join]

end Connective

section Bare

variable {ε : Type} {test : Atom → Except ε Bool} (htest : ∀ a : Atom, test a.bare = test a)
include htest

theorem Filter.verdict_bare (f : Filter) : f.bare.verdict test = f.verdict test := by
  induction f using connectiveInduction with
  | atom a => exact htest a
  | not f ih => simp only [bare, verdict, ih]
  | join k fs ih => rw [bare_join, verdict_join, verdict_join, Connective.settle_map_congr ih]
  | _ => rfl

theorem Filter.verdict_eq_of_same {f g : Filter} (h : f.same g = true) :
    f.verdict test = g.verdict test := by
  rw [← verdict_bare htest f, (same_iff.mp h).1, verdict_bare htest g]

/-- An operand that is dropped has the verdict of an operand that stays before it. -/
theorem Connective.settle_distinct (k : Connective) (fs : List Filter) :
    k.settle test (Filter.distinct fs) = k.settle test fs := by
  induction fs with
  | nil => rfl
  | cons f rest ih =>
    rw [Filter.distinct, settle, settle, ← ih]
    by_cases hf : f.verdict test = .ok k.neutral
    · rw [settle_filter]
      intro g _ hg
      have hs : f.same g = true := by simpa using hg
      rw [← Filter.verdict_eq_of_same htest hs, hf]
    · rcases hv : f.verdict test with e | b
      · rfl
      · have hb : b ≠ k.neutral := fun hb => hf (by rw [hv, hb])
        simp [next, hb]

theorem Connective.verdict_combine {k : Connective} {fs : List Filter} {b : Bool}
    (h : k.settle test fs = .ok b) : (k.combine fs).verdict test = .ok b := by
  rw [← settle_flatMap_operands] at h
  rw [combine_eq]
  split
  next hz => rw [Filter.verdict_zero, eq_of_settle_of_any_isZero hz h]
  next => rw [verdict_ofOperands, settle_distinct htest, settle_filter_not_isUnit, h]

theorem Filter.verdict_simplify {f : Filter} {b : Bool} (h : f.verdict test = .ok b) :
    f.simplify.verdict test = .ok b := by
  induction f using connectiveInduction generalizing b with
  | not f ih =>
    rw [simplify, verdict_negate]
    rw [verdict] at h
    cases hf : f.verdict test with
    | error e =>
      rw [hf] at h
      cases h
    | ok c =>
      rw [ih hf]
      rw [hf] at h
      exact h
  | join k fs ih =>
    rw [verdict_join] at h
    rw [simplify_join]
    exact Connective.verdict_combine htest (Connective.settle_map_of_ok (fun f hf b => ih f hf) h)
  | _ => exact h

end Bare

namespace Filter

theorem comparePlain_bare {compare : Plain → Plain → Except EvalError Bool}
    (hc : ∀ p q, compare p.bare q.bare = compare p q) (v w : Value) :
    comparePlain compare v w.bare = comparePlain compare v w := by
  have hright : ∀ p q, compare p q.bare = compare p q := by
    intro p q
    rw [← hc p q.bare, Plain.bare_bare, hc]
  unfold comparePlain
  rw [Value.plain_bare]
  rcases v.plain with e | p
  · rfl
  · rcases w.plain with e | q
    · rfl
    · exact hright p q

theorem testRow_bare (row : Row) (a : Atom) : testRow row a.bare = testRow row a := by
  have hc : ∀ v w, comparePlain (fun p q => .ok (p.same q)) v w.bare =
      comparePlain (fun p q => .ok (p.same q)) v w :=
    comparePlain_bare (fun p q => by rw [Plain.same_bare])
  unfold testRow
  simp only [Atom.bare, hc]

theorem any_same_bareItems (found : Value) (v : Value) :
    found.isIn (v.bare.items?.getD []) = found.isIn (v.items?.getD []) := by
  have hs : ∀ u : Value, found.same u.bare = found.same u :=
    fun u => Value.same_congr_right found u.bare_bare
  cases v with
  | array items =>
    simp only [Value.bare, Value.bareItems_eq_map, Value.items?, Option.getD_some, Value.isIn,
      List.any_map]
    congr 1
    funext u
    exact hs u
  | _ => rfl

theorem testBag_bare (bag : SlotBag) (a : Atom) : testBag bag a.bare = testBag bag a := by
  have hle : ∀ v w, comparePlain Plain.le v w.bare = comparePlain Plain.le v w :=
    comparePlain_bare Plain.le_bare
  have hge : ∀ v w, comparePlain (fun p q => q.le p) v w.bare =
      comparePlain (fun p q => q.le p) v w :=
    comparePlain_bare (fun p q => Plain.le_bare q p)
  have hs : ∀ u, a.value.bare.same u = a.value.same u :=
    fun u => Value.same_congr_left u a.value.bare_bare
  have hin : ∀ us, a.value.bare.isIn us = a.value.isIn us :=
    fun us => Value.isIn_congr us a.value.bare_bare
  unfold testBag
  simp only [Atom.bare, hle, hge, hs, hin, any_same_bareItems]

/-- Simplifying a filter keeps the verdict that it has on a row and the one on a bag of facts. -/
theorem holds_simplify (f : Filter) (b : Bool) :
    (∀ row : Row, f.holdsForRow row = .ok b → f.simplify.holdsForRow row = .ok b) ∧
      (∀ bag : SlotBag, f.holdsForBag bag = .ok b → f.simplify.holdsForBag bag = .ok b) := by
  constructor
  · intro row h
    exact verdict_simplify (testRow_bare row) h
  · intro bag h
    exact verdict_simplify (testBag_bare bag) h

/-- A filter in which every rule of simplification applies and one operand is not reached. -/
def tangled : Filter :=
  and [always, or [never, atom ⟨"cuisine", .equal, .string "thai"⟩],
    and [atom ⟨"cuisine", .equal, .string "thai"⟩, not (not (dontCare "area"))],
    or [atom ⟨"stars", .equal, .number (.ofInt 4)⟩, atom ⟨"stars", .equal, .varRef "best"⟩]]

theorem holds_simplify_tangled :
    let row : Row := [("cuisine", .string "thai"), ("stars", .number (.ofInt 4))]
    tangled.holdsForRow row = .ok true ∧ tangled.simplify.holdsForRow row = .ok true ∧
      tangled.holdsForBag ⟨none, row⟩ = .ok true ∧
      tangled.simplify.holdsForBag ⟨none, row⟩ = .ok true := by
  intro row
  have hrow : tangled.holdsForRow row = .ok true := by rfl
  have hbag : tangled.holdsForBag ⟨none, row⟩ = .ok true := by rfl
  exact ⟨hrow, (holds_simplify tangled true).1 row hrow, hbag,
    (holds_simplify tangled true).2 ⟨none, row⟩ hbag⟩

end Filter

end Colloquy
