import Colloquy.Proofs.Filter.Monotone
import Colloquy.Proofs.Filter.Typing

namespace Colloquy

namespace Connective

variable {ε : Type} {test : Atom → Except ε Bool} {k : Connective} {fs : List Filter} {b : Bool}

/-- The value of a connective is the neutral one of all of its operands, or the other one of some. -/
def Settles (k : Connective) (fs : List Filter) (HasValue : Filter → Bool → Prop) (b : Bool) : Prop :=
  (b = k.neutral ∧ ∀ f ∈ fs, HasValue f b) ∨ (b = !k.neutral ∧ ∃ f ∈ fs, HasValue f b)

theorem Settles.imp {P Q : Filter → Bool → Prop} (h : k.Settles fs P b)
    (hop : ∀ f ∈ fs, P f b → Q f b) : k.Settles fs Q b := by
  rcases h with ⟨hb, hall⟩ | ⟨hb, f, hf, hone⟩
  · exact Or.inl ⟨hb, fun f hf => hop f hf (hall f hf)⟩
  · exact Or.inr ⟨hb, f, hf, hop f hf hone⟩

theorem settles_of_settle (h : k.settle test fs = .ok b) :
    k.Settles fs (fun f b => f.verdict test = .ok b) b := by
  by_cases hb : b = k.neutral
  · subst hb
    exact Or.inl ⟨rfl, settle_eq_neutral_iff.mp h⟩
  · obtain rfl : b = !k.neutral := Bool.eq_not_of_ne hb
    exact Or.inr ⟨rfl, exists_of_settle h⟩

theorem exists_of_settle_error {e : ε} (h : k.settle test fs = .error e) :
    ∃ f ∈ fs, f.verdict test = .error e := by
  induction fs with
  | nil => cases h
  | cons f rest ih =>
    rw [settle] at h
    cases hf : f.verdict test with
    | error e' =>
      rw [hf] at h
      exact ⟨f, List.mem_cons_self, hf.trans h⟩
    | ok b =>
      rw [hf] at h
      simp only [next] at h
      split at h
      next =>
        obtain ⟨g, hg, he⟩ := ih h
        exact ⟨g, List.mem_cons_of_mem _ hg, he⟩
      next => cases h

end Connective

namespace Filter

/-- Whether a row leaves the truth of a predicate open. -/
def isOpen : Filter → Bool
  | atom a => a.op.family != .equality
  | external _ _ _ _ => true
  | compute _ _ _ => true
  | _ => false

section Truth

variable (truth : Filter → Bool)

mutual

/-- Whether a filter holds, where `truth` says which of its atoms and of the predicates over other
queries or computed values do. -/
def holdsUnder : Filter → Bool
  | always => true
  | never => false
  | dontCare _ => true
  | atom a => truth (atom a)
  | not f => !holdsUnder f
  | and fs => allHoldUnder fs
  | or fs => someHoldsUnder fs
  | external selector channel params f => truth (external selector channel params f)
  | compute lhs op rhs => truth (compute lhs op rhs)

def allHoldUnder : List Filter → Bool
  | [] => true
  | f :: rest => holdsUnder f && allHoldUnder rest

def someHoldsUnder : List Filter → Bool
  | [] => false
  | f :: rest => holdsUnder f || someHoldsUnder rest

end

/-- The same truth, with all open predicates supposed. -/
def supposing (p : Filter) : Bool :=
  p.isOpen || truth p

end Truth

mutual

/-- The open predicates of a filter that stand under an even number of negations or, where `odd`, under
an odd one. -/
def openLeaves (odd : Bool) : Filter → List Filter
  | not f => openLeaves (!odd) f
  | and fs => openLeavesAll odd fs
  | or fs => openLeavesAll odd fs
  | p => if p.isOpen && !odd then [p] else []

def openLeavesAll (odd : Bool) : List Filter → List Filter
  | [] => []
  | f :: rest => openLeaves odd f ++ openLeavesAll odd rest

end

theorem openLeavesAll_eq_flatMap (odd : Bool) (fs : List Filter) :
    openLeavesAll odd fs = fs.flatMap (openLeaves odd) := by
  induction fs with
  | nil => rfl
  | cons f rest ih => simp [openLeavesAll, ih]

theorem openLeaves_join (odd : Bool) (k : Connective) (fs : List Filter) :
    (k.join fs).openLeaves odd = fs.flatMap (openLeaves odd) := by
  cases k <;> simp [Connective.join, openLeaves, openLeavesAll_eq_flatMap]

section Truth

variable {ε : Type} {test : Atom → Except ε Bool} {truth : Filter → Bool} {k : Connective}
  {f : Filter} {fs : List Filter}

theorem holdsUnder_join_eq_neutral_iff :
    (k.join fs).holdsUnder truth = k.neutral ↔ ∀ f ∈ fs, f.holdsUnder truth = k.neutral := by
  induction fs with
  | nil => cases k <;> simp [Connective.join, Connective.neutral, holdsUnder, allHoldUnder,
      someHoldsUnder]
  | cons f rest ih =>
    cases k <;> simpa [Connective.join, Connective.neutral, holdsUnder, allHoldUnder,
      someHoldsUnder] using fun _ => ih

theorem holdsUnder_join_iff {b : Bool} :
    (k.join fs).holdsUnder truth = b ↔ k.Settles fs (fun f b => f.holdsUnder truth = b) b := by
  by_cases hb : b = k.neutral
  · simp [Connective.Settles, hb, holdsUnder_join_eq_neutral_iff]
  · have hb' : b = !k.neutral := Bool.eq_not_of_ne hb
    have hne : (k.join fs).holdsUnder truth = b ↔ ¬ (k.join fs).holdsUnder truth = k.neutral := by
      rw [hb', Bool.eq_not]
    rw [hne, holdsUnder_join_eq_neutral_iff]
    simp [Connective.Settles, hb', Bool.eq_not]

theorem supposing_of_isOpen {p : Filter} (h : p.isOpen = true) : supposing truth p = true := by
  rw [supposing, h, Bool.true_or]

theorem supposing_of_not_isOpen {p : Filter} (h : p.isOpen = false) :
    supposing truth p = truth p := by
  rw [supposing, h, Bool.false_or]

theorem of_supposing (truth : Filter → Bool) {p : Filter} {b : Bool}
    (hopen : ∀ q ∈ (if p.isOpen && !!b then [p] else []), truth q = true)
    (h : supposing truth p = b) : truth p = b := by
  cases hp : p.isOpen with
  | false => rw [← h, supposing_of_not_isOpen hp]
  | true =>
    obtain rfl : true = b := (supposing_of_isOpen hp).symm.trans h
    exact hopen p (by simp [hp])

/-- An open predicate that is supposed and does not hold can turn the value of a filter only from true,
where it stands under an even number of negations, or from false, where the number is odd. -/
theorem holdsUnder_of_supposing {b : Bool} (hopen : ∀ p ∈ f.openLeaves (!b), truth p = true)
    (h : f.holdsUnder (supposing truth) = b) : f.holdsUnder truth = b := by
  induction f using connectiveInduction generalizing b with
  | not f ih =>
    rw [holdsUnder] at h ⊢
    rw [ih hopen (Bool.not_eq_eq_eq_not.mp h), Bool.not_not]
  | join k fs ih =>
    rw [openLeaves_join] at hopen
    have hop : ∀ f ∈ fs, f.holdsUnder (supposing truth) = b → f.holdsUnder truth = b :=
      fun f hf => ih f hf fun p hp => hopen p (List.mem_flatMap.mpr ⟨f, hf, hp⟩)
    exact holdsUnder_join_iff.mpr ((holdsUnder_join_iff.mp h).imp hop)
  | atom _ | external _ _ _ _ _ | compute _ _ _ => exact of_supposing truth hopen h
  | _ => exact h

/-- A verdict is the value of the filter with all open predicates supposed. -/
theorem holdsUnder_of_verdict {b : Bool}
    (hatoms : ∀ a, atom a ∈ f.slotClauses → ∀ c, test a = .ok c → supposing truth (atom a) = c)
    (h : f.verdict test = .ok b) : f.holdsUnder (supposing truth) = b := by
  induction f using connectiveInduction generalizing b with
  | atom a => exact hatoms a List.mem_cons_self b h
  | not f ih =>
    rw [verdict, map_not_eq_ok_iff] at h
    rw [holdsUnder, ih hatoms h, Bool.not_not]
  | join k fs ih =>
    rw [verdict_join] at h
    rw [slotClauses_join] at hatoms
    have hop : ∀ f ∈ fs, f.verdict test = .ok b → f.holdsUnder (supposing truth) = b :=
      fun f hf => ih f hf fun a ha => hatoms a (List.mem_flatMap.mpr ⟨f, hf, ha⟩)
    exact holdsUnder_join_iff.mpr ((Connective.settles_of_settle h).imp hop)
  | _ =>
    cases h
    rfl

theorem exists_atom_of_verdict_error {e : ε} (h : f.verdict test = .error e) :
    ∃ a, atom a ∈ f.slotClauses ∧ test a = .error e := by
  induction f using connectiveInduction with
  | atom a => exact ⟨a, List.mem_cons_self, h⟩
  | not f ih =>
    rw [verdict] at h
    cases hf : f.verdict test with
    | error e' =>
      rw [hf] at h
      exact ih (hf.trans h)
    | ok b =>
      rw [hf] at h
      cases h
  | join k fs ih =>
    rw [verdict_join] at h
    rw [slotClauses_join]
    obtain ⟨f, hf, he⟩ := Connective.exists_of_settle_error h
    obtain ⟨a, ha, hatom⟩ := ih f hf he
    exact ⟨a, List.mem_flatMap.mpr ⟨f, hf, ha⟩, hatom⟩
  | _ => cases h

end Truth

theorem testRow_of_ne_equality {row : Row} {a : Atom} (h : a.op.family ≠ .equality) :
    testRow row a = .ok (row.has a.field) := by
  unfold testRow Entries.has
  cases row.get? a.field with
  | none => rfl
  | some found =>
    cases hop : a.op.family with
    | equality => exact absurd hop h
    | _ => rfl

theorem family_of_testRow_error {row : Row} {a : Atom} {e : EvalError}
    (h : testRow row a = .error e) : a.op.family = .equality := by
  by_cases hop : a.op.family = .equality
  · exact hop
  · rw [testRow_of_ne_equality hop] at h
    cases h

/-- On a row with its field an atom is settled as an equality, or supposed. -/
theorem supposing_of_testRow {row : Row} {a : Atom} {truth : Filter → Bool} {b : Bool}
    (hfound : row.has a.field = true)
    (hequal : a.op.family = .equality → ∀ b, testRow row a = .ok b → truth (atom a) = b)
    (h : testRow row a = .ok b) : supposing truth (atom a) = b := by
  by_cases hop : a.op.family = .equality
  · have hclosed : (atom a).isOpen = false := by simp [isOpen, hop]
    rw [supposing_of_not_isOpen hclosed, hequal hop b h]
  · have hopen : (atom a).isOpen = true := by simp [isOpen, hop]
    rw [testRow_of_ne_equality hop, hfound] at h
    rw [supposing_of_isOpen hopen, Except.ok.inj h]

/-- A verdict on a row supposes all open predicates. So a row of which the filter can hold is accepted,
unless an open predicate under an odd number of negations fails, or an atom that asks for equality has no
verdict. -/
theorem holdsForRow_possible {f : Filter} {row : Row} {truth : Filter → Bool}
    (hfields : ∀ name ∈ f.fields, row.has name = true)
    (hequal : ∀ a, atom a ∈ f.slotClauses → a.op.family = .equality →
      ∀ b, testRow row a = .ok b → truth (atom a) = b) :
    (∀ b, f.holdsForRow row = .ok b → f.holdsUnder (supposing truth) = b) ∧
      (f.holdsUnder truth = true →
        f.holdsForRow row = .ok true ∨
        (f.holdsForRow row = .ok false ∧ ∃ p ∈ f.openLeaves true, truth p = false) ∨
        ∃ a e, atom a ∈ f.slotClauses ∧ a.op.family = .equality ∧ testRow row a = .error e ∧
          f.holdsForRow row = .error e) := by
  have hatoms : ∀ a, atom a ∈ f.slotClauses → ∀ c, testRow row a = .ok c →
      supposing truth (atom a) = c := by
    intro a ha c hc
    have hfound : row.has a.field = true := hfields _ (mem_fields_iff.mpr ⟨_, ha, rfl⟩)
    exact supposing_of_testRow hfound (hequal a ha) hc
  have hverdict : ∀ b, f.holdsForRow row = .ok b → f.holdsUnder (supposing truth) = b :=
    fun b => holdsUnder_of_verdict hatoms
  refine ⟨hverdict, fun htrue => ?_⟩
  cases hv : f.holdsForRow row with
  | error e =>
    obtain ⟨a, ha, he⟩ := exists_atom_of_verdict_error hv
    exact Or.inr (Or.inr ⟨a, e, ha, family_of_testRow_error he, he, rfl⟩)
  | ok b =>
    cases b with
    | true => exact Or.inl rfl
    | false =>
      by_cases hfails : ∃ p ∈ f.openLeaves true, truth p = false
      · exact Or.inr (Or.inl ⟨rfl, hfails⟩)
      · have hall : ∀ p ∈ f.openLeaves true, truth p = true :=
          fun p hp => Bool.of_not_eq_false fun h => hfails ⟨p, hp, h⟩
        have hfalse : f.holdsUnder truth = false :=
          holdsUnder_of_supposing hall (hverdict false hv)
        rw [htrue] at hfalse
        cases hfalse

/-- Places that were reviewed and are not cheap Roman ones. -/
def reviewed : Filter :=
  and [external "com.yelp" "review" [] (atom ⟨"stars", .atLeast, .number (.ofInt 4)⟩),
    not (and [atom ⟨"cuisine", .equal, .string "roman"⟩,
      atom ⟨"price", .inArray, .array [.enum "cheap"]⟩])]

theorem holdsForRow_possible_reviewed :
    (∀ name ∈ reviewed.fields, thaiGarden.has name = true) ∧
      (∀ a, atom a ∈ reviewed.slotClauses → a.op.family = .equality →
        ∀ b, testRow thaiGarden a = .ok b → (atom a).isOpen = b) ∧
      reviewed.holdsUnder isOpen = true ∧ reviewed.holdsForRow thaiGarden = .ok true := by
  have hfields : ∀ name ∈ reviewed.fields, thaiGarden.has name = true := by decide
  have hclauses : ∀ a, atom a ∈ reviewed.slotClauses →
      a = ⟨"cuisine", .equal, .string "roman"⟩ ∨
        a = ⟨"price", .inArray, .array [.enum "cheap"]⟩ := by
    simp [reviewed, slotClauses, slotClausesAll]
  have hequal : ∀ a, atom a ∈ reviewed.slotClauses → a.op.family = .equality →
      ∀ b, testRow thaiGarden a = .ok b → (atom a).isOpen = b := by
    intro a ha hop b hb
    rcases hclauses a ha with rfl | rfl
    · exact Except.ok.inj hb
    · cases hop
  have htrue : reviewed.holdsUnder isOpen = true := by rfl
  refine ⟨hfields, hequal, htrue, ?_⟩
  rcases (holdsForRow_possible hfields hequal).2 htrue with
    h | ⟨_, p, hp, hfails⟩ | ⟨a, e, ha, _, he, _⟩
  · exact h
  · -- The one open predicate under a negation is the price, which is supposed to be in the list.
    obtain rfl : p = atom ⟨"price", .inArray, .array [.enum "cheap"]⟩ := by
      simpa [reviewed, openLeaves, openLeavesAll, isOpen, Operator.family] using hp
    cases hfails
  · rcases hclauses a ha with rfl | rfl <;> cases he

/-- A place of three stars has no four, and the row is rejected, as is every row for places without a
review. -/
theorem possible_rejected :
    let row : Row := [("stars", .number (.ofInt 3))]
    let few := not (atom ⟨"stars", .atLeast, .number (.ofInt 4)⟩)
    let unreviewed := not (external "com.yelp" "review" [] always)
    (∀ name ∈ few.fields, ∃ v, row.get? name = some v ∧ v.isGround = true) ∧
      (∀ a, atom a ∈ few.slotClauses → a.op.family ≠ .equality) ∧
      few.holdsUnder (fun _ => false) = true ∧ few.holdsForRow row = .ok false ∧
      unreviewed.fields = [] ∧ unreviewed.holdsUnder (fun _ => false) = true ∧
      unreviewed.holdsForRow row = .ok false := by
  intro row few unreviewed
  refine ⟨?_, ?_, by rfl, by rfl, by decide, by rfl, by rfl⟩
  · intro name hname
    obtain rfl : name = "stars" := by simpa [few, fields, slotClauses, slotField?] using hname
    exact ⟨_, rfl, rfl⟩
  · intro a ha hop
    obtain rfl : a = ⟨"stars", .atLeast, .number (.ofInt 4)⟩ := by
      simpa [few, slotClauses] using ha
    cases hop

end Filter

end Colloquy
