import Colloquy.Proofs.Filter.Atoms
import Colloquy.Proofs.Filter.Refinement

namespace Colloquy

namespace Connective

variable {ε : Type} {test other : Atom → Except ε Bool} {k : Connective}

theorem settle_eq_neutral_iff {fs : List Filter} :
    k.settle test fs = .ok k.neutral ↔ ∀ f ∈ fs, f.verdict test = .ok k.neutral := by
  induction fs with
  | nil => simp [settle]
  | cons f rest ih => simp [settle, next_eq_ok_iff, ih]

theorem exists_of_settle {fs : List Filter} (h : k.settle test fs = .ok (!k.neutral)) :
    ∃ f ∈ fs, f.verdict test = .ok (!k.neutral) := by
  induction fs with
  | nil => simp [settle] at h
  | cons f rest ih =>
    rcases next_eq_ok_iff.mp h with ⟨_, hrest⟩ | ⟨hf, _⟩
    · obtain ⟨g, hg, hv⟩ := ih hrest
      exact ⟨g, List.mem_cons_of_mem _ hg, hv⟩
    · exact ⟨f, List.mem_cons_self, hf⟩

theorem settle_of_imp {fs : List Filter} {b : Bool}
    (h : ∀ f ∈ fs, ∀ b, f.verdict test = .ok b → f.verdict other = .ok b)
    (hs : k.settle test fs = .ok b) : k.settle other fs = .ok b := by
  induction fs with
  | nil => exact hs
  | cons f rest ih =>
    have hrest := ih fun g hg => h g (List.mem_cons_of_mem _ hg)
    rw [settle, next_eq_ok_iff] at hs ⊢
    rcases hs with ⟨hf, hr⟩ | ⟨hf, hb⟩
    · exact Or.inl ⟨h f List.mem_cons_self _ hf, hrest hr⟩
    · exact Or.inr ⟨h f List.mem_cons_self _ hf, hb⟩

end Connective

namespace Filter

section Verdict

variable {ε : Type} {test other : Atom → Except ε Bool}

theorem map_not_eq_ok_iff {v : Except ε Bool} {b : Bool} : v.map (!·) = .ok b ↔ v = .ok (!b) := by
  cases v with
  | error e => simp [Except.map]
  | ok c => simp [Except.map, Bool.not_eq_eq_eq_not]

theorem verdict_of_imp (h : ∀ a b, test a = .ok b → other a = .ok b) {f : Filter} {b : Bool}
    (hf : f.verdict test = .ok b) : f.verdict other = .ok b := by
  induction f using connectiveInduction generalizing b with
  | atom a => exact h a b hf
  | not f ih =>
    rw [verdict, map_not_eq_ok_iff] at hf ⊢
    exact ih hf
  | join k fs ih =>
    rw [verdict_join] at hf ⊢
    exact Connective.settle_of_imp (fun f hf b => ih f hf) hf
  | _ => exact hf

/-- The test that takes atoms without a verdict for unfulfilled. -/
def decided (test : Atom → Except ε Bool) (a : Atom) : Except ε Bool :=
  .ok ((test a).toOption.getD false)

theorem decided_eq_ok {a : Atom} {b : Bool} (h : test a = .ok b) : decided test a = .ok b := by
  rw [decided, h]
  rfl

mutual

/-- The atoms outside other queries that pin the identifier under an even number of negations or,
where `odd`, under an odd one. -/
def identityAtoms (odd : Bool) : Filter → List Atom
  | atom a => if a.isIdentity && !odd then [a] else []
  | not f => identityAtoms (!odd) f
  | and fs => identityAtomsAll odd fs
  | or fs => identityAtomsAll odd fs
  | _ => []

def identityAtomsAll (odd : Bool) : List Filter → List Atom
  | [] => []
  | f :: rest => identityAtoms odd f ++ identityAtomsAll odd rest

end

theorem identityAtomsAll_eq_flatMap (odd : Bool) (fs : List Filter) :
    identityAtomsAll odd fs = fs.flatMap (identityAtoms odd) := by
  induction fs with
  | nil => rfl
  | cons f rest ih => simp [identityAtomsAll, ih]

theorem identityAtoms_join (odd : Bool) (k : Connective) (fs : List Filter) :
    (k.join fs).identityAtoms odd = fs.flatMap (identityAtoms odd) := by
  cases k <;> simp [Connective.join, identityAtoms, identityAtomsAll_eq_flatMap]

/-- A verdict stays when the identifier is let go, if the atoms that could turn it are fulfilled. -/
theorem verdict_neutralize {f : Filter} {b c : Bool}
    (hatoms : ∀ a ∈ f.identityAtoms b, test a = .ok true) (hf : f.verdict test = .ok b)
    (hc : f.neutralize.verdict test = .ok c) : c = b := by
  induction f using connectiveInduction generalizing b c with
  | atom a =>
    rw [neutralize] at hc
    split at hc
    next hid =>
      cases hc
      cases b with
      | true => rfl
      | false =>
        have ha : test a = .ok true := hatoms a (by simp [identityAtoms, hid])
        exact absurd (ha.symm.trans hf) (by simp)
    next => exact Except.ok.inj (hc.symm.trans hf)
  | not f ih =>
    rw [verdict, map_not_eq_ok_iff] at hf
    rw [neutralize, verdict, map_not_eq_ok_iff] at hc
    exact Bool.not_inj (ih hatoms hf hc)
  | join k fs ih =>
    rw [identityAtoms_join] at hatoms
    rw [neutralize_join, verdict_join] at hc
    rw [verdict_join] at hf
    have hop : ∀ f ∈ fs, f.verdict test = .ok b → f.neutralize.verdict test = .ok (!b) → False := by
      intro f hmem hv hn
      have hb := ih f hmem (fun a ha => hatoms a (List.mem_flatMap.mpr ⟨f, hmem, ha⟩)) hv hn
      simp at hb
    by_cases hne : c = b
    · exact hne
    obtain rfl : c = !b := Bool.eq_not_of_ne hne
    exfalso
    by_cases hb : b = k.neutral
    · subst hb
      obtain ⟨g, hg, hn⟩ := Connective.exists_of_settle hc
      obtain ⟨f, hmem, rfl⟩ := List.mem_map.mp hg
      exact hop f hmem (Connective.settle_eq_neutral_iff.mp hf f hmem) hn
    · obtain rfl : b = !k.neutral := Bool.eq_not_of_ne hb
      obtain ⟨f, hmem, hv⟩ := Connective.exists_of_settle hf
      rw [Bool.not_not] at hc hop
      exact hop f hmem hv (Connective.settle_eq_neutral_iff.mp hc _ (List.mem_map_of_mem hmem))
  | _ => exact Except.ok.inj (hc.symm.trans hf)

theorem verdict_simplify_and (htest : ∀ a : Atom, test a.bare = test a) {f g : Filter}
    (hf : f.verdict test = .ok true) (hg : g.verdict test = .ok true) :
    (Filter.and [f, g]).simplify.verdict test = .ok true := by
  have hand : (Filter.and [f, g]).verdict test = .ok true := by
    simp [verdict, verdictAll, hf, hg]
  exact verdict_simplify htest hand

end Verdict

/-- Answers are accepted where no field is asked for twice. A row that fulfils both filters, and
shows none of the results that the old one excludes, is not ruled out by the answer, and it fulfils
the answer if the old filter still has a verdict without the identifier. -/
theorem answer_monotone {old new : Filter} (hapart : Apart old new) :
    ∃ refined, old.answer new = some refined ∧ ∀ row : Row,
      old.holdsForRow row = .ok true → new.holdsForRow row = .ok true →
        (∀ a ∈ old.identityAtoms true, testRow row a = .ok true) →
          refined.holdsForRow row ≠ .ok false ∧
            ((∃ b, old.neutralize.holdsForRow row = .ok b) → refined.holdsForRow row = .ok true) := by
  have hanswer : old.answer new = some (Filter.and [old.neutralize, new]).simplify :=
    answer_eq_some_iff.mpr ⟨hapart, simplify_and_pair _ _⟩
  refine ⟨_, hanswer, ?_⟩
  intro row hold hnew hatoms
  have hbare := testRow_bare row
  constructor
  · intro hfalse
    -- Atoms without a verdict had none to give to `old` and `new`, so they may count as unfulfilled.
    have himp : ∀ a b, testRow row a = .ok b → decided (testRow row) a = .ok b :=
      fun a b => decided_eq_ok
    have hbare' : ∀ a : Atom, decided (testRow row) a.bare = decided (testRow row) a := by
      intro a
      rw [decided, hbare, decided]
    obtain ⟨c, hc⟩ := verdict_ok (fun a => ⟨_, rfl⟩ : ∀ a, ∃ b, decided (testRow row) a = .ok b)
      old.neutralize
    obtain rfl : c = true :=
      verdict_neutralize (fun a ha => himp a true (hatoms a ha)) (verdict_of_imp himp hold) hc
    have htrue := verdict_simplify_and hbare' hc (verdict_of_imp himp hnew)
    exact absurd (htrue.symm.trans (verdict_of_imp himp hfalse)) (by simp)
  · rintro ⟨b, hb⟩
    obtain rfl : b = true := verdict_neutralize hatoms hold hb
    exact verdict_simplify_and hbare hb hnew

/-- A search after a choice that excludes its own result outside one area. -/
def revisited : Filter :=
  and [visited, or [not (atom ⟨"id", .equal, .entity "r1" "shop" .null⟩),
    atom ⟨"area", .equal, .string "soma"⟩]]

def thaiGarden : Row :=
  [("id", .entity "r1" "shop" (.text "Thai Garden")), ("cuisine", .string "thai"),
    ("area", .string "soma"), ("price", .enum "cheap")]

theorem answer_monotone_revisited :
    Apart revisited affordable ∧ revisited.holdsForRow thaiGarden = .ok true ∧
      affordable.holdsForRow thaiGarden = .ok true ∧
      (∀ a ∈ revisited.identityAtoms true, testRow thaiGarden a = .ok true) ∧
      ∃ refined, revisited.answer affordable = some refined ∧
        refined.holdsForRow thaiGarden = .ok true := by
  have hapart : Apart revisited affordable := by decide
  have hold : revisited.holdsForRow thaiGarden = .ok true := by rfl
  have hnew : affordable.holdsForRow thaiGarden = .ok true := by rfl
  have hneutral : revisited.neutralize.holdsForRow thaiGarden = .ok true := by rfl
  have hatoms : ∀ a ∈ revisited.identityAtoms true, testRow thaiGarden a = .ok true := by
    intro a ha
    obtain rfl : a = ⟨"id", .equal, .entity "r1" "shop" .null⟩ := by
      simpa [revisited, visited, identityAtoms, identityAtomsAll, Atom.isIdentity] using ha
    rfl
  obtain ⟨refined, hanswer, hrow⟩ := answer_monotone hapart
  exact ⟨hapart, hold, hnew, hatoms, refined, hanswer,
    (hrow thaiGarden hold hnew hatoms).2 ⟨true, hneutral⟩⟩

/-- Any place but the one of the choice. -/
def excluding : Filter :=
  not (atom ⟨"id", .equal, .entity "r2" "shop" .null⟩)

/-- A choice with an atom that is looked at for the chosen place alone. -/
def conditional : Filter :=
  or [and [atom ⟨"id", .equal, .entity "r2" "shop" .null⟩, atom ⟨"cuisine", .equal, .varRef "x"⟩],
    atom ⟨"cuisine", .equal, .string "thai"⟩]

/-- An exclusion that is let go rules out every row, and an atom that was not reached before can be
one without a verdict. -/
theorem answer_not_monotone :
    ¬ (∀ old new : Filter, Apart old new → ∃ refined, old.answer new = some refined ∧
        ∀ row : Row, old.holdsForRow row = .ok true → new.holdsForRow row = .ok true →
          refined.holdsForRow row = .ok true) ∧
      (Apart excluding affordable ∧ excluding.holdsForRow thaiGarden = .ok true ∧
        affordable.holdsForRow thaiGarden = .ok true ∧
        ∃ refined, excluding.answer affordable = some refined ∧
          refined.holdsForRow thaiGarden = .ok false) ∧
      (Apart conditional affordable ∧ conditional.holdsForRow thaiGarden = .ok true ∧
        ∃ refined, conditional.answer affordable = some refined ∧
          refined.holdsForRow thaiGarden = .error (.unbound "x")) := by
  have hnew : affordable.holdsForRow thaiGarden = .ok true := by rfl
  have hold : excluding.holdsForRow thaiGarden = .ok true := by rfl
  have hrefined : excluding.answer affordable = some never := by rfl
  have hapart : Apart excluding affordable := by decide
  have hother : conditional.holdsForRow thaiGarden = .ok true := by rfl
  have hreached : ∃ refined, conditional.answer affordable = some refined ∧
      refined.holdsForRow thaiGarden = .error (.unbound "x") := ⟨_, rfl, by rfl⟩
  refine ⟨?_, ⟨hapart, hold, hnew, never, hrefined, rfl⟩, by decide, hother, hreached⟩
  intro h
  obtain ⟨refined, hanswer, hrow⟩ := h excluding affordable hapart
  obtain rfl : never = refined := Option.some.inj (hrefined.symm.trans hanswer)
  cases hrow thaiGarden hold hnew

end Filter

end Colloquy
