import Colloquy.Proofs.Filter.Clauses
import Colloquy.Proofs.Filter.Pinned
import Colloquy.Proofs.Filter.Verdict

namespace Colloquy

theorem Connective.exists_remains {k : Connective} {f : Filter} (h : f.IsNormal) (hzero : f ≠ k.zero) :
    ∃ fs, k.remains [f] = some fs := by
  rcases k.cases_of_filter f with rfl | rfl | ⟨fs, rfl⟩ | hoperand
  · exact ⟨_, remains_unit⟩
  · exact absurd rfl hzero
  · exact ⟨_, (isNormal_join_iff.mp h).2.1.remains_join⟩
  · exact ⟨_, hoperand.remains_singleton⟩

namespace Filter

variable {old : Filter} {field : String}

theorem eq_dontCare_of_same {f : Filter} (h : f.same (dontCare field) = true) :
    f = dontCare field := by
  cases f with
  | dontCare name => rw [eq_of_beq h]
  | _ => cases h

theorem isReduced_dontCare (field : String) :
    Connective.IsReduced .and (Connective.operands .and (dontCare field)) :=
  (Connective.isReduced_operands (.dontCare field) nofun nofun).1

/-- The don't-care stands behind what remains of the filter, or it is there already. -/
theorem dontCare_mem_clauses_conjoin (h : old.simplify ≠ never) :
    dontCare field ∈ (old.conjoin (dontCare field)).clauses := by
  obtain ⟨kept, hkept⟩ := Connective.exists_remains (k := .and) old.isNormal_simplify h
  have hnormal : ∀ f ∈ [old.simplify], f.IsNormal := by simpa using old.isNormal_simplify
  have hreduced := (Connective.isReduced_of_remains hnormal hkept).1
  have hclauses : (old.conjoin (dontCare field)).clauses =
      kept ++ [dontCare field].filter (!covers kept ·) := by
    rw [conjoin, simplify_and_pair, clauses_eq_operands]
    exact Connective.operands_combine_concat hkept hreduced (isReduced_dontCare field)
      (List.cons_ne_nil _ _)
  rw [hclauses, List.mem_append]
  by_cases hcovered : covers kept (dontCare field) = true
  · obtain ⟨d, hd, hsame⟩ := covers_iff.mp hcovered
    exact Or.inl (eq_dontCare_of_same hsame ▸ hd)
  · exact Or.inr (List.mem_filter.mpr ⟨List.mem_cons_self, by simpa using hcovered⟩)

theorem mentions_conjoin_dontCare (h : old.simplify ≠ never) :
    (old.conjoin (dontCare field)).mentions field = true := by
  rw [mentions_iff, mem_fields_iff_clauses]
  exact ⟨_, dontCare_mem_clauses_conjoin h, mem_fields_of_slotField? rfl⟩

theorem holdsForRow_conjoin_dontCare {row : Row} {b : Bool} (h : old.holdsForRow row = .ok b) :
    (old.conjoin (dontCare field)).holdsForRow row = .ok b := by
  refine verdict_simplify (testRow_bare row) ?_
  have hold : old.verdict (testRow row) = .ok b := h
  cases b <;> simp [verdict, verdictAll, hold]

theorem isContradictory_conjoin_dontCare (h : old.isContradictory = false) :
    (old.conjoin (dontCare field)).isContradictory = false := by
  have hpinned : ([old].flatMap pinned).Pairwise Agrees := by
    rw [List.flatMap_singleton]
    exact isContradictory_eq_false_iff.mp h
  rw [conjoin, isContradictory_simplify]
  exact isContradictory_and hpinned rfl fun _ _ _ hpin => absurd hpin List.not_mem_nil

end Filter

end Colloquy
