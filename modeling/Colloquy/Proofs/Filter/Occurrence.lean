import Colloquy.Proofs.Filter.Clauses
import Mathlib.Data.List.Basic

namespace Colloquy

namespace Filter

variable {P : Filter → Prop}

/-- A property that a filter has as soon as one of its operands has it, that equal filters share, and
that predicates over other queries keep when their filters are simplified. -/
structure IsOccurrence (P : Filter → Prop) : Prop where
  not_iff : ∀ f, P (.not f) ↔ P f
  join_iff : ∀ (k : Connective) (fs : List Filter), P (k.join fs) ↔ ∃ f ∈ fs, P f
  external : ∀ selector channel params f, P (.external selector channel params f) →
    P (.external selector channel params f.simplify)
  of_same : ∀ f g, f.same g = true → P g → P f

theorem slotClauses_bare (f : Filter) : f.bare.slotClauses = f.slotClauses.map bare := by
  induction f using connectiveInduction with
  | not f ih => exact ih
  | join k fs ih =>
    rw [bare_join, slotClauses_join, slotClauses_join, List.flatMap_map, List.map_flatMap]
    exact List.flatMap_congr ih
  | _ => rfl

theorem fields_bare (f : Filter) : f.bare.fields = f.fields := by
  have hfield : slotField? ∘ bare = slotField? := funext slotField?_bare
  rw [fields, fields, slotClauses_bare, List.filterMap_map, hfield]

theorem fields_eq_of_same {f g : Filter} (h : f.same g = true) : f.fields = g.fields := by
  rw [← fields_bare f, (same_iff.mp h).1, fields_bare]

theorem isOccurrence_fields (name : String) : IsOccurrence fun f => name ∈ f.fields where
  not_iff f := by rw [fields, slotClauses, fields]
  join_iff _ _ := mem_fields_join
  external _ _ _ _ h := h
  of_same _ _ hs h := fields_eq_of_same hs ▸ h

theorem isOccurrence_hasExternal : IsOccurrence fun f => f.hasExternal = true where
  not_iff f := by rw [hasExternal]
  join_iff k fs := by rw [hasExternal_join, List.any_eq_true]
  external _ _ _ _ _ := rfl
  of_same _ _ hs h := (hasExternal_eq_of_same hs).trans h

/-- Filters in which no constant occurs outside other queries, and no connective without operands,
which is as good as one. -/
inductive IsConstantFree : Filter → Prop
  | dontCare (field : String) : IsConstantFree (dontCare field)
  | atom (a : Atom) : IsConstantFree (atom a)
  | not {f : Filter} (hf : IsConstantFree f) : IsConstantFree (not f)
  | join (k : Connective) {fs : List Filter} (hne : fs ≠ []) (hfs : ∀ f ∈ fs, IsConstantFree f) :
    IsConstantFree (k.join fs)
  | external (selector channel : String) (params : List Param) (f : Filter) :
    IsConstantFree (external selector channel params f)
  | compute (lhs : Value) (op : String) (rhs : Value) : IsConstantFree (compute lhs op rhs)

end Filter

namespace Connective

variable {k : Connective} {fs : List Filter}

theorem ne_constant_of_operands {f : Filter} (h : ∀ g ∈ k.operands f, k.IsOperand g) :
    f ≠ .always ∧ f ≠ .never := by
  constructor
  · rintro rfl
    have hself : .always ∈ k.operands .always := by cases k <;> exact List.mem_cons_self
    exact (h .always hself).ne_always rfl
  · rintro rfl
    have hself : .never ∈ k.operands .never := by cases k <;> exact List.mem_cons_self
    exact (h .never hself).ne_never rfl

theorem operands_combine (h : ∀ g ∈ fs.flatMap k.operands, k.IsOperand g)
    (hne : fs.flatMap k.operands ≠ []) :
    k.operands (k.combine fs) = Filter.distinct (fs.flatMap k.operands) := by
  have hkept : ∀ g ∈ Filter.distinct (fs.flatMap k.operands), k.IsOperand g :=
    fun g hg => h g ((Filter.distinct_sublist _).subset hg)
  have hsome : Filter.distinct (fs.flatMap k.operands) ≠ [] := by
    obtain ⟨g, hg⟩ := List.exists_mem_of_ne_nil _ hne
    obtain ⟨e, he, _⟩ := Filter.exists_mem_distinct hg
    exact List.ne_nil_of_mem he
  rw [combine_eq_remains, remains_eq_distinct h]
  exact operands_ofOperands hkept hsome

theorem isOperand_of_contingent (hfs : ∀ f ∈ fs, f.IsContingent) :
    ∀ g ∈ (fs.map Filter.simplify).flatMap k.operands, k.IsOperand g := by
  intro g hg
  rw [List.flatMap_map] at hg
  obtain ⟨f, hf, hgf⟩ := List.mem_flatMap.mp hg
  exact ((hfs f hf).isReduced_operands k).1.operand g hgf

/-- Operands that do not come out as constants come together, and only duplicates are dropped. -/
theorem operands_simplify_join (hne : fs ≠ []) (hfs : ∀ f ∈ fs, f.IsContingent) :
    k.operands (k.join fs).simplify =
      Filter.distinct ((fs.map Filter.simplify).flatMap k.operands) := by
  have hsome : (fs.map Filter.simplify).flatMap k.operands ≠ [] := by
    obtain ⟨f, hf⟩ := List.exists_mem_of_ne_nil fs hne
    obtain ⟨g, hg⟩ := List.exists_mem_of_ne_nil _ ((hfs f hf).isReduced_operands k).2
    exact List.ne_nil_of_mem (List.mem_flatMap.mpr ⟨f.simplify, List.mem_map_of_mem hf, hg⟩)
  rw [Filter.simplify_join]
  exact operands_combine (isOperand_of_contingent hfs) hsome

end Connective

namespace Filter

theorem IsContingent.not {f : Filter} (h : f.IsContingent) : (Filter.not f).IsContingent := by
  have hnegated := negate_negate f.isNormal_simplify
  constructor
  · intro halways
    rw [simplify] at halways
    rw [halways] at hnegated
    exact h.2 hnegated.symm
  · intro hnever
    rw [simplify] at hnever
    rw [hnever] at hnegated
    exact h.1 hnegated.symm

theorem IsContingent.join {k : Connective} {fs : List Filter} (hne : fs ≠ [])
    (hfs : ∀ f ∈ fs, f.IsContingent) : (k.join fs).IsContingent := by
  refine Connective.ne_constant_of_operands (k := k) fun g hg => ?_
  rw [Connective.operands_simplify_join hne hfs] at hg
  exact Connective.isOperand_of_contingent hfs g ((distinct_sublist _).subset hg)

/-- Simplifying makes no constant of a filter without constants. -/
theorem IsConstantFree.isContingent {f : Filter} (h : f.IsConstantFree) : f.IsContingent := by
  induction h with
  | not _ ih => exact ih.not
  | join k hne _ ih => exact .join hne ih
  | _ => exact ⟨nofun, nofun⟩

namespace IsOccurrence

variable (hP : IsOccurrence P)
include hP

theorem iff_operands {k : Connective} {f : Filter} : P f ↔ ∃ g ∈ k.operands f, P g := by
  rcases k.operands_cases f with ⟨fs, rfl⟩ | hf
  · rw [Connective.operands_join]
    exact hP.join_iff k fs
  · simp [hf]

theorem negate {f : Filter} (halways : f ≠ .always) (hnever : f ≠ .never) (h : P f) :
    P f.negate := by
  cases f with
  | always => exact absurd rfl halways
  | never => exact absurd rfl hnever
  | not f => exact (hP.not_iff f).mp h
  | _ => exact (hP.not_iff _).mpr h

theorem distinct {fs : List Filter} (h : ∃ f ∈ fs, P f) : ∃ f ∈ Filter.distinct fs, P f := by
  obtain ⟨d, hd, hPd⟩ := h
  obtain ⟨e, he, rfl | hs⟩ := exists_mem_distinct hd
  · exact ⟨e, he, hPd⟩
  · exact ⟨e, he, hP.of_same e d hs hPd⟩

/-- What occurs in a filter without constants still occurs when it is simplified. -/
theorem simplify {f : Filter} (hfree : f.IsConstantFree) (h : P f) : P f.simplify := by
  induction hfree with
  | not hf ih =>
    obtain ⟨halways, hnever⟩ := hf.isContingent
    exact hP.negate halways hnever (ih ((hP.not_iff _).mp h))
  | @join k fs hne hfs ih =>
    have hoperands := Connective.operands_simplify_join (k := k) hne
      fun f hf => (hfs f hf).isContingent
    obtain ⟨f, hf, hPf⟩ := (hP.join_iff k fs).mp h
    obtain ⟨g, hg, hPg⟩ := (hP.iff_operands (k := k)).mp (ih f hf hPf)
    have hmem : g ∈ (fs.map Filter.simplify).flatMap k.operands :=
      List.mem_flatMap.mpr ⟨f.simplify, List.mem_map_of_mem hf, hg⟩
    rw [hP.iff_operands (k := k), hoperands]
    exact hP.distinct ⟨g, hmem, hPg⟩
  | external s c ps f => exact hP.external s c ps f h
  | _ => exact h

end IsOccurrence

/-- Simplifying a filter brings in no field and no predicate over another query, and where no constant
occurs it loses none either. -/
theorem simplify_keeps_occurrences (f : Filter) :
    f.simplify.fields ⊆ f.fields ∧
      (f.simplify.hasExternal = true → f.hasExternal = true) ∧
      (f.IsConstantFree → (∀ name, name ∈ f.simplify.fields ↔ name ∈ f.fields) ∧
        f.simplify.hasExternal = f.hasExternal) := by
  have hexternal : f.simplify.hasExternal = true → f.hasExternal = true := by
    intro h
    cases hnone : f.hasExternal with
    | true => rfl
    | false => exact absurd h (by simp [isInherited_hasExternal.simplify hnone])
  refine ⟨fields_simplify_subset f, hexternal, fun hfree => ⟨fun name => ?_, ?_⟩⟩
  · exact ⟨fun h => fields_simplify_subset f h, (isOccurrence_fields name).simplify hfree⟩
  · exact Bool.eq_iff_iff.mpr ⟨hexternal, isOccurrence_hasExternal.simplify hfree⟩

/-- Groups, a double negation and repeated operands go, and the field, the offers and the visits that
they hold stay. -/
theorem simplify_keeps_occurrences_offers :
    let f := and [or [offers, not (not (or [offers, dontCare "area"]))], and [visits], visits]
    f.IsConstantFree ∧
      f.simplify = and [or [atom ⟨"price", .equal, .enum "cheap"⟩, not (dontCare "menu"),
        dontCare "area"], visits] ∧
      (∀ name, name ∈ f.simplify.fields ↔ name ∈ f.fields) ∧
      f.simplify.hasExternal = f.hasExternal := by
  intro f
  have hoffers : offers.IsConstantFree :=
    .join .or (by simp) (by simpa using ⟨.atom _, .not (.dontCare "menu")⟩)
  have hvisits : visits.IsConstantFree := .external _ _ _ _
  have hnegated : (not (not (or [offers, dontCare "area"]))).IsConstantFree :=
    .not (.not (.join .or (by simp) (by simpa using ⟨hoffers, .dontCare "area"⟩)))
  have hgroup : (and [visits]).IsConstantFree := .join .and (by simp) (by simpa using hvisits)
  have hplaces : (or [offers, not (not (or [offers, dontCare "area"]))]).IsConstantFree :=
    .join .or (by simp) (by simpa using ⟨hoffers, hnegated⟩)
  have hfree : f.IsConstantFree :=
    .join .and (by simp) (by simpa using ⟨hplaces, hgroup, hvisits⟩)
  obtain ⟨_, _, hkept⟩ := simplify_keeps_occurrences f
  exact ⟨hfree, by rfl, hkept hfree⟩

/-- A connective without operands takes fields away, as the constant does that it comes down to. -/
example : (and [dontCare "area", or []]).simplify.fields = [] ∧
    (and [dontCare "area", or []]).fields = ["area"] := by
  decide

end Filter

end Colloquy
