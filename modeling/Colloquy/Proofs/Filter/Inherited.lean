import Colloquy.Filter.Refine
import Colloquy.Proofs.Filter.Normal

/-!
Properties that a filter inherits from its clauses: the fields that it mentions, the types that it
fits, the atoms that it may hold. Whatever simplifies, neutralizes and combines filters puts clauses
together that were there before, so it keeps every such property.
-/

namespace Colloquy.Filter

variable {P : Filter → Prop}

/-- A property of the constants that connectives hand up from all of their operands, and that
predicates over other queries keep when their filters are simplified. -/
structure IsInherited (P : Filter → Prop) : Prop where
  always : P .always
  never : P .never
  not_iff : ∀ f, P (.not f) ↔ P f
  join_iff : ∀ (k : Connective) (fs : List Filter), P (k.join fs) ↔ ∀ f ∈ fs, P f
  external : ∀ selector channel params f, (P f → P f.simplify) →
    P (.external selector channel params f) → P (.external selector channel params f.simplify)

theorem clauses_eq_operands (f : Filter) : f.clauses = Connective.operands .and f := by
  cases f <;> rfl

theorem neutralizeAll_eq_map (fs : List Filter) : neutralizeAll fs = fs.map neutralize := by
  induction fs with
  | nil => rfl
  | cons f rest ih => simp [neutralizeAll, ih]

theorem neutralize_join (k : Connective) (fs : List Filter) :
    (k.join fs).neutralize = k.join (fs.map neutralize) := by
  cases k <;> simp [Connective.join, neutralize, neutralizeAll_eq_map]

namespace IsInherited

variable (hP : IsInherited P)
include hP

theorem unit (k : Connective) : P k.unit := by
  cases k
  · exact hP.always
  · exact hP.never

theorem zero (k : Connective) : P k.zero := by
  cases k
  · exact hP.never
  · exact hP.always

theorem operands {k : Connective} {f : Filter} (h : P f) : ∀ g ∈ k.operands f, P g := by
  rcases k.operands_cases f with ⟨fs, rfl⟩ | hf
  · rw [Connective.operands_join]
    exact (hP.join_iff k fs).mp h
  · simpa [hf] using h

theorem combine {k : Connective} {fs : List Filter} (h : ∀ f ∈ fs, P f) : P (k.combine fs) := by
  rw [Connective.combine_eq_remains]
  cases hr : k.remains fs with
  | none => exact hP.zero k
  | some gs =>
    have hgs : ∀ g ∈ gs, P g := by
      intro g hg
      obtain ⟨f, hf, hgf, _⟩ := Connective.mem_operands_of_remains hr g hg
      exact hP.operands (h f hf) g hgf
    rw [Option.map_some, Option.getD_some]
    rcases k.ofOperands_cases gs with ⟨_, hu⟩ | ⟨g, rfl, hg⟩ | ⟨_, hj⟩
    · rw [hu]
      exact hP.unit k
    · rw [hg]
      exact hgs g List.mem_cons_self
    · rw [hj]
      exact (hP.join_iff k gs).mpr hgs

theorem negate {f : Filter} (h : P f) : P f.negate := by
  cases f with
  | always => exact hP.never
  | never => exact hP.always
  | not f => exact (hP.not_iff f).mp h
  | _ => exact (hP.not_iff _).mpr h

theorem simplify {f : Filter} (h : P f) : P f.simplify := by
  induction f using connectiveInduction with
  | not f ih => exact hP.negate (ih ((hP.not_iff f).mp h))
  | join k fs ih =>
    rw [simplify_join]
    apply hP.combine
    intro g hg
    obtain ⟨f, hf, rfl⟩ := List.mem_map.mp hg
    exact ih f hf ((hP.join_iff k fs).mp h f hf)
  | external s c ps f ih => exact hP.external s c ps f ih h
  | _ => exact h

theorem neutralize {f : Filter} (h : P f) : P f.neutralize := by
  induction f using connectiveInduction with
  | not f ih => exact (hP.not_iff _).mpr (ih ((hP.not_iff f).mp h))
  | join k fs ih =>
    rw [neutralize_join, hP.join_iff]
    intro g hg
    obtain ⟨f, hf, rfl⟩ := List.mem_map.mp hg
    exact ih f hf ((hP.join_iff k fs).mp h f hf)
  | atom a =>
    rw [Filter.neutralize]
    split
    · exact hP.always
    · exact h
  | _ => exact h

theorem clauses {f : Filter} (h : P f) : ∀ c ∈ f.clauses, P c := by
  rw [clauses_eq_operands]
  exact hP.operands h

theorem simplify_and {fs : List Filter} (h : ∀ f ∈ fs, P f) : P (Filter.and fs).simplify :=
  hP.simplify ((hP.join_iff .and fs).mpr h)

end IsInherited

theorem slotClausesAll_eq_flatMap (fs : List Filter) :
    slotClausesAll fs = fs.flatMap slotClauses := by
  induction fs with
  | nil => rfl
  | cons f rest ih => simp [slotClausesAll, ih]

theorem slotClauses_join (k : Connective) (fs : List Filter) :
    (k.join fs).slotClauses = fs.flatMap slotClauses := by
  cases k <;> simp [Connective.join, slotClauses, slotClausesAll_eq_flatMap]

theorem isInherited_slotClauses (Q : Filter → Prop) :
    IsInherited fun f => ∀ c ∈ f.slotClauses, Q c where
  always := by simp [slotClauses]
  never := by simp [slotClauses]
  not_iff f := by rw [slotClauses]
  join_iff k fs := by
    simp only [slotClauses_join, List.mem_flatMap]
    constructor
    · intro h f hf c hc
      exact h c ⟨f, hf, hc⟩
    · rintro h c ⟨f, hf, hc⟩
      exact h f hf c hc
  external := by simp [slotClauses]

theorem IsInherited.of_mem_slotClauses (hP : IsInherited P) {f c : Filter} (h : P f)
    (hc : c ∈ f.slotClauses) : P c := by
  induction f using connectiveInduction with
  | dontCare field => exact List.mem_singleton.mp hc ▸ h
  | atom a => exact List.mem_singleton.mp hc ▸ h
  | not f ih => exact ih ((hP.not_iff f).mp h) hc
  | join k fs ih =>
    rw [slotClauses_join] at hc
    obtain ⟨f, hf, hcf⟩ := List.mem_flatMap.mp hc
    exact ih f hf ((hP.join_iff k fs).mp h f hf) hcf
  | _ => exact absurd hc List.not_mem_nil

theorem isInherited_hasNaN : IsInherited fun f => f.hasNaN = false where
  always := rfl
  never := rfl
  not_iff f := by rw [hasNaN]
  join_iff k fs := by simp [hasNaN_join, List.any_eq_false]
  external s c ps f hf h := by
    obtain ⟨hps, hn⟩ := Bool.or_eq_false_iff.mp h
    exact Bool.or_eq_false_iff.mpr ⟨hps, hf hn⟩

theorem mem_fields_iff {f : Filter} {name : String} :
    name ∈ f.fields ↔ ∃ c ∈ f.slotClauses, c.slotField? = some name := by
  rw [fields, List.mem_eraseDups, List.mem_filterMap]

@[simp] theorem fields_atom (a : Atom) : (atom a).fields = [a.field] :=
  rfl

theorem mentions_iff {f : Filter} {name : String} : f.mentions name = true ↔ name ∈ f.fields := by
  rw [mentions, List.contains_iff_mem]

theorem isInherited_fields (Q : String → Prop) : IsInherited fun f => ∀ name ∈ f.fields, Q name := by
  have h := isInherited_slotClauses fun c => ∀ name, c.slotField? = some name → Q name
  have hiff : ∀ f : Filter, (∀ name ∈ f.fields, Q name) ↔
      ∀ c ∈ f.slotClauses, ∀ name, c.slotField? = some name → Q name := by
    intro f
    constructor
    · intro hf c hc name hn
      exact hf name (mem_fields_iff.mpr ⟨c, hc, hn⟩)
    · intro hf name hn
      obtain ⟨c, hc, hcn⟩ := mem_fields_iff.mp hn
      exact hf c hc name hcn
  simpa only [hiff] using h

theorem fields_simplify_subset (f : Filter) : f.simplify.fields ⊆ f.fields :=
  fun _ hn => (isInherited_fields (· ∈ f.fields)).simplify (fun _ h => h) _ hn

theorem fields_subset_of_mem_clauses {f c : Filter} (h : c ∈ f.clauses) : c.fields ⊆ f.fields :=
  fun _ hn => (isInherited_fields (· ∈ f.fields)).clauses (fun _ h => h) c h _ hn

theorem mem_fields_join {k : Connective} {fs : List Filter} {name : String} :
    name ∈ (k.join fs).fields ↔ ∃ f ∈ fs, name ∈ f.fields := by
  simp only [mem_fields_iff, slotClauses_join, List.mem_flatMap]
  constructor
  · rintro ⟨c, ⟨f, hf, hc⟩, hn⟩
    exact ⟨f, hf, c, hc, hn⟩
  · rintro ⟨f, hf, c, hc, hn⟩
    exact ⟨c, ⟨f, hf, hc⟩, hn⟩

theorem mem_fields_and {fs : List Filter} {name : String} :
    name ∈ (Filter.and fs).fields ↔ ∃ f ∈ fs, name ∈ f.fields :=
  mem_fields_join (k := .and)

theorem mem_fields_iff_clauses {f : Filter} {name : String} :
    name ∈ f.fields ↔ ∃ c ∈ f.clauses, name ∈ c.fields := by
  cases f with
  | and fs => exact mem_fields_and
  | _ => simp [clauses]

end Colloquy.Filter
