import Colloquy.Proofs.Filter.Equality

/-!
The normal form that simplifying computes. Simplified operands of one connective settle the whole,
or they leave a list of operands, and this is all that the connective makes of them. So it does not
matter how operands are grouped, and a filter in normal form stays as it is.
-/

namespace Colloquy

namespace Filter

def covers (fs : List Filter) (g : Filter) : Bool :=
  fs.any (·.same g)

theorem covers_iff {fs : List Filter} {g : Filter} :
    covers fs g = true ↔ ∃ f ∈ fs, f.same g = true :=
  List.any_eq_true

theorem distinct_sublist (fs : List Filter) : (distinct fs).Sublist fs := by
  induction fs with
  | nil => exact List.Sublist.slnil
  | cons f rest ih => exact (List.filter_sublist.trans ih).cons_cons f

theorem pairwise_distinct (fs : List Filter) :
    (distinct fs).Pairwise fun f g => f.same g = false := by
  induction fs with
  | nil => exact List.Pairwise.nil
  | cons f rest ih =>
    refine List.pairwise_cons.mpr ⟨?_, ih.sublist List.filter_sublist⟩
    intro g hg
    simpa using (List.mem_filter.mp hg).2

theorem distinct_eq_self {fs : List Filter} (h : fs.Pairwise fun f g => f.same g = false) :
    distinct fs = fs := by
  induction fs with
  | nil => rfl
  | cons f rest ih =>
    obtain ⟨hf, hrest⟩ := List.pairwise_cons.mp h
    rw [distinct, ih hrest, List.filter_eq_self.mpr]
    intro g hg
    simp [hf g hg]

theorem exists_mem_distinct {fs : List Filter} {d : Filter} (hd : d ∈ fs) :
    ∃ e ∈ distinct fs, e = d ∨ e.same d = true := by
  induction fs with
  | nil => cases hd
  | cons f rest ih =>
    by_cases hf : f.same d = true
    · exact ⟨f, List.mem_cons_self, Or.inr hf⟩
    rcases List.mem_cons.mp hd with rfl | hd
    · exact ⟨d, List.mem_cons_self, Or.inl rfl⟩
    · obtain ⟨e, he, heq⟩ := ih hd
      have hfe : f.same e = false := by
        rw [Bool.eq_false_iff]
        intro hfe
        rcases heq with rfl | hs
        · exact hf hfe
        · exact hf (same_trans hfe hs)
      exact ⟨e, List.mem_cons_of_mem _ (List.mem_filter.mpr ⟨he, by simp [hfe]⟩), heq⟩

theorem covers_distinct (fs : List Filter) (g : Filter) :
    covers (distinct fs) g = covers fs g := by
  rw [Bool.eq_iff_iff, covers_iff, covers_iff]
  constructor
  · rintro ⟨f, hf, hs⟩
    exact ⟨f, (distinct_sublist fs).subset hf, hs⟩
  · rintro ⟨d, hd, hs⟩
    obtain ⟨e, he, rfl | hed⟩ := exists_mem_distinct hd
    · exact ⟨e, he, hs⟩
    · exact ⟨e, he, same_trans hed hs⟩

theorem distinct_append (fs gs : List Filter) :
    distinct (fs ++ gs) = distinct fs ++ (distinct gs).filter (!covers fs ·) := by
  induction fs with
  | nil =>
    have hall : (distinct gs).filter (!covers [] ·) = distinct gs :=
      List.filter_eq_self.mpr fun _ _ => rfl
    rw [hall]
    rfl
  | cons f rest ih =>
    rw [List.cons_append, distinct, distinct, ih, List.filter_append, List.filter_filter,
      List.cons_append]
    simp [covers, Bool.not_or]

end Filter

namespace Connective

variable {k : Connective}

/-- Neither a constant nor joined by the connective. -/
structure IsOperand (k : Connective) (f : Filter) : Prop where
  ne_always : f ≠ .always
  ne_never : f ≠ .never
  ne_join : ∀ fs, f ≠ k.join fs

/-- Operands of the connective that are pairwise different. -/
structure IsReduced (k : Connective) (fs : List Filter) : Prop where
  operand : ∀ f ∈ fs, k.IsOperand f
  pairwise : fs.Pairwise fun f g => f.same g = false

theorem join_inj {l : Connective} {fs gs : List Filter} (h : k.join fs = l.join gs) :
    k = l ∧ fs = gs := by
  cases k <;> cases l <;> simp [join] at h <;> exact ⟨rfl, h⟩

theorem isUnit_unit : k.isUnit k.unit = true := by
  cases k <;> rfl

theorem isZero_zero : k.isZero k.zero = true := by
  cases k <;> rfl

theorem isZero_unit : k.isZero k.unit = false := by
  cases k <;> rfl

theorem operands_unit : k.operands k.unit = [k.unit] := by
  cases k <;> rfl

theorem operands_zero : k.operands k.zero = [k.zero] := by
  cases k <;> rfl

namespace IsOperand

variable {f : Filter}

theorem isUnit_eq_false (h : k.IsOperand f) : k.isUnit f = false := by
  rw [Bool.eq_false_iff]
  intro hu
  have hf := eq_unit_of_isUnit hu
  cases k
  · exact h.ne_always hf
  · exact h.ne_never hf

theorem isZero_eq_false (h : k.IsOperand f) : k.isZero f = false := by
  rw [Bool.eq_false_iff]
  intro hz
  have hf := eq_zero_of_isZero hz
  cases k
  · exact h.ne_never hf
  · exact h.ne_always hf

theorem operands_eq (h : k.IsOperand f) : k.operands f = [f] := by
  rcases k.operands_cases f with ⟨fs, hf⟩ | hf
  · exact absurd hf (h.ne_join fs)
  · exact hf

end IsOperand

/-- A filter is a constant, is joined by the connective, or can be its operand. -/
theorem cases_of_filter (k : Connective) (f : Filter) :
    f = k.unit ∨ f = k.zero ∨ (∃ fs, f = k.join fs) ∨ k.IsOperand f := by
  by_cases hu : f = k.unit
  · exact Or.inl hu
  by_cases hz : f = k.zero
  · exact Or.inr (Or.inl hz)
  by_cases hj : ∃ fs, f = k.join fs
  · exact Or.inr (Or.inr (Or.inl hj))
  · refine Or.inr (Or.inr (Or.inr ?_))
    cases k
    · exact ⟨hu, hz, fun fs h => hj ⟨fs, h⟩⟩
    · exact ⟨hz, hu, fun fs h => hj ⟨fs, h⟩⟩

/-- What simplified operands leave: nothing where one of them settles the whole, else the operands
that say something, each once and none joined by the connective. -/
def remains (k : Connective) (fs : List Filter) : Option (List Filter) :=
  if (fs.flatMap k.operands).any k.isZero then none
  else some (Filter.distinct ((fs.flatMap k.operands).filter (!k.isUnit ·)))

theorem combine_eq_remains (fs : List Filter) :
    k.combine fs = ((k.remains fs).map k.ofOperands).getD k.zero := by
  rw [combine_eq, remains]
  split <;> rfl

theorem combine_congr {fs gs : List Filter} (h : k.remains fs = k.remains gs) :
    k.combine fs = k.combine gs := by
  rw [combine_eq_remains, combine_eq_remains, h]

theorem pairwise_of_remains {fs gs : List Filter} (h : k.remains fs = some gs) :
    gs.Pairwise fun f g => f.same g = false := by
  rw [remains, Option.ite_none_left_eq_some, Option.some.injEq] at h
  exact h.2 ▸ Filter.pairwise_distinct _

theorem mem_operands_of_remains {fs gs : List Filter} (h : k.remains fs = some gs) :
    ∀ g ∈ gs, ∃ f ∈ fs, g ∈ k.operands f ∧ k.isUnit g = false ∧ k.isZero g = false := by
  rw [remains, Option.ite_none_left_eq_some, Option.some.injEq, List.any_eq_true] at h
  obtain ⟨hzero, rfl⟩ := h
  intro g hg
  obtain ⟨hflat, hunit⟩ := List.mem_filter.mp ((Filter.distinct_sublist _).subset hg)
  obtain ⟨f, hf, hgf⟩ := List.mem_flatMap.mp hflat
  refine ⟨f, hf, hgf, by simpa using hunit, ?_⟩
  rw [Bool.eq_false_iff]
  exact fun hz => hzero ⟨g, hflat, hz⟩

/-- Both parts leave their operands, but for those of the second that the first has too. -/
theorem remains_append (fs gs : List Filter) :
    k.remains (fs ++ gs) = (k.remains fs).bind fun ls =>
      (k.remains gs).map fun ms => ls ++ ms.filter (!Filter.covers ls ·) := by
  simp only [remains, List.flatMap_append, List.any_append, List.filter_append,
    Filter.distinct_append]
  cases (fs.flatMap k.operands).any k.isZero with
  | true => rfl
  | false =>
    cases (gs.flatMap k.operands).any k.isZero with
    | true => rfl
    | false => simp [Filter.covers_distinct]

theorem remains_append_congr {fs gs hs is : List Filter} (h : k.remains fs = k.remains gs)
    (h' : k.remains hs = k.remains is) : k.remains (fs ++ hs) = k.remains (gs ++ is) := by
  rw [remains_append, remains_append, h, h']

theorem remains_unit : k.remains [k.unit] = some [] := by
  simp [remains, operands_unit, isUnit_unit, isZero_unit, Filter.distinct]

theorem remains_zero : k.remains [k.zero] = none := by
  simp [remains, operands_zero, isZero_zero]

theorem remains_eq_distinct {fs : List Filter} (h : ∀ f ∈ fs.flatMap k.operands, k.IsOperand f) :
    k.remains fs = some (Filter.distinct (fs.flatMap k.operands)) := by
  have hzero : (fs.flatMap k.operands).any k.isZero = false := by
    rw [List.any_eq_false]
    intro f hf
    simp [(h f hf).isZero_eq_false]
  have hunit : (fs.flatMap k.operands).filter (!k.isUnit ·) = fs.flatMap k.operands := by
    rw [List.filter_eq_self]
    intro f hf
    simp [(h f hf).isUnit_eq_false]
  simp [remains, hzero, hunit]

theorem IsReduced.remains_of_operands {fs gs : List Filter} (h : k.IsReduced gs)
    (hfs : fs.flatMap k.operands = gs) : k.remains fs = some gs := by
  subst hfs
  rw [remains_eq_distinct h.operand, Filter.distinct_eq_self h.pairwise]

theorem IsReduced.remains_self {fs : List Filter} (h : k.IsReduced fs) :
    k.remains fs = some fs := by
  have hmap : fs.map k.operands = fs.map fun f => [f] :=
    List.map_congr_left fun f hf => (h.operand f hf).operands_eq
  apply h.remains_of_operands
  rw [List.flatMap_def, hmap, ← List.flatMap_def, List.flatMap_singleton']

theorem IsReduced.remains_join {fs : List Filter} (h : k.IsReduced fs) :
    k.remains [k.join fs] = some fs :=
  h.remains_of_operands (by simp [operands_join])

theorem IsOperand.remains_singleton {f : Filter} (h : k.IsOperand f) :
    k.remains [f] = some [f] := by
  have hr : k.IsReduced [f] := ⟨by simpa using h, List.pairwise_singleton _ f⟩
  exact hr.remains_of_operands (by simp [h.operands_eq])

/-- Joining reduced operands and taking them apart again gives them back. -/
theorem IsReduced.remains_ofOperands {fs : List Filter} (h : k.IsReduced fs) :
    k.remains [k.ofOperands fs] = some fs := by
  rcases k.ofOperands_cases fs with ⟨rfl, hu⟩ | ⟨f, rfl, hf⟩ | ⟨_, hj⟩
  · rw [hu, remains_unit]
  · rw [hf]
    exact (h.operand f List.mem_cons_self).remains_singleton
  · rw [hj, h.remains_join]

end Connective

namespace Filter

/-- Filters in normal form: no connective has constants, operands that it joins itself, equal
operands, or fewer than two of them, and what is negated is neither a constant nor a negation. -/
inductive IsNormal : Filter → Prop
  | always : IsNormal always
  | never : IsNormal never
  | dontCare (field : String) : IsNormal (dontCare field)
  | atom (a : Atom) : IsNormal (atom a)
  | not {f : Filter} (hf : IsNormal f) (halways : f ≠ .always) (hnever : f ≠ .never)
    (hnot : ∀ g, f ≠ .not g) : IsNormal (not f)
  | join (k : Connective) {fs : List Filter} (hlength : 2 ≤ fs.length) (hreduced : k.IsReduced fs)
    (hfs : ∀ f ∈ fs, IsNormal f) : IsNormal (k.join fs)
  | external (selector channel : String) (params : List Param) {f : Filter} (hf : IsNormal f) :
    IsNormal (external selector channel params f)
  | compute (lhs : Value) (op : String) (rhs : Value) : IsNormal (compute lhs op rhs)

end Filter

namespace Connective

variable {k : Connective}

theorem isNormal_join_iff {fs : List Filter} :
    (k.join fs).IsNormal ↔ 2 ≤ fs.length ∧ k.IsReduced fs ∧ ∀ f ∈ fs, f.IsNormal := by
  constructor
  · intro h
    generalize hj : k.join fs = f at h
    cases h with
    | join l hlength hreduced hfs =>
      obtain ⟨rfl, rfl⟩ := join_inj hj
      exact ⟨hlength, hreduced, hfs⟩
    | _ => cases k <;> cases hj
  · rintro ⟨hlength, hreduced, hfs⟩
    exact .join k hlength hreduced hfs

theorem isNormal_unit : k.unit.IsNormal := by
  cases k
  · exact .always
  · exact .never

theorem isNormal_zero : k.zero.IsNormal := by
  cases k
  · exact .never
  · exact .always

theorem combine_singleton {f : Filter} (h : f.IsNormal) : k.combine [f] = f := by
  rw [combine_eq_remains]
  rcases k.cases_of_filter f with rfl | rfl | ⟨fs, rfl⟩ | hf
  · rw [remains_unit]
    cases k <;> rfl
  · rw [remains_zero]
    rfl
  · obtain ⟨hlength, hreduced, _⟩ := isNormal_join_iff.mp h
    rw [hreduced.remains_join]
    rcases k.ofOperands_cases fs with ⟨rfl, _⟩ | ⟨g, rfl, _⟩ | ⟨_, hj⟩
    · simp at hlength
    · simp at hlength
    · exact hj
  · rw [hf.remains_singleton]
    cases k <;> rfl

theorem operands_of_isNormal {f : Filter} (h : f.IsNormal) :
    ∀ g ∈ k.operands f, g.IsNormal ∧ (g = k.unit ∨ g = k.zero ∨ k.IsOperand g) := by
  rcases k.cases_of_filter f with rfl | rfl | ⟨fs, rfl⟩ | hf
  · simpa [operands_unit] using h
  · simpa [operands_zero] using h
  · obtain ⟨_, hreduced, hfs⟩ := isNormal_join_iff.mp h
    rw [operands_join]
    exact fun g hg => ⟨hfs g hg, Or.inr (Or.inr (hreduced.operand g hg))⟩
  · rw [hf.operands_eq]
    simpa using ⟨h, Or.inr (Or.inr hf)⟩

theorem isReduced_of_remains {fs gs : List Filter} (h : ∀ f ∈ fs, f.IsNormal)
    (hr : k.remains fs = some gs) : k.IsReduced gs ∧ ∀ g ∈ gs, g.IsNormal := by
  have hmem : ∀ g ∈ gs, g.IsNormal ∧ k.IsOperand g := by
    intro g hg
    obtain ⟨f, hf, hgf, hunit, hzero⟩ := mem_operands_of_remains hr g hg
    obtain ⟨hnormal, rfl | rfl | hoperand⟩ := operands_of_isNormal (h f hf) g hgf
    · exact absurd (isUnit_unit.symm.trans hunit) (by simp)
    · exact absurd (isZero_zero.symm.trans hzero) (by simp)
    · exact ⟨hnormal, hoperand⟩
  exact ⟨⟨fun g hg => (hmem g hg).2, pairwise_of_remains hr⟩, fun g hg => (hmem g hg).1⟩

/-- Combined operands leave as one operand what they leave as many. -/
theorem remains_combine {fs : List Filter} (h : ∀ f ∈ fs, f.IsNormal) :
    k.remains [k.combine fs] = k.remains fs := by
  rw [combine_eq_remains]
  cases hr : k.remains fs with
  | none => exact remains_zero
  | some gs => exact (isReduced_of_remains h hr).1.remains_ofOperands

/-- Operands of an operand can as well be operands of the whole. -/
theorem combine_flatten (fs : List Filter) {gs : List Filter} (hs : List Filter)
    (h : ∀ g ∈ gs, g.IsNormal) :
    k.combine (fs ++ [k.combine gs] ++ hs) = k.combine (fs ++ gs ++ hs) :=
  combine_congr (remains_append_congr (remains_append_congr rfl (remains_combine h)) rfl)

theorem isNormal_combine {fs : List Filter} (h : ∀ f ∈ fs, f.IsNormal) :
    (k.combine fs).IsNormal := by
  rw [combine_eq_remains]
  cases hr : k.remains fs with
  | none => exact isNormal_zero
  | some gs =>
    obtain ⟨hreduced, hgs⟩ := isReduced_of_remains h hr
    rw [Option.map_some, Option.getD_some]
    rcases k.ofOperands_cases gs with ⟨_, hu⟩ | ⟨g, rfl, hg⟩ | ⟨hlength, hj⟩
    · rw [hu]
      exact isNormal_unit
    · rw [hg]
      exact hgs g List.mem_cons_self
    · rw [hj]
      exact .join k hlength hreduced hgs

end Connective

namespace Filter

theorem isNormal_negate {f : Filter} (h : f.IsNormal) : f.negate.IsNormal := by
  cases h with
  | always => exact .never
  | never => exact .always
  | not hf => exact hf
  | join k hlength hreduced hfs =>
    cases k <;> exact .not (.join _ hlength hreduced hfs) nofun nofun nofun
  | dontCare field => exact .not (.dontCare field) nofun nofun nofun
  | atom a => exact .not (.atom a) nofun nofun nofun
  | external s c ps hf => exact .not (.external s c ps hf) nofun nofun nofun
  | compute lhs op rhs => exact .not (.compute lhs op rhs) nofun nofun nofun

theorem negate_eq_not {f : Filter} (ha : f ≠ .always) (hn : f ≠ .never)
    (hnot : ∀ g, f ≠ .not g) : f.negate = .not f := by
  cases f with
  | always => exact absurd rfl ha
  | never => exact absurd rfl hn
  | not g => exact absurd rfl (hnot g)
  | _ => rfl

theorem negate_negate {f : Filter} (h : f.IsNormal) : f.negate.negate = f := by
  cases h with
  | not _ ha hn hnot => exact negate_eq_not ha hn hnot
  | join k => cases k <;> rfl
  | _ => rfl

theorem isNormal_simplify (f : Filter) : f.simplify.IsNormal := by
  induction f using connectiveInduction with
  | always => exact .always
  | never => exact .never
  | dontCare field => exact .dontCare field
  | atom a => exact .atom a
  | not f ih => exact isNormal_negate ih
  | join k fs ih =>
    rw [simplify_join]
    exact Connective.isNormal_combine (by simpa using ih)
  | external s c ps f ih => exact .external s c ps ih
  | compute lhs op rhs => exact .compute lhs op rhs

theorem isNormal_of_mem_map_simplify {fs : List Filter} : ∀ f ∈ fs.map simplify, f.IsNormal := by
  intro f hf
  obtain ⟨g, _, rfl⟩ := List.mem_map.mp hf
  exact g.isNormal_simplify

theorem simplify_eq_self {f : Filter} (h : f.IsNormal) : f.simplify = f := by
  induction h with
  | not _ ha hn hnot ih => rw [simplify, ih, negate_eq_not ha hn hnot]
  | @join k fs hlength hreduced hfs ih =>
    have hmap : fs.map simplify = fs := by
      rw [List.map_congr_left ih, List.map_id']
    calc (k.join fs).simplify
        = k.combine fs := by rw [simplify_join, hmap]
      _ = k.combine [k.join fs] :=
        Connective.combine_congr (hreduced.remains_self.trans hreduced.remains_join.symm)
      _ = k.join fs := Connective.combine_singleton (.join k hlength hreduced hfs)
  | external s c ps _ ih => rw [simplify, ih]
  | _ => rfl

theorem simplify_simplify (f : Filter) : f.simplify.simplify = f.simplify :=
  simplify_eq_self f.isNormal_simplify

/-- Simplifying computes the normal form, and the filters that it leaves as they are are those in
normal form. -/
theorem simplify_normalizes (f : Filter) :
    f.simplify.IsNormal ∧ (f.IsNormal ↔ f.simplify = f) ∧ f.simplify.simplify = f.simplify := by
  have hnormal := f.isNormal_simplify
  refine ⟨hnormal, ⟨simplify_eq_self, fun hfixed => ?_⟩, f.simplify_simplify⟩
  rwa [hfixed] at hnormal

example : (or [and [dontCare "area", always], not (not (or [never, dontCare "area"]))]).simplify =
    dontCare "area" := by
  rfl

/-- It makes no difference whether some operands stand in a group of their own, nor whether operands
are simplified before they are joined. -/
theorem simplify_regrouped (k : Connective) (fs gs hs : List Filter) :
    (k.join (fs ++ [k.join gs] ++ hs)).simplify = (k.join (fs ++ gs ++ hs)).simplify ∧
      (k.join (fs.map simplify)).simplify = (k.join fs).simplify := by
  constructor
  · calc (k.join (fs ++ [k.join gs] ++ hs)).simplify
        = k.combine (fs.map simplify ++ [k.combine (gs.map simplify)] ++ hs.map simplify) := by
          simp only [simplify_join, List.map_append, List.map_singleton]
      _ = k.combine (fs.map simplify ++ gs.map simplify ++ hs.map simplify) :=
          Connective.combine_flatten _ _ isNormal_of_mem_map_simplify
      _ = (k.join (fs ++ gs ++ hs)).simplify := by
          simp only [simplify_join, List.map_append]
  · have htwice : (fs.map simplify).map simplify = fs.map simplify := by
      rw [List.map_map]
      exact List.map_congr_left fun f _ => f.simplify_simplify
    rw [simplify_join, simplify_join, htwice]

end Filter

end Colloquy
