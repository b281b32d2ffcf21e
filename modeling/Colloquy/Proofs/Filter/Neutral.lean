import Colloquy.Proofs.Filter.Inherited

namespace Colloquy

namespace Connective

variable {k : Connective}

theorem isUnit_bare (f : Filter) : k.isUnit f.bare = k.isUnit f := by
  cases k <;> cases f <;> rfl

theorem isZero_bare (f : Filter) : k.isZero f.bare = k.isZero f := by
  cases k <;> cases f <;> rfl

theorem operands_bare (f : Filter) : k.operands f.bare = (k.operands f).map Filter.bare := by
  rcases k.operands_cases f with ⟨fs, rfl⟩ | hf
  · rw [Filter.bare_join, operands_join, operands_join]
  · rw [hf]
    cases k <;> cases f <;> first | rfl | cases hf

theorem ofOperands_map_bare (fs : List Filter) :
    k.ofOperands (fs.map Filter.bare) = (k.ofOperands fs).bare := by
  rcases fs with _ | ⟨f, _ | ⟨g, rest⟩⟩
  · cases k <;> rfl
  · cases k <;> rfl
  · cases k <;> simp [ofOperands, Filter.ofConjuncts, Filter.ofDisjuncts, Filter.bare,
      Filter.bareAll_eq_map]

end Connective

namespace Filter

theorem same_bare (f g : Filter) : f.bare.same g.bare = f.same g := by
  rw [Bool.eq_iff_iff, same_iff, same_iff, bare_bare, bare_bare, hasNaN_bare]

theorem distinct_map_bare (fs : List Filter) : distinct (fs.map bare) = (distinct fs).map bare := by
  induction fs with
  | nil => rfl
  | cons f rest ih =>
    simp only [List.map_cons, distinct, ih, List.filter_map, Function.comp_def, same_bare]

end Filter

namespace Connective

variable {k : Connective}

theorem combine_map_bare (fs : List Filter) :
    k.combine (fs.map Filter.bare) = (k.combine fs).bare := by
  have hflat : (fs.map Filter.bare).flatMap k.operands = (fs.flatMap k.operands).map Filter.bare := by
    simp only [List.flatMap_map, List.map_flatMap, operands_bare]
  rw [combine_eq, combine_eq, hflat, List.any_map]
  simp only [Function.comp_def, isZero_bare, List.filter_map, isUnit_bare,
    Filter.distinct_map_bare, ofOperands_map_bare]
  split
  next => cases k <;> rfl
  next => rfl

end Connective

namespace Filter

theorem negate_bare (f : Filter) : f.bare.negate = f.negate.bare := by
  cases f <;> rfl

theorem simplify_bare (f : Filter) : f.bare.simplify = f.simplify.bare := by
  induction f using connectiveInduction with
  | not f ih => rw [bare, simplify, simplify, ih, negate_bare]
  | join k fs ih =>
    rw [bare_join, simplify_join, simplify_join, ← Connective.combine_map_bare, List.map_map,
      List.map_map]
    exact congrArg k.combine (List.map_congr_left ih)
  | external s c ps f ih => simp only [bare, simplify, ih]
  | _ => rfl

theorem neutralize_bare (f : Filter) : f.bare.neutralize = f.neutralize.bare := by
  induction f using connectiveInduction with
  | not f ih => simp only [bare, neutralize, ih]
  | join k fs ih =>
    rw [bare_join, neutralize_join, neutralize_join, bare_join, List.map_map, List.map_map]
    exact congrArg k.join (List.map_congr_left ih)
  | atom a =>
    have hid : a.bare.isIdentity = a.isIdentity := rfl
    simp only [bare, neutralize, hid]
    split <;> rfl
  | _ => rfl

def neutralForm (f : Filter) : Filter :=
  f.neutralize.simplify

theorem isNormal_neutralForm (f : Filter) : f.neutralForm.IsNormal :=
  f.neutralize.isNormal_simplify

theorem neutralForm_join (k : Connective) (fs : List Filter) :
    (k.join fs).neutralForm = k.combine (fs.map neutralForm) := by
  rw [neutralForm, neutralize_join, simplify_join, List.map_map]
  rfl

theorem same_neutralForm {f g : Filter} (h : f.same g = true) :
    f.neutralForm.same g.neutralForm = true := by
  obtain ⟨hb, hn⟩ := same_iff.mp h
  refine same_iff.mpr ⟨?_, isInherited_hasNaN.simplify (isInherited_hasNaN.neutralize hn)⟩
  rw [neutralForm, neutralForm, ← simplify_bare, ← neutralize_bare, hb, neutralize_bare,
    simplify_bare]

end Filter

namespace Connective

variable {k : Connective}

theorem exists_operand_same {f g d : Filter} (h : f.same g = true) (hd : d ∈ k.operands g) :
    ∃ e ∈ k.operands f, e.same d = true ∧ k.isUnit e = k.isUnit d ∧ k.isZero e = k.isZero d := by
  obtain ⟨hb, hn⟩ := Filter.same_iff.mp h
  have hmap : (k.operands f).map Filter.bare = (k.operands g).map Filter.bare := by
    rw [← operands_bare, hb, operands_bare]
  have hmem : d.bare ∈ (k.operands f).map Filter.bare := hmap ▸ List.mem_map_of_mem hd
  obtain ⟨e, he, heb⟩ := List.mem_map.mp hmem
  refine ⟨e, he, Filter.same_iff.mpr ⟨heb, Filter.isInherited_hasNaN.operands hn e he⟩, ?_, ?_⟩
  · rw [← isUnit_bare, heb, isUnit_bare]
  · rw [← isZero_bare, heb, isZero_bare]

/-- An operand adds nothing to operands of which one is equal to it. -/
theorem remains_append_same {fs : List Filter} {f g : Filter} (hf : f ∈ fs)
    (h : f.same g = true) : k.remains (fs ++ [g]) = k.remains fs := by
  have hop : ∀ e ∈ k.operands f, e ∈ fs.flatMap k.operands :=
    fun e he => List.mem_flatMap.mpr ⟨f, hf, he⟩
  have hzero : ((fs ++ [g]).flatMap k.operands).any k.isZero =
      (fs.flatMap k.operands).any k.isZero := by
    rw [List.flatMap_append, List.any_append, List.flatMap_singleton, Bool.or_eq_left_iff_imp]
    intro hz
    obtain ⟨d, hd, hdz⟩ := List.any_eq_true.mp hz
    obtain ⟨e, he, _, _, hez⟩ := exists_operand_same h hd
    exact List.any_eq_true.mpr ⟨e, hop e he, hez.trans hdz⟩
  have hcovers : (Filter.distinct ((k.operands g).filter (!k.isUnit ·))).filter
      (!Filter.covers ((fs.flatMap k.operands).filter (!k.isUnit ·)) ·) = [] := by
    rw [List.filter_eq_nil_iff]
    intro d hd
    obtain ⟨hdg, hdu⟩ := List.mem_filter.mp ((Filter.distinct_sublist _).subset hd)
    obtain ⟨e, he, hs, hu, _⟩ := exists_operand_same h hdg
    have hmem : e ∈ (fs.flatMap k.operands).filter (!k.isUnit ·) :=
      List.mem_filter.mpr ⟨hop e he, by rw [hu]; exact hdu⟩
    simp [Filter.covers_iff.mpr ⟨e, hmem, hs⟩]
  rw [remains, remains, hzero, List.flatMap_append, List.filter_append, Filter.distinct_append,
    List.flatMap_singleton, hcovers, List.append_nil]

section Image

variable {m : Filter → Filter} (hm : ∀ f g : Filter, f.same g = true → (m f).same (m g) = true)
include hm

theorem remains_map_filter_same {f : Filter} {us : List Filter} (hf : m f ∈ us)
    (fs : List Filter) :
    k.remains (us ++ (fs.filter (!f.same ·)).map m) = k.remains (us ++ fs.map m) := by
  induction fs generalizing us with
  | nil => rfl
  | cons g rest ih =>
    cases h : f.same g with
    | true =>
      have hdrop : k.remains (us ++ [m g]) = k.remains us := remains_append_same hf (hm f g h)
      rw [List.filter_cons_of_neg (by simp [h]), ih hf, List.map_cons, List.append_cons]
      exact remains_append_congr hdrop.symm rfl
    | false =>
      have hrest := ih (List.mem_append_left [m g] hf)
      simp only [List.append_assoc, List.singleton_append] at hrest
      rw [List.filter_cons_of_pos (by simp [h]), List.map_cons, List.map_cons, hrest]

/-- Equal operands have equal images, so it does not matter whether they are dropped before. -/
theorem remains_map_distinct (us fs : List Filter) :
    k.remains (us ++ (Filter.distinct fs).map m) = k.remains (us ++ fs.map m) := by
  induction fs generalizing us with
  | nil => rfl
  | cons f rest ih =>
    have hf : m f ∈ us ++ [m f] := by simp
    have hrest := (remains_map_filter_same hm hf (Filter.distinct rest)).trans (ih (us ++ [m f]))
    simp only [List.append_assoc, List.singleton_append] at hrest
    rw [Filter.distinct, List.map_cons, List.map_cons, hrest]

end Image

theorem remains_eq_none {fs : List Filter} (h : k.zero ∈ fs) : k.remains fs = none := by
  have hz : (fs.flatMap k.operands).any k.isZero = true := by
    refine List.any_eq_true.mpr ⟨k.zero, List.mem_flatMap.mpr ⟨k.zero, h, ?_⟩, isZero_zero⟩
    rw [operands_zero]
    exact List.mem_cons_self
  rw [remains, if_pos hz]

theorem neutralForm_unit : k.unit.neutralForm = k.unit := by
  cases k <;> rfl

theorem neutralForm_zero : k.zero.neutralForm = k.zero := by
  cases k <;> rfl

theorem neutralForm_ofOperands (fs : List Filter) :
    (k.ofOperands fs).neutralForm = k.combine (fs.map Filter.neutralForm) := by
  rcases k.ofOperands_cases fs with ⟨rfl, hu⟩ | ⟨f, rfl, hf⟩ | ⟨_, hj⟩
  · rw [hu, neutralForm_unit]
    cases k <;> rfl
  · rw [hf, List.map_singleton, combine_singleton f.isNormal_neutralForm]
  · rw [hj, Filter.neutralForm_join]

theorem remains_neutralForm_operands (f : Filter) :
    k.remains ((k.operands f).map Filter.neutralForm) = k.remains [f.neutralForm] := by
  rcases k.operands_cases f with ⟨fs, rfl⟩ | hf
  · rw [operands_join, Filter.neutralForm_join, remains_combine]
    intro g hg
    obtain ⟨f, _, rfl⟩ := List.mem_map.mp hg
    exact f.isNormal_neutralForm
  · rw [hf]
    rfl

theorem remains_neutralForm_flatMap (fs : List Filter) :
    k.remains ((fs.flatMap k.operands).map Filter.neutralForm) =
      k.remains (fs.map Filter.neutralForm) := by
  induction fs with
  | nil => rfl
  | cons f rest ih =>
    rw [List.flatMap_cons, List.map_append, List.map_cons, ← List.singleton_append]
    exact remains_append_congr (remains_neutralForm_operands f) ih

theorem remains_neutralForm_filter (fs : List Filter) :
    k.remains ((fs.filter (!k.isUnit ·)).map Filter.neutralForm) =
      k.remains (fs.map Filter.neutralForm) := by
  induction fs with
  | nil => rfl
  | cons f rest ih =>
    cases hu : k.isUnit f with
    | true =>
      have hf : k.remains [f.neutralForm] = k.remains [] := by
        rw [eq_unit_of_isUnit hu, neutralForm_unit, remains_unit]
        rfl
      rw [List.filter_cons_of_neg (by simp [hu]), ih, List.map_cons, ← List.singleton_append]
      exact (remains_append_congr hf rfl).symm
    | false =>
      rw [List.filter_cons_of_pos (by simp [hu]), List.map_cons, List.map_cons,
        ← List.singleton_append, ← List.singleton_append (l := rest.map _)]
      exact remains_append_congr rfl ih

theorem neutralForm_combine (fs : List Filter) :
    (k.combine fs).neutralForm = k.combine (fs.map Filter.neutralForm) := by
  have hflat := remains_neutralForm_flatMap (k := k) fs
  rw [combine_eq]
  split
  next hz =>
    obtain ⟨z, hmem, hz⟩ := List.any_eq_true.mp hz
    have hzero : k.zero ∈ (fs.flatMap k.operands).map Filter.neutralForm := by
      rw [eq_zero_of_isZero hz] at hmem
      exact List.mem_map.mpr ⟨k.zero, hmem, neutralForm_zero⟩
    rw [neutralForm_zero, combine_eq_remains, ← hflat, remains_eq_none hzero]
    rfl
  next =>
    have hdistinct := remains_map_distinct (k := k) (fun _ _ => Filter.same_neutralForm) []
      ((fs.flatMap k.operands).filter (!k.isUnit ·))
    rw [neutralForm_ofOperands]
    exact combine_congr (hdistinct.trans ((remains_neutralForm_filter _).trans hflat))

end Connective

namespace Filter

theorem neutralForm_negate (f : Filter) : f.negate.neutralForm = f.neutralForm.negate := by
  cases f with
  | not f => exact (negate_negate f.isNormal_neutralForm).symm
  | _ => rfl

/-- It makes no difference whether a filter is simplified before it is neutralized. -/
theorem neutralForm_simplify (f : Filter) : f.simplify.neutralForm = f.neutralForm := by
  induction f using connectiveInduction with
  | not f ih =>
    rw [simplify, neutralForm_negate, ih]
    rfl
  | join k fs ih =>
    rw [simplify_join, Connective.neutralForm_combine, List.map_map, neutralForm_join]
    exact congrArg k.combine (List.map_congr_left ih)
  | external s c ps f ih =>
    simp only [neutralForm, simplify, neutralize, simplify_simplify]
  | _ => rfl

end Filter

end Colloquy
