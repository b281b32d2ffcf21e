import Colloquy.Proofs.Filter.Connective
import Colloquy.Proofs.Value.Equality

namespace Colloquy

namespace Param

def bare (p : Param) : Param :=
  { p with value := p.value.bare }

@[simp] theorem bare_bare (p : Param) : p.bare.bare = p.bare := by
  simp [bare]

theorem sameBy_iff {lenient : Bool} {p q : Param} :
    p.sameBy lenient q = true ↔ p.bare = q.bare ∧ (lenient = false → p.value.hasNaN = false) := by
  cases p
  cases q
  simp [sameBy, bare, Value.sameBy_iff, and_assoc]

theorem sameAll_iff {lenient : Bool} {ps qs : List Param} :
    sameAll lenient ps qs = true ↔
      ps.map bare = qs.map bare ∧ (lenient = false → ps.any (·.value.hasNaN) = false) := by
  induction ps generalizing qs with
  | nil => cases qs <;> simp [sameAll]
  | cons p ps ih =>
    cases qs with
    | nil => simp [sameAll]
    | cons q qs =>
      simp only [sameAll, List.map_cons, List.any_cons, Bool.and_eq_true, Bool.or_eq_false_iff,
        List.cons.injEq, imp_and, sameBy_iff, ih]
      exact and_and_and_comm

end Param

namespace Atom

def bare (a : Atom) : Atom :=
  { a with value := a.value.bare }

@[simp] theorem bare_bare (a : Atom) : a.bare.bare = a.bare := by
  simp [bare]

theorem sameBy_iff {lenient : Bool} {a b : Atom} :
    a.sameBy lenient b = true ↔ a.bare = b.bare ∧ (lenient = false → a.value.hasNaN = false) := by
  cases a
  cases b
  simp [sameBy, bare, Value.sameBy_iff, and_assoc]

end Atom

namespace Filter

mutual

def bare : Filter → Filter
  | atom a => atom a.bare
  | not f => not (bare f)
  | and fs => and (bareAll fs)
  | or fs => or (bareAll fs)
  | external selector channel params f => external selector channel (params.map Param.bare) (bare f)
  | compute lhs op rhs => compute lhs.bare op rhs.bare
  | f => f

def bareAll : List Filter → List Filter
  | [] => []
  | f :: rest => bare f :: bareAll rest

end

mutual

/-- Whether a number that equality looks at is none. -/
def hasNaN : Filter → Bool
  | atom a => a.value.hasNaN
  | not f => hasNaN f
  | and fs => anyNaN fs
  | or fs => anyNaN fs
  | external _ _ params f => params.any (·.value.hasNaN) || hasNaN f
  | compute lhs _ rhs => lhs.hasNaN || rhs.hasNaN
  | _ => false

def anyNaN : List Filter → Bool
  | [] => false
  | f :: rest => hasNaN f || anyNaN rest

end

theorem bareAll_eq_map (fs : List Filter) : bareAll fs = fs.map bare := by
  induction fs with
  | nil => rfl
  | cons f rest ih => simp [bareAll, ih]

theorem anyNaN_eq_any (fs : List Filter) : anyNaN fs = fs.any hasNaN := by
  induction fs with
  | nil => rfl
  | cons f rest ih => simp [anyNaN, ih]

theorem bare_join (k : Connective) (fs : List Filter) :
    (k.join fs).bare = k.join (fs.map bare) := by
  cases k <;> simp [Connective.join, bare, bareAll_eq_map]

theorem hasNaN_join (k : Connective) (fs : List Filter) :
    (k.join fs).hasNaN = fs.any hasNaN := by
  cases k <;> simp [Connective.join, hasNaN, anyNaN_eq_any]

@[simp] theorem bare_bare (f : Filter) : f.bare.bare = f.bare := by
  induction f using connectiveInduction with
  | always => rfl
  | never => rfl
  | dontCare => rfl
  | atom a => simp [bare]
  | not f ih => simp [bare, ih]
  | join k fs ih =>
    rw [bare_join, bare_join, List.map_map]
    congr 1
    exact List.map_congr_left ih
  | external s c ps f ih => simp [bare, ih]
  | compute => simp [bare]

@[simp] theorem hasNaN_bare (f : Filter) : f.bare.hasNaN = f.hasNaN := by
  induction f using connectiveInduction with
  | always => rfl
  | never => rfl
  | dontCare => rfl
  | atom a => simp [bare, hasNaN, Atom.bare]
  | not f ih => simp [bare, hasNaN, ih]
  | join k fs ih =>
    have hm : fs.map (hasNaN ∘ bare) = fs.map hasNaN := List.map_congr_left ih
    have ha := congrArg (List.any · id) hm
    simpa [bare_join, hasNaN_join, List.any_map] using ha
  | external s c ps f ih => simp [bare, hasNaN, ih, Param.bare, Function.comp_def]
  | compute => simp [bare, hasNaN]

section

variable {lenient : Bool}

theorem sameAll_iff {fs gs : List Filter}
    (hfs : ∀ f ∈ fs, ∀ g,
      f.sameBy lenient g = true ↔ f.bare = g.bare ∧ (lenient = false → f.hasNaN = false)) :
    sameAll lenient fs gs = true ↔
      fs.map bare = gs.map bare ∧ (lenient = false → fs.any hasNaN = false) := by
  induction fs generalizing gs with
  | nil => cases gs <;> simp [sameAll]
  | cons f fs ih =>
    cases gs with
    | nil => simp [sameAll]
    | cons g gs =>
      have hf := hfs f List.mem_cons_self g
      have hrest := @ih gs fun f hf => hfs f (List.mem_cons_of_mem _ hf)
      simp only [sameAll, List.map_cons, List.any_cons, Bool.and_eq_true, Bool.or_eq_false_iff,
        List.cons.injEq, imp_and, hf, hrest]
      exact and_and_and_comm

/-- Equality of filters is equality of bare filters, apart from numbers that are none. -/
theorem sameBy_iff {f g : Filter} :
    f.sameBy lenient g = true ↔ f.bare = g.bare ∧ (lenient = false → f.hasNaN = false) := by
  induction f using connectiveInduction generalizing g with
  | always => cases g <;> simp [sameBy, bare, hasNaN]
  | never => cases g <;> simp [sameBy, bare, hasNaN]
  | dontCare => cases g <;> simp [sameBy, bare, hasNaN]
  | atom a => cases g <;> simp [sameBy, bare, hasNaN, Atom.sameBy_iff]
  | not f ih => cases g <;> simp [sameBy, bare, hasNaN, ih]
  | join k fs ih =>
    have hall : ∀ gs, sameAll lenient fs gs = true ↔
        fs.map bare = gs.map bare ∧ (lenient = false → fs.any hasNaN = false) :=
      fun _ => sameAll_iff fun f hf _ => ih f hf
    cases k <;> cases g <;>
      simp [Connective.join, sameBy, bare, hasNaN, bareAll_eq_map, anyNaN_eq_any, hall]
  | external s c ps f ih =>
    cases g with
    | external t d qs g =>
      simp only [sameBy, bare, hasNaN, Bool.and_eq_true, beq_iff_eq, Bool.or_eq_false_iff,
        external.injEq, imp_and, Param.sameAll_iff, ih]
      constructor
      · rintro ⟨⟨⟨hs, hc⟩, hps, hpn⟩, hf, hfn⟩
        exact ⟨⟨hs, hc, hps, hf⟩, hpn, hfn⟩
      · rintro ⟨⟨hs, hc, hps, hf⟩, hpn, hfn⟩
        exact ⟨⟨⟨hs, hc⟩, hps, hpn⟩, hf, hfn⟩
    | _ => simp [sameBy, bare]
  | compute v o w =>
    cases g with
    | compute v' o' w' =>
      simp only [sameBy, bare, hasNaN, Bool.and_eq_true, beq_iff_eq, Bool.or_eq_false_iff,
        compute.injEq, imp_and, Value.sameBy_iff]
      constructor
      · rintro ⟨⟨⟨hv, hvn⟩, ho⟩, hw, hwn⟩
        exact ⟨⟨hv, ho, hw⟩, hvn, hwn⟩
      · rintro ⟨⟨hv, ho, hw⟩, hvn, hwn⟩
        exact ⟨⟨⟨hv, hvn⟩, ho⟩, hw, hwn⟩
    | _ => simp [sameBy, bare]

end

theorem same_iff {f g : Filter} : f.same g = true ↔ f.bare = g.bare ∧ f.hasNaN = false := by
  simp [same, sameBy_iff]

theorem restates_iff {f g : Filter} : f.restates g = true ↔ f.bare = g.bare := by
  simp [restates, sameBy_iff]

theorem restates_self (f : Filter) : f.restates f = true :=
  restates_iff.mpr rfl

theorem restates_of_same {f g : Filter} (h : f.same g = true) : f.restates g = true :=
  restates_iff.mpr (same_iff.mp h).1

theorem same_trans {f g h : Filter} (hfg : f.same g = true) (hgh : g.same h = true) :
    f.same h = true := by
  obtain ⟨hb, hn⟩ := same_iff.mp hfg
  exact same_iff.mpr ⟨hb.trans (same_iff.mp hgh).1, hn⟩

end Filter

end Colloquy
