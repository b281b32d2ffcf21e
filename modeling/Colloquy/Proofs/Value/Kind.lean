import Colloquy.Proofs.Ty.Acceptance
import Colloquy.Proofs.Value.Denotation
import Colloquy.Proofs.Value.Ground

namespace Colloquy

namespace Ty

/-- Whether a type settles what its values do not denote, their kind and their currency. -/
def isTransparent : Ty → Bool
  | any => false
  | currency => false
  | array elem => elem.isTransparent
  | _ => true

end Ty

namespace Value

mutual

/-- Whether a value is of a type all the way down. The type of an array as such is read off its first
element alone. -/
def isOf : Value → Ty → Bool
  | array items, ty =>
    match ty with
    | .array elem => allOf items elem
    | _ => ty.accepts (array items).ty
  | v, ty => ty.accepts v.ty

def allOf : List Value → Ty → Bool
  | [], _ => true
  | v :: rest, ty => isOf v ty && allOf rest ty

end

theorem allOf_iff {vs : List Value} {ty : Ty} :
    allOf vs ty = true ↔ ∀ v ∈ vs, v.isOf ty = true := by
  induction vs with
  | nil => simp [allOf]
  | cons v rest ih => simp [allOf, ih]

theorem items?_of_ty {v : Value} (h : v.ty.isArray = false) : v.items? = none := by
  cases v with
  | array items => cases items <;> cases h
  | _ => rfl

theorem exists_items_of_accepts {v : Value} {elem : Ty} (hv : v.isConstant = true)
    (h : (Ty.array elem).accepts v.ty = true) : ∃ items, v = array items := by
  cases v with
  | array items => exact ⟨items, rfl⟩
  | varRef _ | undefined _ => cases hv
  | _ => cases h

theorem exists_items_of_isOf {v : Value} {elem : Ty} (hg : v.isGround = true)
    (h : v.isOf (.array elem) = true) :
    ∃ items, v = array items ∧ ∀ item ∈ items, item.isOf elem = true := by
  cases v with
  | array items => exact ⟨items, rfl, allOf_iff.mp h⟩
  | varRef _ | undefined _ => cases hg
  | _ => cases h

theorem exists_entry_of_isOf {v : Value} {entries : List String} (hg : v.isGround = true)
    (h : v.isOf (.enum entries) = true) : ∃ entry, v = enum entry := by
  cases v with
  | enum entry => exact ⟨entry, rfl⟩
  | varRef _ | undefined _ => cases hg
  | array items => cases items <;> cases h
  | _ => cases h

theorem isOf_eq_accepts {v : Value} {ty : Ty} (harray : ty.isArray = false) :
    v.isOf ty = ty.accepts v.ty := by
  cases v with
  | array items =>
    cases ty with
    | array elem => cases harray
    | _ => rfl
  | _ => rfl

theorem ty_eq_of_isOf {v : Value} {ty : Ty} (hg : v.isGround = true) (h : v.isOf ty = true)
    (hany : ty ≠ .any) (harray : ty.isArray = false) (henum : ty.isEnum = false) : v.ty = ty := by
  rw [isOf_eq_accepts harray] at h
  exact Ty.eq_of_accepts hany (ty_ne_any hg) harray henum h

theorem plain_array {items : List Value} {p : Plain} (h : (array items).plain = .ok p) :
    ∃ ps, plains items = .ok ps ∧ p = .list ps := by
  rw [plain] at h
  cases hps : plains items with
  | error e => simp [hps, Except.map] at h
  | ok ps =>
    simp only [hps, Except.map, Except.ok.injEq] at h
    exact ⟨ps, rfl, h.symm⟩

theorem plains_cons {v : Value} {rest : List Value} {ps : List Plain}
    (h : plains (v :: rest) = .ok ps) :
    ∃ q qs, v.plain = .ok q ∧ plains rest = .ok qs ∧ ps = q :: qs := by
  rw [plains] at h
  cases hv : v.plain with
  | error e => simp [hv] at h
  | ok q =>
    cases hrest : plains rest with
    | error e => simp [hv, hrest, Except.map] at h
    | ok qs =>
      simp only [hv, hrest, Except.map, Except.ok.injEq] at h
      exact ⟨q, qs, rfl, rfl, h.symm⟩

mutual

theorem same_self_of_plain : ∀ {v : Value} {p : Plain}, v.plain = .ok p → v.hasNaN = false →
    p.same p = true
  | array items, p, hp, hn => by
    obtain ⟨ps, hps, rfl⟩ := plain_array hp
    exact sameItems_self_of_plains hps hn
  | number x, p, hp, hn | measure x _, p, hp, hn => by
    cases hp
    exact Double.same_iff.mpr ⟨rfl, hn⟩
  | currency x _, p, hp, hn => by
    cases hp
    simp only [hasNaN, Bool.or_eq_false_iff] at hn
    exact Double.same_iff.mpr ⟨rfl, hn.1⟩
  | location x y _, p, hp, hn => by
    cases hp
    simp only [hasNaN, Bool.or_eq_false_iff] at hn
    simp [Plain.same, Double.same_iff, hn]
  | string _, p, hp, _ | boolean _, p, hp, _ | enum _, p, hp, _ | entity _ _ _, p, hp, _
  | date _, p, hp, _ => by
    cases hp
    exact beq_self_eq_true _
  | varRef _, p, hp, _ | undefined _, p, hp, _ => by cases hp

theorem sameItems_self_of_plains : ∀ {vs : List Value} {ps : List Plain}, plains vs = .ok ps →
    itemsHaveNaN vs = false → Plain.sameItems ps ps = true
  | [], ps, hp, _ => by
    cases hp
    rfl
  | v :: rest, ps, hp, hn => by
    obtain ⟨q, qs, hv, hrest, rfl⟩ := plains_cons hp
    rw [itemsHaveNaN, Bool.or_eq_false_iff] at hn
    rw [Plain.sameItems, same_self_of_plain hv hn.1, sameItems_self_of_plains hrest hn.2]
    rfl

end

theorem plain_same_of_same {v w : Value} {p q : Plain} (hp : v.plain = .ok p)
    (hq : w.plain = .ok q) (h : v.same w = true) : p.same q = true := by
  obtain ⟨hbare, hn⟩ := same_iff.mp h
  have hpq : p.bare = q.bare := by
    have hmap := congrArg plain hbare
    rw [plain_bare, plain_bare, hp, hq] at hmap
    exact Except.ok.inj hmap
  rw [← Plain.same_bare, ← hpq, Plain.same_bare]
  exact same_self_of_plain hp hn

/-- Values of one type that are no arrays and no amounts of money denote different things if they are
not equal. -/
theorem same_of_plain_same_of_ty {v w : Value} {p q : Plain} (hp : v.plain = .ok p)
    (hq : w.plain = .ok q) (hty : w.ty = v.ty) (hcurrency : v.ty ≠ .currency)
    (harray : v.ty.isArray = false) (h : p.same q = true) : v.same w = true := by
  have hv : v.items? = none := items?_of_ty harray
  have hw : w.items? = none := items?_of_ty (hty ▸ harray)
  rw [eq_comm] at hp hq
  cases v <;> cases w <;> simp_all [ty, plain, Plain.same, same, sameBy, items?]

theorem sameItems_of_plains_same {vs ws : List Value} {ps qs : List Plain}
    (h : ∀ v ∈ vs, ∀ w ∈ ws, ∀ p q, v.plain = .ok p → w.plain = .ok q → p.same q = true →
      v.same w = true)
    (hps : plains vs = .ok ps) (hqs : plains ws = .ok qs) (hsame : Plain.sameItems ps qs = true) :
    sameItems false vs ws = true := by
  induction vs generalizing ws ps qs with
  | nil =>
    cases hps
    cases ws with
    | nil => rfl
    | cons w ws =>
      obtain ⟨q, qs, _, _, rfl⟩ := plains_cons hqs
      cases hsame
  | cons v vs ih =>
    obtain ⟨p, ps, hp, hrest, rfl⟩ := plains_cons hps
    cases ws with
    | nil =>
      cases hqs
      cases hsame
    | cons w ws =>
      obtain ⟨q, qs, hq, hrest', rfl⟩ := plains_cons hqs
      rw [Plain.sameItems, Bool.and_eq_true] at hsame
      have hhead := h v List.mem_cons_self w List.mem_cons_self p q hp hq hsame.1
      rw [sameItems, ← same, hhead, Bool.true_and]
      refine ih (fun v hv w hw => ?_) hrest hrest' hsame.2
      exact h v (List.mem_cons_of_mem _ hv) w (List.mem_cons_of_mem _ hw)

/-- At a type that settles kind and currency, values that denote the same are equal. -/
theorem same_of_plain_same {v w : Value} {ty : Ty} {p q : Plain} (hty : ty.isTransparent = true)
    (hv : v.isOf ty = true) (hw : w.isOf ty = true) (hp : v.plain = .ok p) (hq : w.plain = .ok q)
    (h : p.same q = true) : v.same w = true := by
  have hvground := (exists_plain_iff v).mp ⟨p, hp⟩
  have hwground := (exists_plain_iff w).mp ⟨q, hq⟩
  induction ty generalizing v w p q with
  | any | currency => cases hty
  | enum entries =>
    obtain ⟨a, rfl⟩ := exists_entry_of_isOf hvground hv
    obtain ⟨b, rfl⟩ := exists_entry_of_isOf hwground hw
    cases hp
    cases hq
    exact h
  | array elem ih =>
    obtain ⟨vs, rfl, hvs⟩ := exists_items_of_isOf hvground hv
    obtain ⟨ws, rfl, hws⟩ := exists_items_of_isOf hwground hw
    obtain ⟨ps, hps, rfl⟩ := plain_array hp
    obtain ⟨qs, hqs, rfl⟩ := plain_array hq
    refine sameItems_of_plains_same ?_ hps hqs h
    intro v hmem w hmem' p q hp hq hsame
    exact ih hty (hvs v hmem) (hws w hmem') hp hq hsame
      ((exists_plain_iff v).mp ⟨p, hp⟩) ((exists_plain_iff w).mp ⟨q, hq⟩)
  | _ =>
    have hvty := ty_eq_of_isOf hvground hv nofun rfl rfl
    have hwty := ty_eq_of_isOf hwground hw nofun rfl rfl
    refine same_of_plain_same_of_ty hp hq (hwty.trans hvty.symm) ?_ ?_ h
    · rw [hvty]
      nofun
    · rw [hvty]
      rfl

/-- One value passes for another if it is not equal to it but denotes the same. -/
def PassesFor (v w : Value) : Prop :=
  v.same w = false ∧ ∃ p q, v.plain = .ok p ∧ w.plain = .ok q ∧ p.same q = true

/-- At a type that settles kind and currency, no value passes for another. -/
theorem untyped_of_passesFor {v w : Value} (h : v.PassesFor w) (ty : Ty) :
    ty.isTransparent = false ∨ v.isOf ty = false ∨ w.isOf ty = false := by
  obtain ⟨hne, p, q, hp, hq, hpq⟩ := h
  cases hty : ty.isTransparent with
  | false => exact Or.inl rfl
  | true =>
    cases hv : v.isOf ty with
    | false => exact Or.inr (Or.inl rfl)
    | true =>
      cases hw : w.isOf ty with
      | false => exact Or.inr (Or.inr rfl)
      | true =>
        rw [same_of_plain_same hty hv hw hp hq hpq] at hne
        cases hne

theorem plain_same_eq_same {v w : Value} {p q : Plain} (hp : v.plain = .ok p)
    (hq : w.plain = .ok q) (h : ¬ v.PassesFor w) : p.same q = v.same w := by
  cases hsame : v.same w with
  | true => exact plain_same_of_same hp hq hsame
  | false =>
    cases hpq : p.same q with
    | false => rfl
    | true => exact absurd ⟨hsame, p, q, hp, hq, hpq⟩ h

end Value

end Colloquy
