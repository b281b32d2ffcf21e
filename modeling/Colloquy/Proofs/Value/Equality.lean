import Colloquy.Value.Basic

namespace Colloquy

namespace Double

/-- The number without the sign of a zero. -/
def bare (x : Double) : Double :=
  if x.magnitude = 0 then zero false else x

theorem toNat_bits (x : Double) :
    x.bits.toNat = x.magnitude + if x.isNegative then 9223372036854775808 else 0 := by
  have hb := x.bits.toNat_lt
  have hp : Nat.pow 2 63 = 9223372036854775808 := rfl
  simp only [magnitude, isNegative, hp, decide_eq_true_eq]
  split <;> omega

theorem magnitude_eq_natAbs_key (x : Double) : x.magnitude = x.key.natAbs := by
  unfold key
  split <;> simp

theorem isNaN_eq_of_key_eq {x y : Double} (h : x.key = y.key) : x.isNaN = y.isNaN := by
  simp only [isNaN, magnitude_eq_natAbs_key, h]

/-- The key determines the bits, but for zeros. -/
theorem eq_of_key_eq {x y : Double} (hx : x.magnitude ≠ 0) (h : x.key = y.key) : x = y := by
  have hm : x.magnitude = y.magnitude := by simp only [magnitude_eq_natAbs_key, h]
  have hs : x.isNegative = y.isNegative := by
    unfold key at h
    cases hxn : x.isNegative <;> cases hyn : y.isNegative <;> simp [hxn, hyn] at h ⊢ <;> omega
  have hb : x.bits.toNat = y.bits.toNat := by rw [toNat_bits, toNat_bits, hm, hs]
  cases x
  cases y
  exact congrArg Double.mk (UInt64.toNat.inj hb)

@[simp] theorem key_bare (x : Double) : x.bare.key = x.key := by
  unfold bare
  split
  next h =>
    have hk : x.key.natAbs = 0 := by rw [← magnitude_eq_natAbs_key, h]
    have hz : (zero false).key = 0 := by decide
    omega
  next => rfl

theorem bare_eq_iff {x y : Double} : x.bare = y.bare ↔ x.key = y.key := by
  constructor
  · intro h
    rw [← key_bare x, h, key_bare]
  · intro h
    have hm : x.magnitude = y.magnitude := by simp only [magnitude_eq_natAbs_key, h]
    unfold bare
    by_cases hx : x.magnitude = 0
    · rw [if_pos hx, if_pos (hm ▸ hx)]
    · rw [if_neg hx, if_neg (hm ▸ hx), eq_of_key_eq hx h]

@[simp] theorem bare_bare (x : Double) : x.bare.bare = x.bare :=
  bare_eq_iff.mpr (key_bare x)

@[simp] theorem isNaN_bare (x : Double) : x.bare.isNaN = x.isNaN :=
  isNaN_eq_of_key_eq (key_bare x)

@[simp] theorem same_bare (x y : Double) : x.bare.same y.bare = x.same y := by
  simp only [same, isNaN_bare, key_bare]

@[simp] theorem le_bare (x y : Double) : x.bare.le y.bare = x.le y := by
  simp only [le, isNaN_bare, key_bare]

theorem same_iff {x y : Double} : x.same y = true ↔ x.bare = y.bare ∧ x.isNaN = false := by
  rw [bare_eq_iff]
  constructor
  · intro h
    simp only [same, Bool.and_eq_true, Bool.not_eq_true', beq_iff_eq] at h
    exact ⟨h.2, h.1.1⟩
  · rintro ⟨hk, hx⟩
    have hy : y.isNaN = false := by rw [← isNaN_eq_of_key_eq hk, hx]
    simp [same, hx, hy, hk]

@[simp] theorem sameBy_false (x y : Double) : x.sameBy false y = x.same y := by
  simp [sameBy]

theorem sameBy_iff {lenient : Bool} {x y : Double} :
    x.sameBy lenient y = true ↔ x.bare = y.bare ∧ (lenient = false → x.isNaN = false) := by
  cases lenient with
  | false => simp [sameBy, same_iff]
  | true =>
    simp only [sameBy, Bool.true_and, Bool.or_eq_true, beq_iff_eq, same_iff]
    constructor
    · rintro (⟨hb, _⟩ | rfl)
      · exact ⟨hb, nofun⟩
      · exact ⟨rfl, nofun⟩
    · rintro ⟨hb, _⟩
      by_cases hx : x.magnitude = 0
      · have hn : x.isNaN = false := by simp [isNaN, hx]
        exact Or.inl ⟨hb, hn⟩
      · exact Or.inr (eq_of_key_eq hx (bare_eq_iff.mp hb))

end Double

namespace Data

mutual

def bare : Data → Data
  | real x => real x.bare
  | list items => list (bareItems items)
  | record fields => record (bareFields fields)
  | d => d

def bareItems : List Data → List Data
  | [] => []
  | d :: rest => bare d :: bareItems rest

def bareFields : List (String × Data) → List (String × Data)
  | [] => []
  | (name, d) :: rest => (name, bare d) :: bareFields rest

end

mutual

def hasNaN : Data → Bool
  | real x => x.isNaN
  | list items => itemsHaveNaN items
  | record fields => fieldsHaveNaN fields
  | _ => false

def itemsHaveNaN : List Data → Bool
  | [] => false
  | d :: rest => hasNaN d || itemsHaveNaN rest

def fieldsHaveNaN : List (String × Data) → Bool
  | [] => false
  | (_, d) :: rest => hasNaN d || fieldsHaveNaN rest

end

mutual

theorem bare_bare : ∀ d : Data, d.bare.bare = d.bare
  | real x => by simp [bare]
  | list items => by simp [bare, bareItems_bareItems items]
  | record fields => by simp [bare, bareFields_bareFields fields]
  | null => rfl
  | flag _ => rfl
  | int _ => rfl
  | text _ => rfl

theorem bareItems_bareItems : ∀ ds : List Data, bareItems (bareItems ds) = bareItems ds
  | [] => rfl
  | d :: rest => by simp [bareItems, bare_bare d, bareItems_bareItems rest]

theorem bareFields_bareFields :
    ∀ ds : List (String × Data), bareFields (bareFields ds) = bareFields ds
  | [] => rfl
  | (_, d) :: rest => by simp [bareFields, bare_bare d, bareFields_bareFields rest]

end

mutual

theorem hasNaN_bare : ∀ d : Data, d.bare.hasNaN = d.hasNaN
  | real x => by simp [bare, hasNaN]
  | list items => by simp [bare, hasNaN, itemsHaveNaN_bare items]
  | record fields => by simp [bare, hasNaN, fieldsHaveNaN_bare fields]
  | null => rfl
  | flag _ => rfl
  | int _ => rfl
  | text _ => rfl

theorem itemsHaveNaN_bare : ∀ ds : List Data, itemsHaveNaN (bareItems ds) = itemsHaveNaN ds
  | [] => rfl
  | d :: rest => by simp [bareItems, itemsHaveNaN, hasNaN_bare d, itemsHaveNaN_bare rest]

theorem fieldsHaveNaN_bare :
    ∀ ds : List (String × Data), fieldsHaveNaN (bareFields ds) = fieldsHaveNaN ds
  | [] => rfl
  | (_, d) :: rest => by simp [bareFields, fieldsHaveNaN, hasNaN_bare d, fieldsHaveNaN_bare rest]

end

mutual

theorem sameBy_iff {lenient : Bool} {c d : Data} :
    c.sameBy lenient d = true ↔ c.bare = d.bare ∧ (lenient = false → c.hasNaN = false) := by
  cases c <;> cases d <;>
    simp [sameBy, bare, hasNaN, Double.sameBy_iff, sameItems_iff, sameFields_iff]

theorem sameItems_iff {lenient : Bool} : ∀ {cs ds : List Data},
    sameItems lenient cs ds = true ↔
      bareItems cs = bareItems ds ∧ (lenient = false → itemsHaveNaN cs = false)
  | [], [] => by simp [sameItems, bareItems, itemsHaveNaN]
  | [], _ :: _ => by simp [sameItems, bareItems]
  | _ :: _, [] => by simp [sameItems, bareItems]
  | c :: cs, d :: ds => by
    simp only [sameItems, bareItems, itemsHaveNaN, Bool.and_eq_true, Bool.or_eq_false_iff,
      List.cons.injEq, imp_and, @sameBy_iff lenient c d, @sameItems_iff lenient cs ds]
    exact and_and_and_comm

theorem sameFields_iff {lenient : Bool} : ∀ {cs ds : List (String × Data)},
    sameFields lenient cs ds = true ↔
      bareFields cs = bareFields ds ∧ (lenient = false → fieldsHaveNaN cs = false)
  | [], [] => by simp [sameFields, bareFields, fieldsHaveNaN]
  | [], _ :: _ => by simp [sameFields, bareFields]
  | _ :: _, [] => by simp [sameFields, bareFields]
  | (m, c) :: cs, (n, d) :: ds => by
    simp only [sameFields, bareFields, fieldsHaveNaN, Bool.and_eq_true, Bool.or_eq_false_iff,
      List.cons.injEq, Prod.mk.injEq, beq_iff_eq, imp_and, ← and_assoc (a := m = n),
      @sameBy_iff lenient c d, @sameFields_iff lenient cs ds]
    exact and_and_and_comm

end

end Data

namespace Value

mutual

/-- The value without its labels and the signs of its zeros. -/
def bare : Value → Value
  | number x => number x.bare
  | entity id kind _ => entity id kind .null
  | currency x code => currency x.bare code.bare
  | measure x unit => measure x.bare unit
  | location x y _ => location x.bare y.bare .null
  | array items => array (bareItems items)
  | v => v

def bareItems : List Value → List Value
  | [] => []
  | v :: rest => bare v :: bareItems rest

end

mutual

/-- Whether a number that equality looks at is none. -/
def hasNaN : Value → Bool
  | number x => x.isNaN
  | currency x code => x.isNaN || code.hasNaN
  | measure x _ => x.isNaN
  | location x y _ => x.isNaN || y.isNaN
  | array items => itemsHaveNaN items
  | _ => false

def itemsHaveNaN : List Value → Bool
  | [] => false
  | v :: rest => hasNaN v || itemsHaveNaN rest

end

theorem bareItems_eq_map (vs : List Value) : bareItems vs = vs.map bare := by
  induction vs with
  | nil => rfl
  | cons v rest ih => simp [bareItems, ih]

mutual

@[simp] theorem bare_bare : ∀ v : Value, v.bare.bare = v.bare
  | array items => by simp [bare, bareItems_bareItems items]
  | number x => by simp [bare]
  | currency x code => by simp [bare, Data.bare_bare]
  | measure x _ => by simp [bare]
  | location x y _ => by simp [bare]
  | string _ => rfl
  | boolean _ => rfl
  | enum _ => rfl
  | entity _ _ _ => rfl
  | date _ => rfl
  | varRef _ => rfl
  | undefined _ => rfl

theorem bareItems_bareItems : ∀ vs : List Value, bareItems (bareItems vs) = bareItems vs
  | [] => rfl
  | v :: rest => by simp [bareItems, bare_bare v, bareItems_bareItems rest]

end

mutual

@[simp] theorem hasNaN_bare : ∀ v : Value, v.bare.hasNaN = v.hasNaN
  | array items => by simp [bare, hasNaN, itemsHaveNaN_bare items]
  | number x => by simp [bare, hasNaN]
  | currency x code => by simp [bare, hasNaN, Data.hasNaN_bare]
  | measure x _ => by simp [bare, hasNaN]
  | location x y _ => by simp [bare, hasNaN]
  | string _ => rfl
  | boolean _ => rfl
  | enum _ => rfl
  | entity _ _ _ => rfl
  | date _ => rfl
  | varRef _ => rfl
  | undefined _ => rfl

theorem itemsHaveNaN_bare : ∀ vs : List Value, itemsHaveNaN (bareItems vs) = itemsHaveNaN vs
  | [] => rfl
  | v :: rest => by simp [bareItems, itemsHaveNaN, hasNaN_bare v, itemsHaveNaN_bare rest]

end

mutual

/-- Equality of values is equality of bare values, apart from numbers that are none. -/
theorem sameBy_iff {lenient : Bool} {v w : Value} :
    v.sameBy lenient w = true ↔ v.bare = w.bare ∧ (lenient = false → v.hasNaN = false) := by
  cases v <;> cases w <;>
    simp [sameBy, bare, hasNaN, Double.sameBy_iff, Data.sameBy_iff, sameItems_iff, imp_and]
  case currency.currency => exact and_and_and_comm
  case measure.measure => exact and_right_comm
  case location.location => exact and_and_and_comm

theorem sameItems_iff {lenient : Bool} : ∀ {vs ws : List Value},
    sameItems lenient vs ws = true ↔
      bareItems vs = bareItems ws ∧ (lenient = false → itemsHaveNaN vs = false)
  | [], [] => by simp [sameItems, bareItems, itemsHaveNaN]
  | [], _ :: _ => by simp [sameItems, bareItems]
  | _ :: _, [] => by simp [sameItems, bareItems]
  | v :: vs, w :: ws => by
    simp only [sameItems, bareItems, itemsHaveNaN, Bool.and_eq_true, Bool.or_eq_false_iff,
      List.cons.injEq, imp_and, @sameBy_iff lenient v w, @sameItems_iff lenient vs ws]
    exact and_and_and_comm

end

theorem same_iff {v w : Value} : v.same w = true ↔ v.bare = w.bare ∧ v.hasNaN = false := by
  simp [same, sameBy_iff]

theorem hasNaN_eq_of_bare_eq {v w : Value} (h : v.bare = w.bare) : v.hasNaN = w.hasNaN := by
  rw [← hasNaN_bare v, h, hasNaN_bare]

theorem same_symm {v w : Value} (h : v.same w = true) : w.same v = true := by
  obtain ⟨hb, hn⟩ := same_iff.mp h
  exact same_iff.mpr ⟨hb.symm, by rw [← hasNaN_eq_of_bare_eq hb, hn]⟩

theorem same_comm (v w : Value) : v.same w = w.same v :=
  Bool.eq_iff_iff.mpr ⟨same_symm, same_symm⟩

theorem same_congr_right {v w : Value} (u : Value) (h : v.bare = w.bare) : u.same v = u.same w :=
  Bool.eq_iff_iff.mpr (by rw [same_iff, same_iff, h])

theorem same_congr_left {v w : Value} (u : Value) (h : v.bare = w.bare) : v.same u = w.same u := by
  rw [same_comm v, same_comm w, same_congr_right u h]

theorem same_trans {u v w : Value} (h : u.same v = true) (h' : v.same w = true) :
    u.same w = true := by
  rwa [← same_congr_right u (same_iff.mp h').1]

theorem same_self_iff {v : Value} : v.same v = true ↔ v.hasNaN = false := by
  simp [same_iff]

theorem isIn_congr {v w : Value} (values : List Value) (h : v.bare = w.bare) :
    v.isIn values = w.isIn values := by
  unfold isIn
  congr 1
  funext u
  exact same_congr_left u h

/-- One value, or equal ones. -/
def Alike (v w : Value) : Prop :=
  v = w ∨ v.same w = true

theorem Alike.refl (v : Value) : v.Alike v :=
  Or.inl rfl

theorem Alike.symm {v w : Value} (h : v.Alike w) : w.Alike v :=
  h.imp Eq.symm same_symm

theorem Alike.bare_eq {v w : Value} (h : v.Alike w) : v.bare = w.bare := by
  rcases h with rfl | h
  · rfl
  · exact (same_iff.mp h).1

theorem Alike.trans {u v w : Value} (h : u.Alike v) (h' : v.Alike w) : u.Alike w := by
  rcases h with rfl | h
  · exact h'
  · rcases h' with rfl | h'
    · exact Or.inr h
    · exact Or.inr (same_trans h h')

end Value

end Colloquy
