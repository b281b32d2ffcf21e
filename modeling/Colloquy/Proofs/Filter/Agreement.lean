import Colloquy.Proofs.Filter.Typing
import Colloquy.Proofs.Value.Kind

namespace Colloquy

/-- A row of constants in output fields, each of a type that the declared one accepts. -/
def Row.IsTyped (s : Signature) (row : Row) : Prop :=
  ∀ name v, row.get? name = some v → v.isGround = true ∧
    ∃ argument, s.argument? name = some argument ∧ argument.isInput = false ∧
      argument.ty.accepts v.ty = true

theorem Row.IsTyped.fits {s : Signature} {row : Row} (h : row.IsTyped s) : row.Fits s := by
  intro name v hv
  obtain ⟨hground, argument, hargument, hinput, hty⟩ := h name v hv
  exact ⟨hground, argument, hargument, hinput, Or.inl hty⟩

namespace Filter

variable {s : Signature} {row : Row} {bag : SlotBag} {a : Atom} {f : Filter}

theorem testRow_eq_testBag (hop : a.op.family = .equality) (hv : a.value.isGround = true)
    (hrow : row.IsTyped s) (hbag : bag.get? a.field = row.get? a.field)
    (ha : ∀ found, row.get? a.field = some found → ¬ found.PassesFor a.value) :
    testRow row a = testBag bag a := by
  unfold testRow testBag
  rw [hbag, hop]
  cases hfound : row.get? a.field with
  | none => rfl
  | some found =>
    obtain ⟨p, hp⟩ := (Value.exists_plain_iff found).mpr (hrow a.field found hfound).1
    obtain ⟨q, hq⟩ := (Value.exists_plain_iff a.value).mpr hv
    have hsame : p.same q = a.value.same found := by
      rw [Value.plain_same_eq_same hp hq (ha found hfound), Value.same_comm]
    simp [comparePlain, hp, hq, hsame, bind, Except.bind]

/-- The check lets a value through that is not of the type of the field only within arrays, and where a
text is compared with an entity. -/
theorem isOf_of_fits {ty : Ty} (hop : a.op.family = .equality) (harray : ty.isArray = false)
    (h : Atom.fits a.op ty a.value = true) :
    a.value.isOf ty = true ∨
      a.op = .like ∧ ty.isEntity = true ∧ a.value.ty.isString = true := by
  rw [Value.isOf_eq_accepts harray]
  cases hlike : a.op with
  | equal =>
    rw [hlike] at h
    exact Or.inl h
  | like =>
    rw [hlike] at h
    cases ty with
    | string => exact Or.inl h
    | entity kind =>
      rcases Bool.or_eq_true_iff.mp h with htext | hentity
      · exact Or.inr ⟨rfl, rfl, htext⟩
      · exact Or.inl hentity
    | _ => cases h
  | _ =>
    rw [hlike] at hop
    cases hop

/-- What a type leaves open of a value found and of the one that an atom asks for: kind or currency, the
elements of arrays, and whether a text stands in the place of an entity. -/
def LeavesOpen (ty : Ty) (found : Value) (a : Atom) : Prop :=
  ty.isTransparent = false ∨
    (ty.isArray = true ∧ (found.isOf ty = false ∨ a.value.isOf ty = false)) ∨
    a.op = .like ∧ ty.isEntity = true ∧ a.value.ty.isString = true

theorem leavesOpen_of_passesFor {found : Value} (ha : a.isWellTyped s = true)
    (hop : a.op.family = .equality) (hv : a.value.isGround = true) (hrow : row.IsTyped s)
    (hfound : row.get? a.field = some found) (hpasses : found.PassesFor a.value) :
    ∃ argument, s.argument? a.field = some argument ∧ LeavesOpen argument.ty found a := by
  obtain ⟨argument, hargument, hfits⟩ := fits_of_isWellTyped ha hv
  obtain ⟨_, declared, hdeclared, _, haccepts⟩ := hrow a.field found hfound
  obtain rfl : argument = declared := Option.some.inj (hargument.symm.trans hdeclared)
  refine ⟨argument, hargument, ?_⟩
  rcases Value.untyped_of_passesFor hpasses argument.ty with hty | huntyped
  · exact Or.inl hty
  · cases harray : argument.ty.isArray with
    | true => exact Or.inr (Or.inl ⟨harray, huntyped⟩)
    | false =>
      -- Outside arrays, a value that the type accepts is of it, so only the text is left.
      rcases isOf_of_fits hop harray hfits with hvalue | htext
      · rw [Value.isOf_eq_accepts harray, haccepts, hvalue] at huntyped
        simp at huntyped
      · exact Or.inr (Or.inr htext)

/-- On the same facts, a well-typed filter that asks for equal values has one verdict for a row and for a
bag, unless the value of a field passes for that of an atom, which the type of the field leaves open. A NaN
is taken to differ from itself in both tests, also if the row, the bag and the atom have it in common, so
an atom that asks for one holds in neither. -/
theorem verdicts_agree (hf : f.isWellTyped s = true)
    (hatoms : ∀ a, atom a ∈ f.slotClauses → a.op.family = .equality ∧ a.value.isGround = true)
    (hrow : row.IsTyped s) (hbag : ∀ name, bag.get? name = row.get? name) :
    (∃ b, f.holdsForRow row = .ok b ∧ f.holdsForBag bag = .ok b) ∨
      ∃ a found, atom a ∈ f.slotClauses ∧ row.get? a.field = some found ∧
        found.PassesFor a.value ∧
        ∃ argument, s.argument? a.field = some argument ∧ LeavesOpen argument.ty found a := by
  by_cases h : ∃ a found, atom a ∈ f.slotClauses ∧ row.get? a.field = some found ∧
      found.PassesFor a.value
  · obtain ⟨a, found, ha, hfound, hpasses⟩ := h
    obtain ⟨hop, hv⟩ := hatoms a ha
    have hwell : (atom a).isWellTyped s = true :=
      (isInherited_isWellTyped s).of_mem_slotClauses hf ha
    exact Or.inr ⟨a, found, ha, hfound, hpasses,
      leavesOpen_of_passesFor hwell hop hv hrow hfound hpasses⟩
  · obtain ⟨b, hb⟩ : ∃ b, f.holdsForRow row = .ok b :=
      verdict_ok_of_atoms fun a ha => testRow_ok (hatoms a ha).2 hrow.fits
    have htests : f.holdsForRow row = f.holdsForBag bag := by
      refine verdict_congr fun a ha => ?_
      obtain ⟨hop, hv⟩ := hatoms a ha
      exact testRow_eq_testBag hop hv hrow (hbag a.field) fun found hfound hpasses =>
        h ⟨a, found, ha, hfound, hpasses⟩
    exact Or.inl ⟨b, hb, htests ▸ hb⟩

/-- Parcels at a fee in euros that are not due on the last of March. -/
def euroFee : Filter :=
  .and [.atom ⟨"fee", .equal, .currency (.ofInt 15) (.text "eur")⟩,
    .not (.atom ⟨"due", .equal, .date ⟨2024, 3, 31, rfl⟩⟩)]

theorem isTyped_dueParcel : dueParcel.IsTyped parcels := by
  intro name v hv
  have hmem := Entries.mem_of_get?_eq_some hv
  simp only [dueParcel, List.mem_cons, List.not_mem_nil, or_false, Prod.mk.injEq] at hmem
  rcases hmem with ⟨rfl, rfl⟩ | ⟨rfl, rfl⟩ | ⟨rfl, rfl⟩ | ⟨rfl, rfl⟩ <;>
    exact ⟨rfl, _, rfl, rfl, by decide⟩

theorem verdicts_agree_parcels :
    euroFee.isWellTyped parcels = true ∧
      (∀ a, atom a ∈ euroFee.slotClauses →
        a.op.family = .equality ∧ a.value.isGround = true) ∧
      dueParcel.IsTyped parcels ∧
      ∃ b, euroFee.holdsForRow dueParcel = .ok b ∧
        euroFee.holdsForBag ⟨some parcels, dueParcel⟩ = .ok b := by
  have hf : euroFee.isWellTyped parcels = true := by decide
  have hatoms : ∀ a, atom a ∈ euroFee.slotClauses →
      a.op.family = .equality ∧ a.value.isGround = true := by
    simp [euroFee, slotClauses, slotClausesAll, Operator.family, Value.isGround]
  have hbag : ∀ name, SlotBag.get? ⟨some parcels, dueParcel⟩ name = dueParcel.get? name :=
    fun _ => rfl
  refine ⟨hf, hatoms, isTyped_dueParcel, ?_⟩
  rcases verdicts_agree hf hatoms isTyped_dueParcel hbag with
    h | ⟨a, found, ha, hfound, ⟨hne, p, q, hp, hq, hpq⟩, _⟩
  · exact h
  · have hatom : a = ⟨"fee", .equal, .currency (.ofInt 15) (.text "eur")⟩ ∨
        a = ⟨"due", .equal, .date ⟨2024, 3, 31, rfl⟩⟩ := by
      simpa [euroFee, slotClauses, slotClausesAll] using ha
    rcases hatom with rfl | rfl
    · -- The fee found is the amount that is asked for.
      cases hfound
      cases hne
    · -- The days are different.
      cases hfound
      cases hp
      cases hq
      cases hpq

/-- An amount in dollars is not the amount in euros that the parcel shows, and the row passes it. -/
theorem verdicts_differ :
    let dollarFee := atom ⟨"fee", .equal, .currency (.ofInt 15) Value.defaultCode⟩
    dollarFee.isWellTyped parcels = true ∧ dueParcel.IsTyped parcels ∧
      dollarFee.holdsForRow dueParcel = .ok true ∧
      dollarFee.holdsForBag ⟨some parcels, dueParcel⟩ = .ok false := by
  intro dollarFee
  exact ⟨by decide, isTyped_dueParcel, by rfl, by rfl⟩

end Filter

end Colloquy
