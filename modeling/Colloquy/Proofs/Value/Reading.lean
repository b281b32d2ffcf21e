import Colloquy.Proofs.Date
import Colloquy.Exchange.Stop
import Colloquy.Proofs.Value.Constant
import Colloquy.Value.Reading
import Mathlib.Data.List.Forall2

namespace Colloquy.Value

mutual

/-- A constant as data: a record where it has a label or a currency, and what it denotes elsewhere.
Placeholders have no such form. -/
def toData : Value → Data
  | string s => .text s
  | number x => .real x
  | boolean b => .flag b
  | enum entry => .text entry
  | entity id _ label => .record [("value", .text id), ("display", label)]
  | currency x code => .record [("value", .real x), ("code", code)]
  | measure x _ => .real x
  | date d => .text d.text
  | location x y label =>
    .record [("latitude", .real x), ("longitude", .real y), ("display", label)]
  | array items => .list (itemsToData items)
  | varRef _ => .null
  | undefined _ => .null

def itemsToData : List Value → List Data
  | [] => []
  | v :: rest => toData v :: itemsToData rest

end

theorem itemsToData_eq_map (vs : List Value) : itemsToData vs = vs.map toData := by
  induction vs with
  | nil => rfl
  | cons v rest ih => simp [itemsToData, ih]

variable {v : Value} {ty elem : Ty} {data : Data}

theorem readItems_eq_ok_iff {reader : Data → Except ReadError Value} {items : List Data}
    {vs : List Value} :
    readItems reader items = .ok vs ↔ List.Forall₂ (fun d v => reader d = .ok v) items vs := by
  induction items generalizing vs with
  | nil => simp [readItems, eq_comm]
  | cons d rest ih =>
    rw [readItems, List.forall₂_cons_left_iff]
    cases hd : reader d with
    | error e => simp
    | ok v =>
      simp only [map_eq_ok_iff, ih, Except.ok.injEq]
      constructor
      · rintro ⟨ws, hws, rfl⟩
        exact ⟨v, ws, rfl, hws, rfl⟩
      · rintro ⟨_, ws, rfl, hws, rfl⟩
        exact ⟨ws, hws, rfl⟩

theorem ofData_array_eq_ok_iff :
    ofData (.array elem) data = .ok v ↔
      ∃ items vs, data = .list items ∧ v = array vs ∧
        List.Forall₂ (fun d w => ofData elem d = .ok w) items vs := by
  cases data with
  | list items =>
    simp only [ofData, map_eq_ok_iff, readItems_eq_ok_iff]
    constructor
    · rintro ⟨vs, hvs, rfl⟩
      exact ⟨items, vs, rfl, rfl, hvs⟩
    · rintro ⟨_, vs, ⟨⟩, rfl, hvs⟩
      exact ⟨vs, hvs, rfl⟩
  | _ => simp [ofData]

section Scalars

theorem exists_entity_of_read {kind : String} (h : readEntity kind data = .ok v) :
    ∃ id label, v = entity id kind label := by
  unfold readEntity at h
  split at h
  next =>
    obtain ⟨id, _, h⟩ := bind_eq_ok_iff.mp h
    exact ⟨_, _, (Except.ok.inj h).symm⟩
  next => exact ⟨_, _, (Except.ok.inj h).symm⟩

theorem exists_currency_of_read (h : readCurrency data = .ok v) :
    ∃ amount code, v = currency amount code := by
  unfold readCurrency at h
  split at h
  next =>
    obtain ⟨found, _, h⟩ := bind_eq_ok_iff.mp h
    obtain ⟨amount, _, h⟩ := bind_eq_ok_iff.mp h
    exact ⟨_, _, (Except.ok.inj h).symm⟩
  next =>
    obtain ⟨amount, _, h⟩ := map_eq_ok_iff.mp h
    exact ⟨_, _, h.symm⟩

theorem exists_location_of_readPair {items : List Data} (h : readPair items = .ok v) :
    ∃ x y label, v = location x y label := by
  unfold readPair at h
  split at h
  next =>
    obtain ⟨latitude, _, h⟩ := bind_eq_ok_iff.mp h
    obtain ⟨longitude, _, h⟩ := bind_eq_ok_iff.mp h
    exact ⟨_, _, _, (Except.ok.inj h).symm⟩
  next => cases h

theorem exists_location_of_read (h : readLocation data = .ok v) :
    ∃ x y label, v = location x y label := by
  unfold readLocation at h
  split at h
  next =>
    obtain ⟨first, _, h⟩ := bind_eq_ok_iff.mp h
    obtain ⟨latitude, _, h⟩ := bind_eq_ok_iff.mp h
    obtain ⟨second, _, h⟩ := bind_eq_ok_iff.mp h
    obtain ⟨longitude, _, h⟩ := bind_eq_ok_iff.mp h
    exact ⟨_, _, _, (Except.ok.inj h).symm⟩
  next => exact exists_location_of_readPair h
  next => exact exists_location_of_readPair h
  next => cases h

theorem constant_of_readScalar (h : readScalar ty data = .ok v) :
    v.isGround = true ∧ ty.accepts v.ty = true := by
  cases ty with
  | string | boolean =>
    cases h
    exact ⟨rfl, rfl⟩
  | number =>
    obtain ⟨x, _, rfl⟩ := map_eq_ok_iff.mp h
    exact ⟨rfl, rfl⟩
  | measure unit =>
    obtain ⟨x, _, rfl⟩ := map_eq_ok_iff.mp h
    exact ⟨rfl, Ty.accepts_self _⟩
  | currency =>
    obtain ⟨x, code, rfl⟩ := exists_currency_of_read h
    exact ⟨rfl, rfl⟩
  | entity kind =>
    obtain ⟨id, label, rfl⟩ := exists_entity_of_read h
    exact ⟨rfl, Ty.accepts_self _⟩
  | location =>
    obtain ⟨x, y, label, rfl⟩ := exists_location_of_read h
    exact ⟨rfl, rfl⟩
  | date =>
    simp only [readScalar] at h
    split at h
    next =>
      cases h
      exact ⟨rfl, rfl⟩
    next => cases h
  | enum entries =>
    simp only [readScalar] at h
    split at h
    next =>
      split at h
      next hentry =>
        cases h
        exact ⟨rfl, by simpa [Ty.accepts, Value.ty] using hentry⟩
      next => cases h
    next => cases h
  | any | time | array _ => cases h

end Scalars

theorem isConstantOf_of_ofData (h : ofData ty data = .ok v) : v.IsConstantOf ty := by
  induction ty generalizing data v with
  | array elem ih =>
    obtain ⟨items, vs, _, rfl, hread⟩ := ofData_array_eq_ok_iff.mp h
    refine isConstantOf_array_iff.mpr fun w hw => ?_
    obtain ⟨i, hi, rfl⟩ := List.mem_iff_getElem.mp hw
    exact ih (hread.get (hread.length_eq ▸ hi) hi)
  | _ => exact (isConstantOf_iff_of_not_array rfl).mpr (constant_of_readScalar h)

/-- Where the type of a constant is all that there is to it, the constant is read at its type. -/
theorem ofData_ty_toData (hv : v.isGround = true) (harray : v.ty.isArray = false)
    (henum : v.ty.isEnum = false) : ofData v.ty v.toData = .ok v := by
  cases v with
  | array items => cases items <;> cases harray
  | enum entry => cases henum
  | varRef _ | undefined _ => cases hv
  | date d => simp [ty, toData, ofData, readScalar, Data.asText, Date.ofText?_text]
  | _ => rfl

theorem ofData_toData (hty : ty.hasAny = false) (h : v.IsConstantOf ty) :
    ofData ty v.toData = .ok v := by
  obtain ⟨hv, hof⟩ := isConstantOf_iff_isOf.mp h
  induction ty generalizing v with
  | any => cases hty
  | array elem ih =>
    obtain ⟨items, rfl, hitems⟩ := exists_items_of_isOf hv hof
    refine ofData_array_eq_ok_iff.mpr ⟨items.map toData, items, ?_, rfl, ?_⟩
    · rw [toData, itemsToData_eq_map]
    · rw [List.forall₂_map_left_iff, List.forall₂_same]
      intro item hitem
      have hconstant := isConstantOf_array_iff.mp h item hitem
      exact ih hty hconstant hconstant.isGround (hitems item hitem)
  | enum entries =>
    obtain ⟨entry, rfl⟩ := exists_entry_of_isOf hv hof
    have hentry : entries.contains entry = true := by
      simpa [Ty.accepts, Value.ty] using h.accepts
    simp only [ofData, readScalar, toData, hentry, if_true]
  | _ =>
    have hvty := ty_eq_of_isOf hv hof (by simp) rfl rfl
    rw [← hvty]
    exact ofData_ty_toData hv (by rw [hvty]; rfl) (by rw [hvty]; rfl)

/-- What is read at a type is a constant of it all the way down. Where the type leaves nothing open, each
constant of it can be read. -/
theorem ofData_reads_constants (ty : Ty) :
    (∀ data v, ofData ty data = .ok v → v.IsConstantOf ty) ∧
      (ty.hasAny = false → ∀ v : Value, v.IsConstantOf ty → ofData ty v.toData = .ok v) :=
  ⟨fun _ _ => isConstantOf_of_ofData, fun hty _ => ofData_toData hty⟩

theorem ofData_reads_constants_prices :
    let ty := Ty.array (.array (.enum ["cheap", "moderate"]))
    let data := Data.list [.list [.text "cheap"], .list [], .list [.text "moderate", .text "cheap"]]
    let prices := array [array [enum "cheap"], array [], array [enum "moderate", enum "cheap"]]
    ofData ty data = .ok prices ∧ prices.IsConstantOf ty ∧ ty.hasAny = false ∧
      ofData ty prices.toData = .ok prices := by
  intro ty data prices
  have hread : ofData ty data = .ok prices := rfl
  have hconstant : prices.IsConstantOf ty := (ofData_reads_constants ty).1 data prices hread
  exact ⟨hread, hconstant, rfl, (ofData_reads_constants ty).2 rfl prices hconstant⟩

end Colloquy.Value
