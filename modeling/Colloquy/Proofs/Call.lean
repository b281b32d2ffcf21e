import Colloquy.Call
import Colloquy.Proofs.Signature

namespace Colloquy.Call

theorem acceptsParam_iff {s : Signature} {p : Param} :
    acceptsParam s p = true ↔
      ∃ a, s.argument? p.name = some a ∧ a.isInput = true ∧
        (p.value.isConstant = true → a.ty.accepts p.value.ty = true) := by
  unfold acceptsParam
  cases s.argument? p.name with
  | none => simp
  | some a => cases p.value.isConstant <;> simp

theorem checkParams_iff {s : Signature} {seen : List String} {ps : List Param} :
    checkParams s seen ps = true ↔
      (∀ p ∈ ps, p.name ∉ seen) ∧ (ps.map Param.name).Nodup ∧
        ∀ p ∈ ps, acceptsParam s p = true := by
  induction ps generalizing seen with
  | nil => simp [checkParams]
  | cons p ps ih =>
    simp only [checkParams, Bool.and_eq_true, Bool.not_eq_true', List.contains_eq_mem,
      decide_eq_false_iff_not, ih, List.mem_cons, not_or, List.map_cons, List.nodup_cons,
      List.mem_map, forall_eq_or_imp]
    constructor
    · rintro ⟨⟨hp, ha⟩, hseen, hn, hps⟩
      refine ⟨⟨hp, fun q hq => (hseen q hq).2⟩, ⟨?_, hn⟩, ha, hps⟩
      rintro ⟨q, hq, he⟩
      exact (hseen q hq).1 he
    · rintro ⟨⟨hp, hseen⟩, ⟨hnp, hn⟩, ha, hps⟩
      exact ⟨⟨hp, ha⟩, fun q hq => ⟨fun he => hnp ⟨q, hq, he⟩, hseen q hq⟩, hn, hps⟩

theorem isWellTyped_iff {c : Call} :
    c.isWellTyped = true ↔
      (c.params.map Param.name).Nodup ∧ ∀ p ∈ c.params, acceptsParam c.signature p = true := by
  simp [isWellTyped, checkParams_iff]

theorem get?_eq_some_iff {c : Call} (h : (c.params.map Param.name).Nodup) {name : String}
    {v : Value} : c.get? name = some v ↔ ⟨name, v⟩ ∈ c.params := by
  rw [get?, Option.map_eq_some_iff]
  constructor
  · rintro ⟨p, hp, rfl⟩
    obtain ⟨hmem, rfl⟩ := (find?_key_eq_some_iff Param.name h).mp hp
    exact hmem
  · intro hmem
    exact ⟨_, (find?_key_eq_some_iff Param.name h).mpr ⟨hmem, rfl⟩, rfl⟩

theorem mem_params_set {c : Call} {name : String} {value : Value} {p : Param} :
    p ∈ (c.set name value).params ↔ (p ∈ c.params ∧ p.name ≠ name) ∨ p = ⟨name, value⟩ := by
  simp [set]

theorem get?_set_self (c : Call) (name : String) (value : Value) :
    (c.set name value).get? name = some value := by
  have hkept : (c.params.filter (·.name != name)).find? (·.name == name) = none := by
    rw [List.find?_filter, List.find?_eq_none]
    intro p _
    by_cases h : p.name = name <;> simp [h]
  rw [get?, set, List.find?_append, hkept]
  simp

theorem get?_set_of_ne {c : Call} {name other : String} {value : Value} (h : other ≠ name) :
    (c.set name value).get? other = c.get? other := by
  have hkept : (c.params.filter (·.name != name)).find? (·.name == other) =
      c.params.find? (·.name == other) := by
    rw [List.find?_filter]
    congr 1
    funext p
    by_cases hp : p.name = other <;> simp [hp, h]
  rw [get?, set, List.find?_append, hkept, List.find?_singleton]
  simp [get?, Ne.symm h]

theorem nodup_names_set {c : Call} (name : String) (value : Value)
    (h : (c.params.map Param.name).Nodup) : ((c.set name value).params.map Param.name).Nodup := by
  have hkept : ((c.params.filter (·.name != name)).map Param.name).Nodup :=
    h.sublist (List.filter_sublist.map _)
  simp only [set, List.map_append, List.map_cons, List.map_nil]
  refine List.nodup_append.mpr ⟨hkept, by simp, ?_⟩
  intro n hn m hm
  obtain ⟨p, hp, rfl⟩ := List.mem_map.mp hn
  have hne : p.name ≠ name := by simpa using (List.mem_filter.mp hp).2
  rw [List.mem_singleton.mp hm]
  exact hne

theorem isWellTyped_set {c : Call} {name : String} {value : Value} (h : c.isWellTyped = true)
    (hp : acceptsParam c.signature ⟨name, value⟩ = true) :
    (c.set name value).isWellTyped = true := by
  obtain ⟨hn, ha⟩ := isWellTyped_iff.mp h
  refine isWellTyped_iff.mpr ⟨nodup_names_set name value hn, ?_⟩
  intro p hmem
  rcases mem_params_set.mp hmem with ⟨hold, _⟩ | rfl
  · exact ha p hold
  · exact hp

/-- No parameter refers to an output of a query. -/
def IsClosed (c : Call) : Prop :=
  ∀ p ∈ c.params, ∀ name, p.value ≠ .varRef name

theorem IsClosed.set {c : Call} {name : String} {value : Value} (h : c.IsClosed)
    (hv : ∀ n, value ≠ .varRef n) : (c.set name value).IsClosed := by
  intro p hmem n
  rcases mem_params_set.mp hmem with ⟨hold, _⟩ | rfl
  · exact h p hold n
  · exact hv n

end Colloquy.Call
