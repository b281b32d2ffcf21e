import Colloquy.Signature
import Mathlib.Data.List.Nodup

namespace Colloquy

theorem find?_key_eq_some_iff {α : Type} (key : α → String) {xs : List α} {name : String} {x : α}
    (h : (xs.map key).Nodup) : xs.find? (key · == name) = some x ↔ x ∈ xs ∧ key x = name := by
  constructor
  · intro hx
    exact ⟨List.mem_of_find?_eq_some hx, by simpa using List.find?_some hx⟩
  · rintro ⟨hx, rfl⟩
    cases hf : xs.find? (key · == key x) with
    | none => simpa using List.find?_eq_none.mp hf x hx
    | some y =>
      have hy : y ∈ xs := List.mem_of_find?_eq_some hf
      have hkey : key y = key x := by simpa using List.find?_some hf
      rw [List.inj_on_of_nodup_map h hy hx hkey]

namespace Signature

variable {s t u : Signature}

theorem argument?_eq_some_iff {name : String} {a : Argument} :
    s.argument? name = some a ↔ a ∈ s.arguments ∧ a.name = name :=
  find?_key_eq_some_iff Argument.name s.nodup

theorem hasOutput_iff {name : String} :
    s.hasOutput name = true ↔ ∃ ty, (name, ty) ∈ s.outputs := by
  simp only [hasOutput, outputs, typed, List.any_eq_true, Bool.and_eq_true, beq_iff_eq, List.mem_map,
    List.mem_filter, Prod.mk.injEq]
  constructor
  · rintro ⟨a, ha, hout, hname⟩
    exact ⟨a.ty, a, ⟨ha, hout⟩, hname, rfl⟩
  · rintro ⟨_, a, ⟨ha, hout⟩, hname, _⟩
    exact ⟨a, ha, hout, hname⟩

/-- Each argument of `s` is one of `t` under the same name. -/
def Narrows (s t : Signature) : Prop :=
  ∀ name a, s.argument? name = some a → t.argument? name = some a

theorem Narrows.refl (s : Signature) : s.Narrows s :=
  fun _ _ h => h

theorem Narrows.trans (hst : s.Narrows t) (htu : t.Narrows u) : s.Narrows u :=
  fun name a h => htu name a (hst name a h)

theorem narrows_project (s : Signature) (names : List String) : (s.project names).Narrows s := by
  intro name a h
  obtain ⟨hmem, hname⟩ := argument?_eq_some_iff.mp h
  exact argument?_eq_some_iff.mpr ⟨List.mem_of_mem_filter hmem, hname⟩

end Signature

end Colloquy
