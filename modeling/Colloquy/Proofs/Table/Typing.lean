import Colloquy.Proofs.Filter.Typing
import Colloquy.Proofs.Signature
import Colloquy.Proofs.Table.Attachment

namespace Colloquy

theorem Filter.isWellTyped_of_narrows {s t : Signature} (hst : s.Narrows t) {f : Filter}
    (hf : f.isWellTyped s = true) : f.isWellTyped t = true := by
  induction f using connectiveInduction with
  | dontCare field =>
    unfold isWellTyped Signature.isFilterable at hf ⊢
    cases ha : s.argument? field with
    | none => simp [ha] at hf
    | some a => simpa [hst field a ha, ha] using hf
  | atom a =>
    rw [isWellTyped] at hf ⊢
    unfold Atom.isWellTyped at hf ⊢
    cases ha : s.argument? a.field with
    | none => simp [ha] at hf
    | some argument => simpa [hst a.field argument ha, ha] using hf
  | not f ih =>
    have hnot := (isInherited_isWellTyped s).not_iff f
    exact ((isInherited_isWellTyped t).not_iff f).mpr (ih (hnot.mp hf))
  | join k fs ih =>
    have hjoin := ((isInherited_isWellTyped s).join_iff k fs).mp hf
    exact ((isInherited_isWellTyped t).join_iff k fs).mpr fun f hmem => ih f hmem (hjoin f hmem)
  | always | never | external | compute => rfl

namespace Table

theorem Layer.narrows_view (l : Layer) (s : Signature) : (l.view s).Narrows s := by
  cases l with
  | project fields => exact s.narrows_project fields
  | _ => exact .refl s

theorem narrows_stack (layers : List Layer) (u : Table) :
    (stack layers u).signature.Narrows u.signature := by
  rw [signature_stack]
  induction layers with
  | nil => exact .refl _
  | cons l layers ih => exact (l.narrows_view _).trans ih

theorem HoldsFilter.narrows {t base : Table} {layers : List Layer} {f : Filter}
    (h : t.HoldsFilter layers base f) : t.signature.Narrows base.signature := by
  rcases h with ⟨rfl, _⟩ | ⟨_, _, rfl, _⟩
  · exact narrows_stack layers (filter base f)
  · exact narrows_stack layers base

/-- A filter that fits a query at its root fits the table that it goes on. -/
theorem isWellTyped_base {t : Table} {a : Attachment} {f : Filter}
    (ha : t.attachment = .ok (some a)) (hf : f.isWellTyped t.signature = true) :
    f.isWellTyped a.base.signature = true :=
  Filter.isWellTyped_of_narrows (holdsFilter_of_attachment ha).1.narrows hf

/-- Reviews that are neither one that was picked nor rated low. -/
def otherGoodReviews : Filter :=
  .not (.or [.atom ⟨"id", .equal, .entity "v1" "com.dine:review" .null⟩,
    .not (.atom ⟨"stars", .atLeast, .number (.ofInt 4)⟩)])

theorem isWellTyped_base_reviews :
    ∃ a, starsOfReviews.attachment = .ok (some a) ∧ a.base = .query reviews none ∧
      otherGoodReviews.isWellTyped starsOfReviews.signature = true ∧
      otherGoodReviews.isWellTyped a.base.signature = true := by
  have ha : starsOfReviews.attachment = .ok (some ⟨stack starsOfReviews.layers
      (.query reviews (some .always)), .query reviews none, .always⟩) := rfl
  have hf : otherGoodReviews.isWellTyped starsOfReviews.signature = true := by decide
  exact ⟨_, ha, rfl, hf, isWellTyped_base ha hf⟩

end Table

end Colloquy
