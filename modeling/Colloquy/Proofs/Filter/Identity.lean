import Colloquy.Proofs.Filter.Occurrence
import Colloquy.Proofs.Filter.Typing

namespace Colloquy.Filter

variable {f : Filter}

theorem pinsIdentity_bare (c : Filter) : c.bare.pinsIdentity = c.pinsIdentity := by
  cases c <;> rfl

theorem slotField?_of_pinsIdentity {c : Filter} (h : c.pinsIdentity = true) :
    c.slotField? = some "id" := by
  cases c with
  | atom a =>
    obtain ⟨hfield, _⟩ := Bool.and_eq_true_iff.mp h
    exact congrArg some (eq_of_beq hfield)
  | _ => cases h

theorem isUnpinned_bare : f.bare.IsUnpinned ↔ f.IsUnpinned := by
  rw [isUnpinned_iff, isUnpinned_iff, slotClauses_bare, List.forall_mem_map]
  simp only [pinsIdentity_bare]

theorem neutralize_eq_self_iff : f.neutralize = f ↔ f.IsUnpinned :=
  ⟨fun h => h ▸ f.isUnpinned_neutralize, IsUnpinned.neutralize_eq⟩

/-- Equality passes over labels, but it sees whether an atom was let go. -/
theorem same_neutralize_iff : f.neutralize.same f = true ↔ f.IsUnpinned ∧ f.same f = true := by
  constructor
  · intro h
    have hbare : f.bare.neutralize = f.bare := (neutralize_bare f).trans (same_iff.mp h).1
    have hunpinned : f.IsUnpinned := isUnpinned_bare.mp (neutralize_eq_self_iff.mp hbare)
    rw [hunpinned.neutralize_eq] at h
    exact ⟨hunpinned, h⟩
  · rintro ⟨hunpinned, hself⟩
    rwa [hunpinned.neutralize_eq]

theorem mem_fields_neutralize_iff {name : String} (h : name ≠ "id") :
    name ∈ f.neutralize.fields ↔ name ∈ f.fields := by
  rw [mem_fields_iff, mem_fields_iff, slotClauses_neutralize]
  constructor
  · rintro ⟨c, hc, hname⟩
    exact ⟨c, (List.mem_filter.mp hc).1, hname⟩
  · rintro ⟨c, hc, hname⟩
    have hkept : c.pinsIdentity ≠ true := by
      intro hpins
      rw [slotField?_of_pinsIdentity hpins] at hname
      exact h (Option.some.inj hname).symm
    exact ⟨c, List.mem_filter.mpr ⟨hc, by simpa using hkept⟩, hname⟩

/-- Letting the identifier go takes the atoms that pin it out of a filter and nothing else: none of
them is left, a second time changes nothing, the other clauses stay in their order and the other fields
are mentioned as before, the filter fits every signature that it fitted, and it is the filter that it
was, or an equal one, exactly if it had no such atom. -/
theorem neutralize_removes_identity (f : Filter) :
    f.neutralize.IsUnpinned ∧ f.neutralize.neutralize = f.neutralize ∧
      f.neutralize.slotClauses = f.slotClauses.filter (!·.pinsIdentity) ∧
      (∀ name, name ≠ "id" → (name ∈ f.neutralize.fields ↔ name ∈ f.fields)) ∧
      (∀ s : Signature, f.isWellTyped s = true → f.neutralize.isWellTyped s = true) ∧
      (f.neutralize = f ↔ f.IsUnpinned) ∧
      (f.neutralize.same f = true ↔ f.IsUnpinned ∧ f.same f = true) := by
  have hunpinned := f.isUnpinned_neutralize
  refine ⟨hunpinned, hunpinned.neutralize_eq, slotClauses_neutralize f,
    fun name => mem_fields_neutralize_iff, ?_, neutralize_eq_self_iff, same_neutralize_iff⟩
  intro s hs
  exact (isInherited_isWellTyped s).neutralize hs

/-- Every parcel but the first, which counts only as a cheap express parcel with a delivery. -/
def firstIfCheap : Filter :=
  let first := atom ⟨"id", .equal, .entity "p1" "com.post:parcel" .null⟩
  or [not (and [first, dontCare "id"]),
    and [first, atom ⟨"id", .like, .string "express"⟩,
      atom ⟨"fee", .atMost, .currency (.ofInt 20) Value.defaultCode⟩,
      external "com.post" "delivery" [] first]]

/-- The don't-care, the fuzzy comparison and the choice inside the other query stay. -/
theorem neutralize_removes_identity_firstIfCheap :
    let express := atom ⟨"id", .like, .string "express"⟩
    let cheap := atom ⟨"fee", .atMost, .currency (.ofInt 20) Value.defaultCode⟩
    let left := or [not (and [always, dontCare "id"]), and [always, express, cheap,
      external "com.post" "delivery" [] (atom ⟨"id", .equal, .entity "p1" "com.post:parcel" .null⟩)]]
    firstIfCheap.neutralize = left ∧ left.IsUnpinned ∧ left.neutralize = left ∧
      left.slotClauses = [dontCare "id", express, cheap] ∧
      "fee" ≠ "id" ∧ ("fee" ∈ left.fields ↔ "fee" ∈ firstIfCheap.fields) ∧
      firstIfCheap.isWellTyped parcels = true ∧ left.isWellTyped parcels = true ∧
      ¬ firstIfCheap.IsUnpinned ∧ left ≠ firstIfCheap ∧ left.same firstIfCheap = false := by
  intro express cheap left
  have hleft : firstIfCheap.neutralize = left := by rfl
  have hfee : "fee" ≠ "id" := by decide
  have htyped : firstIfCheap.isWellTyped parcels = true := by decide
  have hpinned : ¬ firstIfCheap.IsUnpinned := by decide
  obtain ⟨hunpinned, hagain, hclauses, hfields, hfits, hfixed, hsame⟩ :=
    neutralize_removes_identity firstIfCheap
  rw [hleft] at hunpinned hagain hclauses hfields hfits hfixed hsame
  have hdiffers : left.same firstIfCheap = false :=
    Bool.eq_false_iff.mpr fun h => hpinned (hsame.mp h).1
  exact ⟨hleft, hunpinned, hagain, hclauses, hfee, hfields "fee" hfee, htyped,
    hfits parcels htyped, hpinned, fun h => hpinned (hfixed.mp h), hdiffers⟩

end Colloquy.Filter
