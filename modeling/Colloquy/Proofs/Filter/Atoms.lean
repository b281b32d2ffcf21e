import Colloquy.Proofs.Filter.Inherited
import Colloquy.Proofs.Filter.Verdict

namespace Colloquy

variable {ε : Type} {test other : Atom → Except ε Bool}

theorem Connective.settle_congr {k : Connective} {fs : List Filter}
    (h : ∀ f ∈ fs, f.verdict test = f.verdict other) : k.settle test fs = k.settle other fs := by
  induction fs with
  | nil => rfl
  | cons f rest ih =>
    have hrest := ih fun g hg => h g (List.mem_cons_of_mem _ hg)
    rw [settle, settle, h f List.mem_cons_self, hrest]

theorem Connective.settle_ok {k : Connective} {fs : List Filter}
    (h : ∀ f ∈ fs, ∃ b, f.verdict test = .ok b) : ∃ b, k.settle test fs = .ok b := by
  induction fs with
  | nil => exact ⟨k.neutral, rfl⟩
  | cons f rest ih =>
    obtain ⟨b, hf⟩ := h f List.mem_cons_self
    obtain ⟨c, hrest⟩ := ih fun g hg => h g (List.mem_cons_of_mem _ hg)
    rw [settle, hf, next, hrest]
    split
    · exact ⟨c, rfl⟩
    · exact ⟨b, rfl⟩

namespace Filter

theorem verdict_congr {f : Filter} (h : ∀ a, atom a ∈ f.slotClauses → test a = other a) :
    f.verdict test = f.verdict other := by
  induction f using connectiveInduction with
  | atom a => exact h a List.mem_cons_self
  | not f ih => rw [verdict, verdict, ih h]
  | join k fs ih =>
    rw [verdict_join, verdict_join]
    refine Connective.settle_congr fun f hf => ih f hf fun a ha => h a ?_
    rw [slotClauses_join]
    exact List.mem_flatMap.mpr ⟨f, hf, ha⟩
  | _ => rfl

theorem verdict_congr_fields {f : Filter}
    (h : ∀ a, a.field ∈ f.fields → test a = other a) : f.verdict test = f.verdict other :=
  verdict_congr fun a ha => h a (mem_fields_iff.mpr ⟨atom a, ha, rfl⟩)

theorem holdsForRow_congr {f : Filter} {row other : Row}
    (h : ∀ name ∈ f.fields, row.get? name = other.get? name) :
    f.holdsForRow row = f.holdsForRow other := by
  refine verdict_congr_fields fun a ha => ?_
  rw [testRow, testRow, h a.field ha]

theorem holdsForBag_congr {f : Filter} {bag other : SlotBag}
    (h : ∀ name ∈ f.fields, bag.get? name = other.get? name) :
    f.holdsForBag bag = f.holdsForBag other := by
  refine verdict_congr_fields fun a ha => ?_
  rw [testBag, testBag, h a.field ha]

/-- The verdict of a filter, or the error in its place, hangs on the fields alone that the filter
mentions. -/
theorem holds_eq_of_fields (f : Filter) :
    (∀ row other : Row, (∀ name ∈ f.fields, row.get? name = other.get? name) →
        f.holdsForRow row = f.holdsForRow other) ∧
      ∀ bag other : SlotBag, (∀ name ∈ f.fields, bag.get? name = other.get? name) →
        f.holdsForBag bag = f.holdsForBag other := by
  constructor
  · intro row other h
    exact holdsForRow_congr h
  · intro bag other h
    exact holdsForBag_congr h

/-- Two results that share their stars. A row passes the comparison with a number that is not known
yet, and a bag fails on it. -/
theorem holds_eq_of_fields_stars :
    let f := and [atom ⟨"stars", .equal, .number (.ofInt 4)⟩,
      or [not (atom ⟨"stars", .atLeast, .varRef "best"⟩), dontCare "area"]]
    let row : Row := [("cuisine", .string "thai"), ("stars", .number (.ofInt 4))]
    let other : Row := [("stars", .number (.ofInt 4)), ("price", .enum "cheap")]
    (∀ name ∈ f.fields, row.get? name = other.get? name) ∧
      f.holdsForRow row = .ok true ∧ f.holdsForRow other = .ok true ∧
      (∀ name ∈ f.fields, (SlotBag.mk none row).get? name = (SlotBag.mk none other).get? name) ∧
      f.holdsForBag ⟨none, row⟩ = .error (.unbound "best") ∧
      f.holdsForBag ⟨none, other⟩ = .error (.unbound "best") := by
  intro f row other
  have hfields : f.fields = ["stars", "area"] := by rfl
  have hagree : ∀ name ∈ f.fields, row.get? name = other.get? name := by
    rw [hfields]
    intro name hname
    have hnames : name = "stars" ∨ name = "area" := by simpa using hname
    rcases hnames with rfl | rfl <;> rfl
  have hrow : f.holdsForRow row = .ok true := by rfl
  have hbag : f.holdsForBag ⟨none, row⟩ = .error (.unbound "best") := by rfl
  obtain ⟨hrows, hbags⟩ := holds_eq_of_fields f
  exact ⟨hagree, hrow, (hrows row other hagree).symm.trans hrow, hagree, hbag,
    (hbags ⟨none, row⟩ ⟨none, other⟩ hagree).symm.trans hbag⟩

theorem verdict_ok_of_atoms {f : Filter}
    (h : ∀ a, atom a ∈ f.slotClauses → ∃ b, test a = .ok b) : ∃ b, f.verdict test = .ok b := by
  induction f using connectiveInduction with
  | atom a => exact h a List.mem_cons_self
  | not f ih =>
    obtain ⟨b, hb⟩ := ih h
    exact ⟨!b, by rw [verdict, hb]; rfl⟩
  | join k fs ih =>
    rw [verdict_join]
    refine Connective.settle_ok fun f hf => ih f hf fun a ha => h a ?_
    rw [slotClauses_join]
    exact List.mem_flatMap.mpr ⟨f, hf, ha⟩
  | _ => exact ⟨_, rfl⟩

theorem verdict_ok (h : ∀ a, ∃ b, test a = .ok b) (f : Filter) : ∃ b, f.verdict test = .ok b :=
  verdict_ok_of_atoms fun a _ => h a

end Filter

end Colloquy
