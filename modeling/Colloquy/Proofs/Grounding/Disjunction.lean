import Colloquy.Grounding
import Colloquy.Proofs.Dialogue.Preservation
import Mathlib.Data.List.TakeWhile

namespace Colloquy

def Results.withRows (r : Results) (rows : List Row) : Results :=
  .ofRows rows r.count r.more r.error

def Item.withRows (i : Item) (rows : List Row) : Item :=
  { i with results := i.results.map (·.withRows rows) }

namespace State

variable {s : State} {rows : List Row} {field : String} {v w : Value} {a b : Atom}

def withRows (s : State) (rows : List Row) : State :=
  { s with history := s.executed.dropLast ++ (s.current?.map (·.withRows rows)).toList ++ s.pending }

theorem executed_withRows (s : State) (rows : List Row) :
    (s.withRows rows).executed =
      s.executed.dropLast ++ (s.current?.map (·.withRows rows)).toList := by
  refine executed_eq_of_history rfl ?_ fun i => isExecuted_eq_false_of_next
  intro i hi
  rcases List.mem_append.mp hi with hi | hi
  · exact isExecuted_of_mem_executed ((List.dropLast_sublist _).subset hi)
  · obtain ⟨j, hj, rfl⟩ := Option.map_eq_some_iff.mp (Option.mem_toList.mp hi)
    have hexecuted : j.isExecuted = true := isExecuted_of_mem_executed (List.mem_of_getLast? hj)
    exact hexecuted

theorem current?_withRows (s : State) (rows : List Row) :
    (s.withRows rows).current? = s.current?.map (·.withRows rows) := by
  rw [current?, executed_withRows]
  cases hcurrent : s.current? with
  | none =>
    have hnone : s.executed = [] := List.getLast?_eq_none_iff.mp hcurrent
    simp [hnone]
  | some i => simp

theorem currentSignature?_withRows (s : State) (rows : List Row) :
    (s.withRows rows).currentSignature? = s.currentSignature? := by
  unfold currentSignature? currentTable?
  rw [current?_withRows]
  cases s.current? <;> rfl

theorem rows_withRows (h : rows.Perm s.rows) : (s.withRows rows).rows = rows := by
  unfold State.rows results? at h ⊢
  rw [current?_withRows]
  cases hcurrent : s.current? with
  | none =>
    simp only [hcurrent] at h
    exact h.eq_nil.symm
  | some i =>
    cases hresults : i.results with
    | none =>
      simp only [hcurrent, Option.bind_some, hresults] at h
      simpa [Item.withRows, hresults] using h.eq_nil.symm
    | some r => simp [Item.withRows, hresults, Results.withRows, Results.ofRows]

def Occurs (rows : List Row) (field : String) (v : Value) : Prop :=
  ∃ row ∈ rows, ∃ found, row.get? field = some found ∧ found.same v = true

theorem occurs_cons_iff {row : Row} {rest : List Row} {found : Value}
    (h : row.get? field = some found) :
    Occurs (row :: rest) field v ↔ found.same v = true ∨ Occurs rest field v := by
  simp [Occurs, h]

/-- The search ends as soon as both values are found. Until then it finds what the rows show before the
first one without the field. -/
theorem bothOccur_iff {foundV foundW : Bool} (h : (foundV && foundW) = false) :
    bothOccur field v w foundV foundW rows = true ↔
      (foundV = true ∨ Occurs (rows.takeWhile (·.has field)) field v) ∧
        (foundW = true ∨ Occurs (rows.takeWhile (·.has field)) field w) := by
  induction rows generalizing foundV foundW with
  | nil => simp [bothOccur, Occurs]
  | cons row rest ih =>
    unfold bothOccur
    cases hfound : row.get? field with
    | none =>
      have hstop : (row :: rest).takeWhile (·.has field) = [] :=
        List.takeWhile_cons_of_neg (by simp [Entries.has, hfound])
      simp [hstop, Occurs, ← Bool.and_eq_true, h]
    | some found =>
      have hpass : (row :: rest).takeWhile (·.has field) = row :: rest.takeWhile (·.has field) :=
        List.takeWhile_cons_of_pos (by simp [Entries.has, hfound])
      rw [hpass, occurs_cons_iff hfound, occurs_cons_iff hfound, ← or_assoc, ← or_assoc,
        ← Bool.or_eq_true, ← Bool.or_eq_true]
      cases hboth : (foundV || found.same v) && (foundW || found.same w) with
      | true =>
        obtain ⟨hv, hw⟩ := Bool.and_eq_true_iff.mp hboth
        simp [hv, hw]
      | false =>
        rw [← ih hboth]
        simp [hboth]

/-- What makes a question between the values of two atoms: a field of the function that takes both, and
two different values that occur in some rows. -/
structure Poses (signature : Option Signature) (rows : List Row) (a b : Atom) (ty : Ty) : Prop where
  field : a.field = b.field
  declared : signature.bind (·.ty? a.field) = some ty
  left : ty.accepts a.value.ty = true
  right : ty.accepts b.value.ty = true
  differ : a.value.same b.value = false
  first : Occurs rows a.field a.value
  second : Occurs rows a.field b.value

/-- Rows that do not show the field have no part in a question. -/
theorem Poses.mono {signature : Option Signature} {others : List Row} {ty : Ty}
    (h : Poses signature rows a b ty)
    (hrows : ∀ row ∈ rows, row.has a.field = true → row ∈ others) :
    Poses signature others a b ty := by
  have hoccurs : ∀ v, Occurs rows a.field v → Occurs others a.field v := by
    rintro v ⟨row, hrow, found, hfound, hsame⟩
    have hhas : row.has a.field = true := by simp [Entries.has, hfound]
    exact ⟨row, hrows row hrow hhas, found, hfound, hsame⟩
  exact ⟨h.field, h.declared, h.left, h.right, h.differ, hoccurs _ h.first, hoccurs _ h.second⟩

theorem disjunctiveQuestion?_eq_some_iff {question : String × Ty} :
    s.disjunctiveQuestion? a b = some question ↔
      ∃ ty, question = (a.field, ty) ∧
        Poses s.currentSignature? (s.rows.takeWhile (·.has a.field)) a b ty := by
  have hoccur : bothOccur a.field a.value b.value false false s.rows = true ↔
      Occurs (s.rows.takeWhile (·.has a.field)) a.field a.value ∧
        Occurs (s.rows.takeWhile (·.has a.field)) a.field b.value := by
    simp [bothOccur_iff]
  unfold disjunctiveQuestion?
  rw [Option.ite_none_left_eq_some]
  constructor
  · rintro ⟨hfield, h⟩
    obtain ⟨signature, hsignature, h⟩ := Option.bind_eq_some_iff.mp h
    obtain ⟨ty, hty, h⟩ := Option.bind_eq_some_iff.mp h
    rw [Option.ite_none_right_eq_some] at h
    simp only [Bool.and_eq_true, Bool.not_eq_true', hoccur] at h
    obtain ⟨⟨⟨⟨hleft, hright⟩, hdiffer⟩, hfirst, hsecond⟩, h⟩ := h
    refine ⟨ty, (Option.some.inj h).symm, by simpa using hfield, ?_, hleft, hright, hdiffer, hfirst,
      hsecond⟩
    rw [hsignature]
    exact hty
  · rintro ⟨ty, rfl, h⟩
    refine ⟨by simpa using h.field, ?_⟩
    obtain ⟨signature, hsignature, hty⟩ := Option.bind_eq_some_iff.mp h.declared
    refine Option.bind_eq_some_iff.mpr ⟨signature, hsignature, ?_⟩
    refine Option.bind_eq_some_iff.mpr ⟨ty, hty, ?_⟩
    rw [if_pos]
    simp [h.left, h.right, h.differ, hoccur, h.first, h.second]

theorem disjunctiveQuestion?_withRows (h : rows.Perm s.rows) {question : String × Ty} :
    (s.withRows rows).disjunctiveQuestion? a b = some question ↔
      ∃ ty, question = (a.field, ty) ∧
        Poses s.currentSignature? (rows.takeWhile (·.has a.field)) a b ty := by
  rw [disjunctiveQuestion?_eq_some_iff, currentSignature?_withRows, rows_withRows h]

/-- With the rows that show the field in front, the question is asked. -/
theorem exists_order_asked {ty : Ty} (h : Poses s.currentSignature? s.rows a b ty) :
    ∃ rows, rows.Perm s.rows ∧ (s.withRows rows).disjunctiveQuestion? a b = some (a.field, ty) := by
  have hperm : (s.rows.filter (·.has a.field) ++ s.rows.filter (!·.has a.field)).Perm s.rows :=
    List.filter_append_perm (·.has a.field) s.rows
  have hfront : (s.rows.filter (·.has a.field) ++ s.rows.filter (!·.has a.field)).takeWhile
      (·.has a.field) = s.rows.filter (·.has a.field) := by
    refine takeWhile_append_of_head? (fun row hrow => (List.mem_filter.mp hrow).2) fun row hrow => ?_
    simpa using (List.mem_filter.mp (List.mem_of_head? hrow)).2
  refine ⟨_, hperm, (disjunctiveQuestion?_withRows hperm).mpr ⟨ty, rfl, ?_⟩⟩
  rw [hfront]
  exact h.mono fun row hrow hhas => List.mem_filter.mpr ⟨hrow, hhas⟩

/-- With a row that lacks the field in front, it is not. -/
theorem exists_order_refused {row : Row} (hrow : row ∈ s.rows) (h : row.has a.field = false) :
    ∃ rows, rows.Perm s.rows ∧ (s.withRows rows).disjunctiveQuestion? a b = none := by
  obtain ⟨before, after, hrows⟩ := List.append_of_mem hrow
  have hperm : (row :: (before ++ after)).Perm s.rows := hrows ▸ List.perm_middle.symm
  refine ⟨_, hperm, Option.eq_none_iff_forall_ne_some.mpr fun question hquestion => ?_⟩
  obtain ⟨ty, _, hposes⟩ := (disjunctiveQuestion?_withRows hperm).mp hquestion
  rw [List.takeWhile_cons_of_neg (by simp [h])] at hposes
  obtain ⟨_, hnone, _⟩ := hposes.first
  exact absurd hnone List.not_mem_nil

/-- The order of the results does not matter to a question between two values exactly if all of them
show the field, or the results do not make the question in any order. -/
theorem disjunctiveQuestion?_withRows_iff {s : State} {a b : Atom} :
    (∀ rows, rows.Perm s.rows →
        (s.withRows rows).disjunctiveQuestion? a b = s.disjunctiveQuestion? a b) ↔
      (∀ row ∈ s.rows, row.has a.field = true) ∨
        ∀ ty, ¬ Poses s.currentSignature? s.rows a b ty := by
  constructor
  · intro h
    by_contra hne
    simp only [not_or, not_forall, not_not, Bool.not_eq_true] at hne
    obtain ⟨⟨row, hrow, hlacks⟩, ty, hposes⟩ := hne
    -- the same rows make two answers, by where those without the field stand
    obtain ⟨front, hfront, hasked⟩ := exists_order_asked hposes
    obtain ⟨back, hback, hrefused⟩ := exists_order_refused (b := b) hrow hlacks
    rw [h front hfront, ← h back hback, hrefused] at hasked
    cases hasked
  · rintro h rows hrows
    refine Option.ext fun question => ?_
    rw [disjunctiveQuestion?_withRows hrows, disjunctiveQuestion?_eq_some_iff]
    rcases h with hall | hnone
    · have hleft : rows.takeWhile (·.has a.field) = rows :=
        List.takeWhile_eq_self_iff.mpr fun row hrow => hall row (hrows.subset hrow)
      rw [hleft, List.takeWhile_eq_self_iff.mpr hall]
      refine exists_congr fun ty => and_congr_right fun _ => ⟨fun h => ?_, fun h => ?_⟩
      · exact h.mono fun row hrow _ => hrows.subset hrow
      · exact h.mono fun row hrow _ => hrows.symm.subset hrow
    · have hrefused : ∀ others ⊆ s.rows, ∀ ty,
          ¬ Poses s.currentSignature? (others.takeWhile (·.has a.field)) a b ty :=
        fun others hothers ty hposes => hnone ty <| hposes.mono fun row hrow _ =>
          hothers ((List.takeWhile_sublist _).subset hrow)
      simp [hrefused rows hrows.subset, hrefused s.rows (List.Subset.refl _)]

/-- A Thai and a Roman place were found, and one that shows no cuisine. -/
def threePlaces : State where
  policy := transaction
  act := .execute
  params := none
  history := [.executed (.ofTable (.query restaurants none))
    [[("cuisine", .string "thai")], [("cuisine", .string "roman")],
      [("stars", .number (.ofInt 4))]] none false]

/-- The agent may ask for one of the cuisines, but not when the last place comes first. -/
theorem disjunctiveQuestion?_reversed :
    let thai : Atom := ⟨"cuisine", .equal, .string "thai"⟩
    let roman : Atom := ⟨"cuisine", .equal, .string "roman"⟩
    threePlaces.isValid = true ∧ threePlaces.rows.reverse.Perm threePlaces.rows ∧
      threePlaces.disjunctiveQuestion? thai roman = some ("cuisine", .string) ∧
      (threePlaces.withRows threePlaces.rows.reverse).disjunctiveQuestion? thai roman = none := by
  intro thai roman
  exact ⟨rfl, List.reverse_perm _, by decide, by decide⟩

end State

end Colloquy
