import Colloquy.Proofs.Filter.Refinement

namespace Colloquy.Filter

theorem slotField?_bare (f : Filter) : f.bare.slotField? = f.slotField? := by
  cases f <;> rfl

theorem slotField?_eq_of_same {c d : Filter} (h : c.same d = true) :
    c.slotField? = d.slotField? := by
  rw [← slotField?_bare c, (same_iff.mp h).1, slotField?_bare]

def slotPairs (cs : List Filter) : Entries Filter :=
  cs.filterMap fun c => c.slotField?.map (·, c)

theorem get?_slotPairs (cs : List Filter) (field : String) :
    (slotPairs cs).get? field = cs.find? (·.slotField? = some field) := by
  induction cs with
  | nil => rfl
  | cons c rest ih =>
    cases hc : c.slotField? with
    | none =>
      have hpairs : slotPairs (c :: rest) = slotPairs rest := by simp [slotPairs, hc]
      rw [hpairs, ih, List.find?_cons_of_neg (by simp [hc])]
    | some name =>
      have hpairs : slotPairs (c :: rest) = (name, c) :: slotPairs rest := by simp [slotPairs, hc]
      rw [hpairs, Entries.get?]
      split
      next hname => rw [List.find?_cons_of_pos (by simp [hc, hname])]
      next hname => rw [ih, List.find?_cons_of_neg (by simp [hc, hname])]

theorem get?_slots (f : Filter) (field : String) :
    f.slots.get? field = f.simplify.clauses.reverse.find? (·.slotField? = some field) := by
  have hreverse : (slotPairs f.simplify.clauses).reverse = slotPairs f.simplify.clauses.reverse :=
    List.filterMap_reverse.symm
  calc f.slots.get? field
      = (Entries.ofList (slotPairs f.simplify.clauses)).get? field := rfl
    _ = (slotPairs f.simplify.clauses.reverse).get? field := by rw [Entries.get?_ofList, hreverse]
    _ = _ := get?_slotPairs _ field

@[simp] theorem slots_simplify (f : Filter) : f.simplify.slots = f.slots := by
  rw [slots, simplify_simplify, slots]

@[simp] theorem negatedSlots_simplify (f : Filter) : f.simplify.negatedSlots = f.negatedSlots := by
  rw [negatedSlots, simplify_simplify, negatedSlots]

theorem has_slots_iff {f : Filter} {field : String} :
    f.slots.has field = true ↔ ∃ c ∈ f.simplify.clauses, c.slotField? = some field := by
  rw [Entries.has, get?_slots, List.find?_isSome]
  simp

theorem get?_slots_of_last {f c : Filter} {before after : List Filter} {field : String}
    (hclauses : f.simplify.clauses = before ++ c :: after) (hc : c.slotField? = some field)
    (hlast : ∀ e ∈ after, e.slotField? ≠ some field) : f.slots.get? field = some c := by
  have hafter : after.reverse.find? (·.slotField? = some field) = none := by
    rw [List.find?_eq_none]
    intro e he
    simpa using hlast e (List.mem_reverse.mp he)
  rw [get?_slots, hclauses, List.reverse_append, List.reverse_cons, List.append_assoc,
    List.find?_append, hafter, Option.none_or, List.singleton_append,
    List.find?_cons_of_pos (by simp [hc])]

theorem isReplacedBy_iff {new clause : Filter} :
    isReplacedBy new clause = true ↔
      ∃ field, clause.slotField? = some field ∧
        ∃ d ∈ new.simplify.clauses, d.slotField? = some field := by
  unfold isReplacedBy
  split
  next field hfield =>
    rw [has_slots_iff, hfield]
    constructor
    · intro h
      exact ⟨field, rfl, h⟩
    · rintro ⟨other, hother, h⟩
      exact Option.some.inj hother ▸ h
  next hfield => simp [hfield]

theorem exists_changed_of_isReplacedBy {old new c : Filter} (hc : c ∈ old.simplify.clauses)
    (hreplaced : isReplacedBy new c = true) :
    ∃ slot ∈ old.slots.filter (new.slots.has ·.1), c.slotField? = some slot.1 := by
  obtain ⟨field, hfield, hnew⟩ := isReplacedBy_iff.mp hreplaced
  have hold : old.slots.has field = true := has_slots_iff.mpr ⟨c, hc, hfield⟩
  obtain ⟨slot, hslot, rfl⟩ := List.mem_map.mp (Entries.has_iff_mem_names.mp hold)
  exact ⟨slot, List.mem_filter.mpr ⟨hslot, has_slots_iff.mpr hnew⟩, hfield⟩

/-- Clauses that are let go for an answer that may be a change are all on one field. -/
theorem exists_field_of_isReplacedBy {old new refined : Filter}
    (h : old.answerOrChange new = some refined) :
    ∃ field, ∀ c ∈ old.simplify.clauses, isReplacedBy new.simplify c = true →
      c.slotField? = some field := by
  obtain ⟨_, hlength, _⟩ := answerOrChange_eq_some_iff.mp h
  have hchanged : ∀ c ∈ old.simplify.clauses, isReplacedBy new.simplify c = true →
      ∃ slot ∈ old.simplify.slots.filter (new.simplify.slots.has ·.1),
        c.slotField? = some slot.1 :=
    fun c hc => exists_changed_of_isReplacedBy (by rwa [simplify_simplify])
  generalize old.simplify.slots.filter (new.simplify.slots.has ·.1) = changed at hlength hchanged
  rcases changed with _ | ⟨slot, _ | ⟨_, _⟩⟩
  · refine ⟨"", fun c hc hreplaced => ?_⟩
    obtain ⟨slot, hslot, _⟩ := hchanged c hc hreplaced
    cases hslot
  · refine ⟨slot.1, fun c hc hreplaced => ?_⟩
    obtain ⟨other, hother, hfield⟩ := hchanged c hc hreplaced
    rw [hfield, List.mem_singleton.mp hother]
  · simp at hlength

/-- Where a change or an answer is accepted, the clauses that stand for a field in both filters are
different. -/
theorem slots_differ_of_accepted {old new refined c d : Filter} {field : String}
    (h : old.change new = some refined ∨ old.answerOrChange new = some refined)
    (hnew : new.simplify.slots.get? field = some c)
    (hold : old.simplify.slots.get? field = some d) : c.restates d = false := by
  have hslot : (field, d) ∈ old.simplify.slots := Entries.mem_of_get?_eq_some hold
  rcases h with h | h
  · obtain ⟨hdiffer, _, _⟩ := change_eq_some_iff.mp h
    exact hdiffer (field, d) hslot c hnew
  · obtain ⟨haccepted, _, _⟩ := answerOrChange_eq_some_iff.mp h
    exact ((conflicts_eq_false_iff.mp (haccepted (field, d) hslot)).2 c hnew).2

/-- If a change or an answer is accepted although one of its clauses was said before, then another
clause on the same field comes behind this one, in the new filter or in the old. -/
theorem exists_later_of_restated {old new refined c d : Filter}
    {before after before' after' : List Filter} {field : String}
    (h : old.change new = some refined ∨ old.answerOrChange new = some refined)
    (hnew : new.simplify.clauses = before ++ c :: after)
    (hold : old.simplify.clauses = before' ++ d :: after')
    (hc : c.slotField? = some field) (hsame : c.same d = true) :
    ∃ e ∈ after ++ after', e.slotField? = some field := by
  by_cases hlast : ∃ e ∈ after ++ after', e.slotField? = some field
  · exact hlast
  exfalso
  have hafter : ∀ e ∈ after, e.slotField? ≠ some field :=
    fun e he hfield => hlast ⟨e, List.mem_append_left _ he, hfield⟩
  have hafter' : ∀ e ∈ after', e.slotField? ≠ some field :=
    fun e he hfield => hlast ⟨e, List.mem_append_right _ he, hfield⟩
  have hd : d.slotField? = some field := (slotField?_eq_of_same hsame).symm.trans hc
  rw [← simplify_simplify] at hnew hold
  have hslot := get?_slots_of_last hnew hc hafter
  have hslot' := get?_slots_of_last hold hd hafter'
  have hdiffer := slots_differ_of_accepted h hslot hslot'
  exact absurd (restates_of_same hsame) (by simp [hdiffer])

def pasta : Filter :=
  atom ⟨"tags", .contains, .string "pasta"⟩

/-- Thai places with pasta and wine. -/
def pastaAndWine : Filter :=
  and [pasta, atom ⟨"cuisine", .equal, .string "thai"⟩, atom ⟨"tags", .contains, .string "wine"⟩]

theorem exists_later_of_restated_pasta :
    let thai := atom ⟨"cuisine", .equal, .string "thai"⟩
    let wine := atom ⟨"tags", .contains, .string "wine"⟩
    pastaAndWine.change pasta = some (and [thai, pasta]) ∧
      pastaAndWine.simplify.clauses = [] ++ pasta :: [thai, wine] ∧
      pasta.simplify.clauses = [] ++ pasta :: [] ∧
      ∃ e ∈ [] ++ [thai, wine], e.slotField? = some "tags" := by
  intro thai wine
  have hchange : pastaAndWine.change pasta = some (and [thai, pasta]) := by rfl
  have hold : pastaAndWine.simplify.clauses = [] ++ pasta :: [thai, wine] := by rfl
  have hnew : pasta.simplify.clauses = [] ++ pasta :: [] := by rfl
  have hsame : pasta.same pasta = true := by rfl
  exact ⟨hchange, hold, hnew, exists_later_of_restated (.inl hchange) hnew hold rfl hsame⟩

/-- A clause with another one on its field behind it can be said again: it is taken for a change, and
the other clause is let go. -/
theorem restated_accepted :
    ¬ (∀ old new refined : Filter, old.change new = some refined →
        ∀ c ∈ new.simplify.clauses, c.slotField?.isSome → ∀ d ∈ old.simplify.clauses,
          c.same d = false) ∧
      ¬ (∀ old new refined : Filter, old.answerOrChange new = some refined →
        ∀ c ∈ new.simplify.clauses, c.slotField?.isSome → ∀ d ∈ old.simplify.clauses,
          c.same d = false) := by
  have hchange : ∃ refined, pastaAndWine.change pasta = some refined := ⟨_, rfl⟩
  have hanswer : ∃ refined, pastaAndWine.answerOrChange pasta = some refined := ⟨_, rfl⟩
  have hnew : pasta ∈ pasta.simplify.clauses := List.mem_cons_self
  have hold : pasta ∈ pastaAndWine.simplify.clauses := List.mem_cons_self
  have hsame : pasta.same pasta = true := by rfl
  constructor
  · intro h
    obtain ⟨refined, hchange⟩ := hchange
    have hdiffer := h pastaAndWine pasta refined hchange pasta hnew rfl pasta hold
    exact absurd hsame (by simp [hdiffer])
  · intro h
    obtain ⟨refined, hanswer⟩ := hanswer
    have hdiffer := h pastaAndWine pasta refined hanswer pasta hnew rfl pasta hold
    exact absurd hsame (by simp [hdiffer])

end Colloquy.Filter
