import Colloquy.Proofs.Filter.Clauses

namespace Colloquy.Filter

theorem isContingent_of_slotField? {f c : Filter} {field : String} (hc : c ∈ f.simplify.clauses)
    (hfield : c.slotField? = some field) : f.IsContingent := by
  constructor
  · intro halways
    rw [halways] at hc
    obtain rfl : c = always := List.mem_singleton.mp hc
    cases hfield
  · intro hnever
    rw [hnever] at hc
    obtain rfl : c = never := List.mem_singleton.mp hc
    cases hfield

theorem isReplacedBy_of_isUntouchedBy {new clause : Filter} (h : isUntouchedBy new clause = true) :
    isReplacedBy new clause = false :=
  isReplacedBy_eq_false (isUntouchedBy_iff.mp h).2

theorem slotField?_ne_of_isReplacedBy {new clause : Filter} {field : String}
    (h : isReplacedBy new clause = false) (hfield : new.slots.has field = true) :
    clause.slotField? ≠ some field := by
  intro hclause
  have hreplaced : isReplacedBy new clause = true :=
    isReplacedBy_iff.mpr ⟨field, hclause, has_slots_iff.mp hfield⟩
  exact absurd hreplaced (by simp [h])

/-- Clauses in front that are on other fields do not change what stands for a field, and neither does
it that the clauses equal to them are dropped. -/
theorem get?_slots_eq_of_clauses {f new : Filter} {kept : List Filter} {field : String}
    (hclauses : f.simplify.clauses = kept ++ new.simplify.clauses.filter (!covers kept ·))
    (hkept : ∀ c ∈ kept, c.slotField? ≠ some field) :
    f.slots.get? field = new.slots.get? field := by
  have hnone : kept.reverse.find? (·.slotField? = some field) = none := by
    rw [List.find?_eq_none]
    intro c hc
    simpa using hkept c (List.mem_reverse.mp hc)
  have hadded : ∀ c : Filter, c.slotField? = some field → covers kept c = false := by
    intro c hc
    rw [Bool.eq_false_iff]
    intro hcovered
    obtain ⟨d, hd, hsame⟩ := covers_iff.mp hcovered
    exact hkept d hd ((slotField?_eq_of_same hsame).trans hc)
  rw [get?_slots, get?_slots, hclauses, List.reverse_append, List.find?_append, hnone,
    Option.or_none, ← List.filter_reverse, List.find?_filter]
  congr 1
  funext c
  by_cases hc : c.slotField? = some field
  · simp [hc, hadded c hc]
  · simp [hc]

/-- What stands for a field of a new filter stands for it in the refined filter too, if the new filter
has no clause for a field of the clauses that stay. -/
theorem get?_slots_of_kept {old new refined : Filter} {p : Filter → Bool} {field : String}
    (hnew : new.IsContingent) (hfield : new.slots.has field = true)
    (hp : ∀ c, p c = true → isReplacedBy new.simplify c = false)
    (hrefined : refined =
      (Filter.and (old.simplify.clauses.filter p ++ [new.simplify])).simplify) :
    refined = never ∨ refined.slots.get? field = new.slots.get? field := by
  rw [simplify_and_of_isNormal isNormal_of_mem_concat] at hrefined
  cases hkept : Connective.remains .and (old.simplify.clauses.filter p) with
  | none =>
    -- One of the clauses that stay is never true.
    left
    rw [hrefined, Connective.combine_eq_remains, Connective.remains_append, hkept]
    rfl
  | some kept =>
    right
    have hsimple : refined.simplify = refined := by
      rw [hrefined]
      exact simplify_eq_self (Connective.isNormal_combine isNormal_of_mem_concat)
    have hnormal : ∀ c ∈ old.simplify.clauses.filter p, c.IsNormal :=
      fun c hc => isNormal_of_mem_clauses (List.mem_filter.mp hc).1
    obtain ⟨hreduced, hne⟩ := hnew.isReduced_clauses
    have hclauses : refined.simplify.clauses =
        kept ++ new.simplify.clauses.filter (!covers kept ·) := by
      rw [clauses_eq_operands] at hreduced hne
      rw [hsimple, hrefined, clauses_eq_operands, clauses_eq_operands new.simplify]
      exact Connective.operands_combine_concat hkept
        (Connective.isReduced_of_remains hnormal hkept).1 hreduced hne
    refine get?_slots_eq_of_clauses hclauses fun c hc => ?_
    -- What is left of the clauses that stay is some of them, since none of them is a conjunction.
    obtain ⟨d, hd, hcd, _⟩ := Connective.mem_operands_of_remains hkept c hc
    obtain ⟨hmem, hpd⟩ := List.mem_filter.mp hd
    rw [← clauses_eq_operands, clauses_of_mem_clauses hmem] at hcd
    obtain rfl : c = d := List.mem_singleton.mp hcd
    exact slotField?_ne_of_isReplacedBy (hp c hpd) (by rwa [slots_simplify])

theorem refused_of_get?_slots {old new c : Filter} {field : String}
    (hold : old.slots.get? field = some c) (hnew : new.slots.get? field = some c) :
    old.change new = none ∧ old.answerOrChange new = none := by
  rw [← slots_simplify] at hold hnew
  have hrefused : ∀ refined, ¬ (old.change new = some refined ∨
      old.answerOrChange new = some refined) := by
    intro refined haccepted
    have hdiffer := slots_differ_of_accepted haccepted hnew hold
    exact absurd (restates_self c) (by simp [hdiffer])
  constructor
  · exact Option.eq_none_iff_forall_ne_some.mpr fun refined h => hrefused refined (Or.inl h)
  · exact Option.eq_none_iff_forall_ne_some.mpr fun refined h => hrefused refined (Or.inr h)

theorem change_never {new : Filter} {field : String} (hfield : new.slots.has field = true) :
    never.change new = none := by
  rw [Option.eq_none_iff_forall_ne_some]
  intro refined h
  obtain ⟨_, hconstrained, _⟩ := change_eq_some_iff.mp h
  rw [slots_simplify] at hconstrained
  obtain ⟨slot, hslot, rfl⟩ := List.mem_map.mp (Entries.has_iff_mem_names.mp hfield)
  obtain ⟨c, hc, hcfield⟩ := has_slots_iff.mp (hconstrained slot hslot)
  obtain rfl : c = never := List.mem_singleton.mp hc
  cases hcfield

/-- A change that was made is refused when it is asked for again, and so is an answer that may be a
change, if the new filter has a clause for some field. -/
theorem refused_again {ctx new c : Filter} {field : String} (hc : c ∈ new.simplify.clauses)
    (hfield : c.slotField? = some field) :
    (∀ refined, ctx.change new = some refined → refined.change new = none) ∧
      (ctx.IsUnpinned → ∀ refined, ctx.answerOrChange new = some refined → refined ≠ never →
        refined.answerOrChange new = none) := by
  have hhas : new.slots.has field = true := has_slots_iff.mpr ⟨c, hc, hfield⟩
  have hcontingent := isContingent_of_slotField? hc hfield
  obtain ⟨d, hd⟩ := Option.isSome_iff_exists.mp hhas
  constructor
  · intro refined h
    obtain ⟨_, _, hrefined⟩ := change_eq_some_iff.mp h
    rcases get?_slots_of_kept hcontingent hhas (fun _ => isReplacedBy_of_isUntouchedBy) hrefined
      with rfl | hslot
    · exact change_never hhas
    · exact (refused_of_get?_slots (hslot.trans hd) hd).1
  · intro hunpinned refined h hpossible
    obtain ⟨_, _, hrefined⟩ := answerOrChange_eq_some_iff.mp h
    rw [hunpinned.map_neutralize_clauses] at hrefined
    have hslot := (get?_slots_of_kept hcontingent hhas (by simp) hrefined).resolve_left hpossible
    exact (refused_of_get?_slots (hslot.trans hd) hd).2

/-- Italian places are asked for twice. -/
theorem refused_again_offers :
    thaiOffers.IsUnpinned ∧
      (∃ refined, thaiOffers.change italianOffers = some refined ∧
        refined.change italianOffers = none) ∧
      ∃ refined, thaiOffers.answerOrChange italianOffers = some refined ∧ refined ≠ never ∧
        refined.answerOrChange italianOffers = none := by
  have hclauses : italianOffers.simplify.clauses = [atom ⟨"cuisine", .like, .string "italian"⟩,
      offers, external "shop" "visit" [] always] := by rfl
  have hc : atom ⟨"cuisine", .like, .string "italian"⟩ ∈ italianOffers.simplify.clauses := by
    simp [hclauses]
  have hunpinned : thaiOffers.IsUnpinned := by
    simp [IsUnpinned, thaiOffers, offers, visits, slotClauses, slotClausesAll, Atom.isIdentity]
  have hchange : ∃ refined, thaiOffers.change italianOffers = some refined := ⟨_, rfl⟩
  have hanswer : ∃ fs, thaiOffers.answerOrChange italianOffers = some (and fs) := ⟨_, rfl⟩
  obtain ⟨changed, hchange⟩ := hchange
  obtain ⟨fs, hanswer⟩ := hanswer
  have hpossible : and fs ≠ never := by simp
  obtain ⟨hagain, hagain'⟩ := @refused_again thaiOffers italianOffers _ _ hc rfl
  exact ⟨hunpinned, ⟨changed, hchange, hagain changed hchange⟩, and fs, hanswer, hpossible,
    hagain' hunpinned (and fs) hanswer hpossible⟩

/-- A clause is found again although it holds a number that is none. -/
example : let unknown := atom ⟨"stars", .equal, .number (.nan false)⟩
    unknown.same unknown = false ∧ unknown.change unknown = none := by
  decide

/-- Whether a filter is one atom on a field or a conjunction of such atoms when it is simplified. -/
def IsAbout (f : Filter) (field : String) : Prop :=
  ∀ c ∈ f.simplify.clauses, ∃ a, c = atom a ∧ a.field = field

namespace IsAbout

variable {f : Filter} {field : String}

theorem exists_clause (h : f.IsAbout field) :
    ∃ c ∈ f.simplify.clauses, c.slotField? = some field := by
  obtain ⟨c, hc⟩ := List.exists_mem_of_ne_nil _ f.clauses_simplify_ne_nil
  obtain ⟨a, rfl, ha⟩ := h c hc
  exact ⟨atom a, hc, congrArg some ha⟩

theorem mem_fields_simplify_iff (h : f.IsAbout field) {name : String} :
    name ∈ f.simplify.fields ↔ name = field := by
  rw [mem_fields_iff_clauses]
  constructor
  · rintro ⟨c, hc, hname⟩
    obtain ⟨a, rfl, ha⟩ := h c hc
    rw [fields_atom, List.mem_singleton] at hname
    exact hname.trans ha
  · rintro rfl
    obtain ⟨c, hc, hfield⟩ := h.exists_clause
    exact ⟨c, hc, mem_fields_of_slotField? hfield⟩

theorem has_slots_iff_eq (h : f.IsAbout field) {name : String} :
    f.slots.has name = true ↔ name = field := by
  rw [has_slots_iff]
  constructor
  · rintro ⟨c, hc, hname⟩
    obtain ⟨a, rfl, ha⟩ := h c hc
    exact (Option.some.inj hname).symm.trans ha
  · rintro rfl
    exact h.exists_clause

theorem has_negatedSlots (h : f.IsAbout field) (name : String) :
    f.negatedSlots.has name = false := by
  refine Entries.has_eq_false fun c hc => ?_
  obtain ⟨hmem, hnegated⟩ := mem_clauses_of_mem_table hc
  obtain ⟨a, rfl, _⟩ := h c hmem
  cases hnegated

end IsAbout

theorem length_changed_le {old new : Filter} {field : String} (hnew : new.IsAbout field) :
    (old.slots.filter (new.slots.has ·.1)).length ≤ 1 := by
  let changed := old.slots.filter (new.slots.has ·.1)
  have hnodup : (Entries.names changed).Nodup :=
    (Entries.nodup_names_ofList _).sublist (List.filter_sublist.map Prod.fst)
  have hnames : ∀ name ∈ Entries.names changed, name = field := by
    intro name hname
    obtain ⟨slot, hslot, rfl⟩ := List.mem_map.mp hname
    exact hnew.has_slots_iff_eq.mp (List.mem_filter.mp hslot).2
  have hlength : (Entries.names changed).length = changed.length := List.length_map _
  rw [List.eq_replicate_of_mem hnames, List.nodup_replicate, hlength] at hnodup
  exact hnodup

/-- A clause that is an atom wherever it mentions the field stays in a change just where it stays in an
answer that may be a change. -/
theorem isUntouchedBy_eq {new clause : Filter} {field : String} (hnew : new.IsAbout field)
    (hexternal : clause.hasExternal = false)
    (hclause : field ∈ clause.fields → ∃ a, clause = atom a) :
    isUntouchedBy new.simplify clause = !isReplacedBy new.simplify clause := by
  by_cases hmentioned : field ∈ clause.fields
  · obtain ⟨a, rfl⟩ := hclause hmentioned
    obtain rfl : field = a.field := by simpa using hmentioned
    have hreplaced : isReplacedBy new.simplify (atom a) = true :=
      isReplacedBy_iff.mpr ⟨a.field, rfl, by rw [simplify_simplify]; exact hnew.exists_clause⟩
    have htouched : isUntouchedBy new.simplify (atom a) = false := by
      rw [Bool.eq_false_iff]
      intro huntouched
      have hapart := (isUntouchedBy_iff.mp huntouched).2
      exact hapart a.field hmentioned (hnew.mem_fields_simplify_iff.mpr rfl)
    rw [hreplaced, htouched]
    rfl
  · have hapart : Apart clause new.simplify := by
      intro name hname hn
      exact hmentioned (hnew.mem_fields_simplify_iff.mp hn ▸ hname)
    rw [isReplacedBy_eq_false hapart, isUntouchedBy_iff.mpr ⟨hexternal, hapart⟩]
    rfl

/-- A change of one field that the old filter mentions in atoms at the top alone is accepted as an answer
that may be a change too, with the same filter. -/
theorem answerOrChange_of_change {old new refined : Filter} {field : String}
    (hnew : new.IsAbout field) (hexternal : old.simplify.hasExternal = false)
    (hunpinned : old.simplify.IsUnpinned)
    (hatoms : ∀ c ∈ old.simplify.clauses, field ∈ c.fields → ∃ a, c = atom a)
    (h : old.change new = some refined) : old.answerOrChange new = some refined := by
  obtain ⟨hdiffer, _, hrefined⟩ := change_eq_some_iff.mp h
  have hkept : old.simplify.clauses.filter (isUntouchedBy new.simplify) =
      (old.simplify.clauses.filter (!isReplacedBy new.simplify ·)).map neutralize := by
    have hfixed := hunpinned.map_neutralize_clauses (!isReplacedBy new.simplify ·)
    rw [simplify_simplify] at hfixed
    rw [hfixed]
    refine List.filter_congr fun c hc => isUntouchedBy_eq hnew ?_ (hatoms c hc)
    exact isInherited_hasExternal.clauses hexternal c hc
  rw [hkept] at hrefined
  rw [slots_simplify, slots_simplify] at hdiffer
  refine answerOrChange_eq_some_iff.mpr ⟨?_, ?_, hrefined⟩
  · intro slot hslot
    rw [slots_simplify] at hslot
    obtain ⟨hmem, hfield⟩ := mem_clauses_of_mem_table hslot
    rw [conflicts_eq_false_iff, negatedSlots_simplify, slots_simplify]
    refine ⟨hnew.has_negatedSlots slot.1, fun c hc => ⟨?_, hdiffer slot hslot c hc⟩⟩
    have hhas : new.slots.has slot.1 = true := by simp [Entries.has, hc]
    have hname : slot.1 = field := hnew.has_slots_iff_eq.mp hhas
    obtain ⟨a, ha⟩ := hatoms slot.2 hmem (hname ▸ mem_fields_of_slotField? hfield)
    intro field hdontCare
    cases ha.symm.trans hdontCare
  · rw [slots_simplify, slots_simplify]
    exact length_changed_le hnew

/-- Roman places take the place of Thai and Asian ones. -/
theorem answerOrChange_of_change_roman :
    let thai := and [atom ⟨"cuisine", .equal, .string "thai"⟩, or [offers, dontCare "area"],
      not (dontCare "area"), atom ⟨"cuisine", .like, .string "asian"⟩]
    let roman := and [atom ⟨"cuisine", .like, .string "italian"⟩,
      or [atom ⟨"cuisine", .like, .string "roman"⟩, never]]
    roman.IsAbout "cuisine" ∧ thai.simplify.hasExternal = false ∧ thai.simplify.IsUnpinned ∧
      (∀ c ∈ thai.simplify.clauses, "cuisine" ∈ c.fields → ∃ a, c = atom a) ∧
      ∃ refined, thai.change roman = some refined ∧ thai.answerOrChange roman = some refined := by
  intro thai roman
  have hnew : roman.IsAbout "cuisine" := by
    have hclauses : roman.simplify.clauses = [atom ⟨"cuisine", .like, .string "italian"⟩,
        atom ⟨"cuisine", .like, .string "roman"⟩] := by rfl
    rw [IsAbout, hclauses]
    simp
  have hexternal : thai.simplify.hasExternal = false := by rfl
  have hclauses : thai.simplify.clauses = [atom ⟨"cuisine", .equal, .string "thai"⟩,
      or [atom ⟨"price", .equal, .enum "cheap"⟩, not (dontCare "menu"), dontCare "area"],
      not (dontCare "area"), atom ⟨"cuisine", .like, .string "asian"⟩] := by rfl
  have hunpinned : thai.simplify.IsUnpinned := by
    apply isInherited_isUnpinned.simplify
    simp [IsUnpinned, thai, offers, slotClauses, slotClausesAll, Atom.isIdentity]
  have hatoms : ∀ c ∈ thai.simplify.clauses, "cuisine" ∈ c.fields → ∃ a, c = atom a := by
    rw [hclauses]
    simp [fields, slotClauses, slotClausesAll, slotField?]
  have hchange : ∃ refined, thai.change roman = some refined := ⟨_, rfl⟩
  obtain ⟨refined, hchange⟩ := hchange
  exact ⟨hnew, hexternal, hunpinned, hatoms, refined, hchange,
    answerOrChange_of_change hnew hexternal hunpinned hatoms hchange⟩

end Colloquy.Filter
