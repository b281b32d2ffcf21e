import Colloquy.Proofs.Filter.Neutral

namespace Colloquy.Filter

/-- No field is mentioned by both filters. -/
def Apart (f g : Filter) : Prop :=
  ∀ name ∈ f.fields, name ∉ g.fields

instance (f g : Filter) : Decidable (Apart f g) :=
  inferInstanceAs (Decidable (∀ name ∈ f.fields, name ∉ g.fields))

theorem Apart.simplify {f g : Filter} (h : Apart f g) : Apart f.simplify g.simplify :=
  fun name hf hg => h name (fields_simplify_subset f hf) (fields_simplify_subset g hg)

/-- No atom outside other queries pins the identifier. -/
def IsUnpinned (f : Filter) : Prop :=
  ∀ c ∈ f.slotClauses, ∀ a, c = .atom a → a.isIdentity = false

theorem isInherited_isUnpinned : IsInherited IsUnpinned :=
  isInherited_slotClauses _

def pinsIdentity : Filter → Bool
  | atom a => a.isIdentity
  | _ => false

theorem isUnpinned_iff {f : Filter} :
    f.IsUnpinned ↔ ∀ c ∈ f.slotClauses, c.pinsIdentity = false := by
  refine forall₂_congr fun c _ => ?_
  cases c <;> simp [pinsIdentity]

instance (f : Filter) : Decidable f.IsUnpinned :=
  decidable_of_iff _ isUnpinned_iff.symm

/-- Of the atoms and don't-cares of a filter, those that pin the identifier go and all others stay. -/
theorem slotClauses_neutralize (f : Filter) :
    f.neutralize.slotClauses = f.slotClauses.filter (!·.pinsIdentity) := by
  induction f using connectiveInduction with
  | atom a => cases h : a.isIdentity <;> simp [neutralize, slotClauses, pinsIdentity, h]
  | not f ih => exact ih
  | join k fs ih =>
    rw [neutralize_join, slotClauses_join, slotClauses_join, List.flatMap_map, List.filter_flatMap,
      List.flatMap_def, List.flatMap_def, List.map_congr_left ih]
  | _ => rfl

theorem isUnpinned_neutralize (f : Filter) : f.neutralize.IsUnpinned := by
  rw [isUnpinned_iff, slotClauses_neutralize]
  intro c hc
  simpa using (List.mem_filter.mp hc).2

theorem IsUnpinned.neutralize_eq {f : Filter} (h : f.IsUnpinned) : f.neutralize = f := by
  induction f using connectiveInduction with
  | not f ih => rw [neutralize, ih h]
  | join k fs ih =>
    have hfs := (isInherited_isUnpinned.join_iff k fs).mp h
    rw [neutralize_join, List.map_congr_left fun f hf => ih f hf (hfs f hf), List.map_id']
  | atom a =>
    have ha := h (.atom a) List.mem_cons_self a rfl
    simp [neutralize, ha]
  | _ => rfl

theorem IsUnpinned.map_neutralize_clauses {f : Filter} (h : f.IsUnpinned) (p : Filter → Bool) :
    (f.simplify.clauses.filter p).map neutralize = f.simplify.clauses.filter p := by
  have hclauses := isInherited_isUnpinned.clauses (isInherited_isUnpinned.simplify h)
  have hfixed : ∀ c ∈ f.simplify.clauses.filter p, c.neutralize = c :=
    fun c hc => IsUnpinned.neutralize_eq (hclauses c (List.mem_filter.mp hc).1)
  rw [List.map_congr_left hfixed, List.map_id']

theorem simplify_and_pair (f g : Filter) :
    (Filter.and [f, g]).simplify = Connective.combine .and [f.simplify, g.simplify] :=
  simplify_join .and [f, g]

theorem answer_eq_some_iff {old new refined : Filter} :
    old.answer new = some refined ↔
      Apart old new ∧ refined = Connective.combine .and [old.neutralForm, new.simplify] := by
  rw [answer, Option.ite_none_left_eq_some, conjoin, simplify_and_pair, Option.some.injEq,
    eq_comm (a := refined), Bool.not_eq_true, List.any_eq_false]
  simp only [mentions_iff]
  rfl

theorem change_eq_some_iff {old new refined : Filter} :
    old.change new = some refined ↔
      (∀ slot ∈ old.simplify.slots, ∀ c, new.simplify.slots.get? slot.1 = some c →
        c.restates slot.2 = false) ∧
      (∀ slot ∈ new.simplify.slots, old.simplify.slots.has slot.1 = true) ∧
      refined = (Filter.and (old.simplify.clauses.filter (isUntouchedBy new.simplify) ++
        [new.simplify])).simplify := by
  simp only [change]
  rw [Option.ite_none_left_eq_some, Bool.or_eq_true, not_or, and_assoc, Option.some.injEq,
    eq_comm (a := refined), Bool.not_eq_true, Bool.not_eq_true, List.any_eq_false,
    List.any_eq_false]
  simp only [Bool.not_eq_true, Bool.not_eq_false']
  refine and_congr_left fun _ => forall₂_congr fun slot _ => ?_
  cases new.simplify.slots.get? slot.1 <;> simp

theorem answerOrChange_eq_some_iff {old new refined : Filter} :
    old.answerOrChange new = some refined ↔
      (∀ slot ∈ old.simplify.slots, conflicts new.simplify slot.1 slot.2 = false) ∧
      (old.simplify.slots.filter fun slot => new.simplify.slots.has slot.1).length ≤ 1 ∧
      refined = (Filter.and ((old.simplify.clauses.filter (!isReplacedBy new.simplify ·)).map
        neutralize ++ [new.simplify])).simplify := by
  simp only [answerOrChange]
  rw [Option.ite_none_left_eq_some, Bool.or_eq_true, not_or, and_assoc, Option.some.injEq,
    eq_comm (a := refined), Bool.not_eq_true, List.any_eq_false, decide_eq_true_eq, Nat.not_lt]
  simp only [Bool.not_eq_true]

/-- Each way to combine two filters puts together what they have. -/
theorem IsInherited.strategy {P : Filter → Prop} (hP : IsInherited P) {s : Strategy}
    {old new refined : Filter} (hold : P old) (hnew : P new)
    (h : s.combine old new = some refined) : P refined := by
  have hclauses := hP.clauses (hP.simplify hold)
  cases s with
  | answer =>
    obtain ⟨_, rfl⟩ := answer_eq_some_iff.mp h
    exact hP.combine (by simpa using ⟨hP.simplify (hP.neutralize hold), hP.simplify hnew⟩)
  | change =>
    obtain ⟨_, _, rfl⟩ := change_eq_some_iff.mp h
    apply hP.simplify_and
    intro c hc
    rcases List.mem_append.mp hc with hc | hc
    · exact hclauses c (List.mem_filter.mp hc).1
    · exact List.mem_singleton.mp hc ▸ hP.simplify hnew
  | answerOrChange =>
    obtain ⟨_, _, rfl⟩ := answerOrChange_eq_some_iff.mp h
    apply hP.simplify_and
    intro c hc
    rcases List.mem_append.mp hc with hc | hc
    · obtain ⟨d, hd, rfl⟩ := List.mem_map.mp hc
      exact hP.neutralize (hclauses d (List.mem_filter.mp hd).1)
    · exact List.mem_singleton.mp hc ▸ hP.simplify hnew
  | conjoin =>
    cases h
    exact hP.simplify_and (by simpa using ⟨hold, hnew⟩)

theorem mem_fields_of_slotField? {c : Filter} {name : String} (h : c.slotField? = some name) :
    name ∈ c.fields := by
  refine mem_fields_iff.mpr ⟨c, ?_, h⟩
  cases c <;> first | exact List.mem_cons_self | cases h

theorem mem_fields_of_negatedField? {c : Filter} {name : String} (h : c.negatedField? = some name) :
    name ∈ c.fields := by
  cases c with
  | not f => exact mem_fields_of_slotField? (c := f) h
  | _ => cases h

theorem mem_clauses_of_mem_table {f : Filter} {slot : String × Filter}
    {field? : Filter → Option String}
    (h : slot ∈ Entries.ofList (f.simplify.clauses.filterMap fun c => (field? c).map (·, c))) :
    slot.2 ∈ f.simplify.clauses ∧ field? slot.2 = some slot.1 := by
  obtain ⟨c, hc, hs⟩ := List.mem_filterMap.mp (Entries.mem_of_mem_ofList h)
  obtain ⟨name, hn, rfl⟩ := Option.map_eq_some_iff.mp hs
  exact ⟨hc, hn⟩

theorem mem_fields_of_mem_table {f : Filter} {slot : String × Filter}
    {field? : Filter → Option String} (hfield : ∀ c name, field? c = some name → name ∈ c.fields)
    (h : slot ∈ Entries.ofList (f.simplify.clauses.filterMap fun c => (field? c).map (·, c))) :
    slot.1 ∈ f.fields := by
  obtain ⟨hc, hn⟩ := mem_clauses_of_mem_table h
  exact fields_simplify_subset f (fields_subset_of_mem_clauses hc (hfield slot.2 slot.1 hn))

theorem mem_fields_of_mem_slots {f : Filter} {slot : String × Filter} (h : slot ∈ f.slots) :
    slot.1 ∈ f.fields :=
  mem_fields_of_mem_table (fun _ _ => mem_fields_of_slotField?) h

theorem mem_fields_of_mem_negatedSlots {f : Filter} {slot : String × Filter}
    (h : slot ∈ f.negatedSlots) : slot.1 ∈ f.fields :=
  mem_fields_of_mem_table (fun _ _ => mem_fields_of_negatedField?) h

theorem has_slots_eq_false {f : Filter} {name : String} (h : name ∉ f.fields) :
    f.slots.has name = false :=
  Entries.has_eq_false fun _ hm => h (mem_fields_of_mem_slots hm)

/-- A new filter may follow a clause if it does not negate the field, and if a clause that it has for the
field itself is a different one and takes the place of no don't-care. -/
theorem conflicts_eq_false_iff {new clause : Filter} {name : String} :
    conflicts new name clause = false ↔
      new.negatedSlots.has name = false ∧ ∀ c, new.slots.get? name = some c →
        (∀ field, clause ≠ dontCare field) ∧ c.restates clause = false := by
  unfold conflicts
  rw [Bool.or_eq_false_iff]
  refine and_congr_right fun _ => ?_
  cases new.slots.get? name with
  | none => simp
  | some c => cases clause <;> simp

theorem conflicts_eq_false {new clause : Filter} {name : String} (h : name ∉ new.fields) :
    conflicts new name clause = false := by
  have hn : new.negatedSlots.has name = false :=
    Entries.has_eq_false fun _ hm => h (mem_fields_of_mem_negatedSlots hm)
  have hs : new.slots.get? name = none := by
    simpa [Entries.has] using has_slots_eq_false h
  exact conflicts_eq_false_iff.mpr ⟨hn, by simp [hs]⟩

theorem isReplacedBy_eq_false {new clause : Filter} (h : Apart clause new) :
    isReplacedBy new clause = false := by
  unfold isReplacedBy
  split
  next field hf => exact has_slots_eq_false (h field (mem_fields_of_slotField? hf))
  next => rfl

theorem isUntouchedBy_iff {new clause : Filter} :
    isUntouchedBy new clause = true ↔ clause.hasExternal = false ∧ Apart clause new := by
  rw [isUntouchedBy, Bool.and_eq_true, Bool.not_eq_true', Bool.not_eq_true', List.any_eq_false]
  simp only [mentions_iff]
  rfl

theorem Apart.of_mem_clauses {f g c : Filter} (h : Apart f g) (hc : c ∈ f.clauses) : Apart c g :=
  fun name hn => h name (fields_subset_of_mem_clauses hc hn)

theorem simplify_and_neutralize_clauses (old new : Filter) :
    (Filter.and (old.simplify.clauses.map neutralize ++ [new.simplify])).simplify =
      Connective.combine .and [old.neutralForm, new.simplify] := by
  have hclauses : Connective.remains .and (old.simplify.clauses.map neutralForm) =
      Connective.remains .and [old.neutralForm] := by
    rw [clauses_eq_operands, Connective.remains_neutralForm_operands, neutralForm_simplify]
  have hmap : (old.simplify.clauses.map neutralize ++ [new.simplify]).map simplify =
      old.simplify.clauses.map neutralForm ++ [new.simplify] := by
    rw [List.map_append, List.map_map, List.map_singleton, simplify_simplify]
    rfl
  calc (Filter.and (old.simplify.clauses.map neutralize ++ [new.simplify])).simplify
      = Connective.combine .and (old.simplify.clauses.map neutralForm ++ [new.simplify]) := by
        rw [← hmap]
        exact simplify_join .and _
    _ = Connective.combine .and [old.neutralForm, new.simplify] :=
        Connective.combine_congr (Connective.remains_append_congr hclauses rfl)

/-- What is accepted as an answer is accepted as an answer or a change, with the same filter. -/
theorem answerOrChange_of_answer {old new refined : Filter} (h : old.answer new = some refined) :
    old.answerOrChange new = some refined := by
  obtain ⟨hapart, rfl⟩ := answer_eq_some_iff.mp h
  have hsimple := hapart.simplify
  have hslot : ∀ slot ∈ old.simplify.slots, slot.1 ∉ new.simplify.fields :=
    fun slot hs => hsimple slot.1 (mem_fields_of_mem_slots hs)
  have hkept : old.simplify.clauses.filter (!isReplacedBy new.simplify ·) =
      old.simplify.clauses := by
    rw [List.filter_eq_self]
    intro c hc
    rw [isReplacedBy_eq_false (hsimple.of_mem_clauses hc)]
    rfl
  have hchanged : (old.simplify.slots.filter fun slot => new.simplify.slots.has slot.1) = [] := by
    rw [List.filter_eq_nil_iff]
    intro slot hs
    simp [has_slots_eq_false (hslot slot hs)]
  refine answerOrChange_eq_some_iff.mpr ⟨fun slot hs => conflicts_eq_false (hslot slot hs), ?_, ?_⟩
  · simp [hchanged]
  · rw [hkept, simplify_and_neutralize_clauses]

theorem answer_simplify {old new refined : Filter} (h : old.answer new = some refined) :
    old.simplify.answer new.simplify = some refined := by
  obtain ⟨hapart, rfl⟩ := answer_eq_some_iff.mp h
  refine answer_eq_some_iff.mpr ⟨hapart.simplify, ?_⟩
  rw [neutralForm_simplify, simplify_simplify]

theorem change_simplify (old new : Filter) : old.simplify.change new.simplify = old.change new := by
  simp only [change, simplify_simplify]

theorem answerOrChange_simplify (old new : Filter) :
    old.simplify.answerOrChange new.simplify = old.answerOrChange new := by
  simp only [answerOrChange, simplify_simplify]

theorem conjoin_simplify (old new : Filter) :
    old.simplify.conjoin new.simplify = old.conjoin new := by
  simp only [conjoin, simplify_and_pair, simplify_simplify]

/-- A search after a choice. Letting the choice go makes constants and a duplicate in it. -/
def visited : Filter :=
  let chosen := atom ⟨"id", .equal, .entity "r1" "shop" .null⟩
  let thai := atom ⟨"cuisine", .equal, .string "thai"⟩
  and [or [and [chosen, thai], not (not thai)], not (not chosen), or [thai, not (dontCare "area")]]

def affordable : Filter :=
  let cheap := atom ⟨"price", .equal, .enum "cheap"⟩
  and [or [cheap, never], and [cheap, always]]

theorem answerOrChange_of_answer_visited :
    let refined := and [atom ⟨"cuisine", .equal, .string "thai"⟩,
      or [atom ⟨"cuisine", .equal, .string "thai"⟩, not (dontCare "area")],
      atom ⟨"price", .equal, .enum "cheap"⟩]
    visited.answer affordable = some refined ∧ visited.answerOrChange affordable = some refined := by
  intro refined
  have h : visited.answer affordable = some refined := by rfl
  exact ⟨h, answerOrChange_of_answer h⟩

/-- It makes no difference whether filters are simplified before the identifier is let go in them, and
what is accepted of two filters is accepted of their simplified forms, with the same filter. -/
theorem combine_simplified :
    (∀ f : Filter, f.simplify.neutralize.simplify = f.neutralize.simplify) ∧
      ∀ (s : Strategy) (old new refined : Filter), s.combine old new = some refined →
        s.combine old.simplify new.simplify = some refined := by
  refine ⟨neutralForm_simplify, ?_⟩
  intro s old new refined h
  cases s with
  | answer => exact answer_simplify h
  | change => exact (change_simplify old new).trans h
  | answerOrChange => exact (answerOrChange_simplify old new).trans h
  | conjoin => exact (congrArg some (conjoin_simplify old new)).trans h

/-- Another place is chosen in place of the first, and a price is asked for. -/
theorem combine_simplified_visited :
    let other := or [and [atom ⟨"id", .equal, .entity "r2" "shop" .null⟩, always], never]
    visited.simplify.neutralize.simplify = visited.neutralize.simplify ∧
      (∃ refined, visited.change other = some refined ∧
        visited.simplify.change other.simplify = some refined) ∧
      (∃ refined, visited.answer affordable = some refined ∧
        visited.simplify.answer affordable.simplify = some refined) ∧
      ∃ refined, visited.answerOrChange affordable = some refined ∧
        visited.simplify.answerOrChange affordable.simplify = some refined := by
  intro other
  have hchange : ∃ refined, visited.change other = some refined := ⟨_, rfl⟩
  have hanswer : ∃ refined, visited.answer affordable = some refined := ⟨_, rfl⟩
  have heither : ∃ refined, visited.answerOrChange affordable = some refined := ⟨_, rfl⟩
  obtain ⟨changed, hchange⟩ := hchange
  obtain ⟨answered, hanswer⟩ := hanswer
  obtain ⟨combined, heither⟩ := heither
  obtain ⟨hneutral, hsimplified⟩ := combine_simplified
  exact ⟨hneutral visited, ⟨changed, hchange, hsimplified .change visited other changed hchange⟩,
    ⟨answered, hanswer, hsimplified .answer visited affordable answered hanswer⟩,
    combined, heither, hsimplified .answerOrChange visited affordable combined heither⟩

/-- Answers on different fields can be given in two turns or in one, if the first does not pin the
identifier. -/
theorem answer_answer {ctx a b : Filter} (ha : Apart ctx a) (hb : Apart ctx b) (hab : Apart a b)
    (hid : a.IsUnpinned) :
    ∃ first refined, ctx.answer a = some first ∧ first.answer b = some refined ∧
      ctx.answer (.and [a, b]) = some refined := by
  have hP := isInherited_isUnpinned
  let first := Connective.combine .and [ctx.neutralForm, a.simplify]
  have hfirst : first.neutralForm = first := by
    have hnormal : first.IsNormal :=
      Connective.isNormal_combine (by simpa using ⟨ctx.isNormal_neutralForm, a.isNormal_simplify⟩)
    have hunpinned : first.IsUnpinned :=
      hP.combine (by simpa using ⟨hP.simplify ctx.isUnpinned_neutralize, hP.simplify hid⟩)
    rw [neutralForm, hunpinned.neutralize_eq, simplify_eq_self hnormal]
  have hfb : Apart first b := by
    have hF := isInherited_fields (· ∉ b.fields)
    exact hF.combine (by simpa using ⟨hF.simplify (hF.neutralize hb), hF.simplify hab⟩)
  have hcab : Apart ctx (.and [a, b]) := by
    intro name hn hm
    obtain ⟨f, hf, hnf⟩ := mem_fields_and.mp hm
    have hpair : f = a ∨ f = b := by simpa using hf
    rcases hpair with rfl | rfl
    · exact ha name hn hnf
    · exact hb name hn hnf
  refine ⟨first, Connective.combine .and [first, b.simplify], answer_eq_some_iff.mpr ⟨ha, rfl⟩,
    answer_eq_some_iff.mpr ⟨hfb, by rw [hfirst]⟩, answer_eq_some_iff.mpr ⟨hcab, ?_⟩⟩
  have hleft : ∀ f ∈ [ctx.neutralForm, a.simplify], f.IsNormal := by
    simpa using ⟨ctx.isNormal_neutralForm, a.isNormal_simplify⟩
  have hright : ∀ f ∈ [a.simplify, b.simplify], f.IsNormal := by
    simpa using ⟨a.isNormal_simplify, b.isNormal_simplify⟩
  calc Connective.combine .and [first, b.simplify]
      = Connective.combine .and [ctx.neutralForm, a.simplify, b.simplify] :=
        Connective.combine_flatten [] [b.simplify] hleft
    _ = Connective.combine .and [ctx.neutralForm, Connective.combine .and [a.simplify, b.simplify]] :=
        (Connective.combine_flatten [ctx.neutralForm] [] hright).symm
    _ = Connective.combine .and [ctx.neutralForm, (Filter.and [a, b]).simplify] := by
        rw [simplify_and_pair]

theorem answer_answer_visited :
    let good := not (or [atom ⟨"stars", .atMost, .number (.ofInt 3)⟩, never])
    Apart visited affordable ∧ Apart visited good ∧ Apart affordable good ∧
      affordable.IsUnpinned ∧ ∃ first refined, visited.answer affordable = some first ∧
        first.answer good = some refined ∧
          visited.answer (.and [affordable, good]) = some refined := by
  intro good
  have hva : Apart visited affordable := by decide
  have hvg : Apart visited good := by decide
  have hag : Apart affordable good := by decide
  have hid : affordable.IsUnpinned := by
    simp [IsUnpinned, affordable, slotClauses, slotClausesAll, Atom.isIdentity]
  exact ⟨hva, hvg, hag, hid, answer_answer hva hvg hag hid⟩

end Colloquy.Filter
