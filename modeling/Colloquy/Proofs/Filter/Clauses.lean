import Colloquy.Proofs.Filter.Slots

namespace Colloquy

namespace Connective

variable {k : Connective}

/-- A filter in normal form that is no constant has operands that the connective leaves as they
are. -/
theorem isReduced_operands {f : Filter} (h : f.IsNormal) (halways : f ≠ .always)
    (hnever : f ≠ .never) : k.IsReduced (k.operands f) ∧ k.operands f ≠ [] := by
  rcases k.cases_of_filter f with hunit | hzero | ⟨fs, rfl⟩ | hoperand
  · cases k
    · exact absurd hunit halways
    · exact absurd hunit hnever
  · cases k
    · exact absurd hzero hnever
    · exact absurd hzero halways
  · obtain ⟨hlength, hreduced, _⟩ := isNormal_join_iff.mp h
    rw [operands_join]
    refine ⟨hreduced, ?_⟩
    rintro rfl
    simp at hlength
  · rw [hoperand.operands_eq]
    exact ⟨⟨by simpa using hoperand, List.pairwise_singleton _ f⟩, List.cons_ne_nil _ _⟩

theorem IsReduced.filter {fs : List Filter} (h : k.IsReduced fs) (p : Filter → Bool) :
    k.IsReduced (fs.filter p) :=
  ⟨fun f hf => h.operand f (List.mem_filter.mp hf).1, h.pairwise.sublist List.filter_sublist⟩

theorem operands_ofOperands {fs : List Filter} (h : ∀ f ∈ fs, k.IsOperand f) (hne : fs ≠ []) :
    k.operands (k.ofOperands fs) = fs := by
  rcases k.ofOperands_cases fs with ⟨hnil, _⟩ | ⟨f, rfl, hf⟩ | ⟨_, hjoin⟩
  · exact absurd hnil hne
  · rw [hf, (h f List.mem_cons_self).operands_eq]
  · rw [hjoin, operands_join]

theorem remains_concat {fs ls : List Filter} {g : Filter} (hfs : k.remains fs = some ls)
    (hg : k.IsReduced (k.operands g)) :
    k.remains (fs ++ [g]) = some (ls ++ (k.operands g).filter (!Filter.covers ls ·)) := by
  have hsingle : k.remains [g] = some (k.operands g) :=
    hg.remains_of_operands (List.flatMap_singleton _ _)
  rw [remains_append, hfs, hsingle]
  rfl

/-- The operands of a further filter come behind those that are there, unless they are among them. -/
theorem operands_combine_concat {fs ls : List Filter} {g : Filter} (hfs : k.remains fs = some ls)
    (hls : k.IsReduced ls) (hg : k.IsReduced (k.operands g)) (hne : k.operands g ≠ []) :
    k.operands (k.combine (fs ++ [g])) =
      ls ++ (k.operands g).filter (!Filter.covers ls ·) := by
  have hoperands : ∀ f ∈ ls ++ (k.operands g).filter (!Filter.covers ls ·), k.IsOperand f := by
    intro f hf
    rcases List.mem_append.mp hf with hf | hf
    · exact hls.operand f hf
    · exact hg.operand f (List.mem_filter.mp hf).1
  have hsome : ls ++ (k.operands g).filter (!Filter.covers ls ·) ≠ [] := by
    rcases ls with _ | ⟨f, rest⟩
    · have hall : (k.operands g).filter (!Filter.covers [] ·) = k.operands g :=
        List.filter_eq_self.mpr fun _ _ => rfl
      rw [hall]
      exact hne
    · exact List.cons_ne_nil _ _
  rw [combine_eq_remains, remains_concat hfs hg]
  exact operands_ofOperands hoperands hsome

end Connective

namespace Filter

/-- Whether a filter is neither of the constants when it is simplified. -/
def IsContingent (f : Filter) : Prop :=
  f.simplify ≠ .always ∧ f.simplify ≠ .never

/-- Whether a filter is among the clauses of another, up to equality of filters. -/
def HasClause (f c : Filter) : Prop :=
  ∃ d ∈ f.clauses, d = c ∨ d.same c = true

theorem IsContingent.isReduced_operands {f : Filter} (k : Connective) (h : f.IsContingent) :
    k.IsReduced (k.operands f.simplify) ∧ k.operands f.simplify ≠ [] :=
  Connective.isReduced_operands f.isNormal_simplify h.1 h.2

theorem IsContingent.isReduced_clauses {f : Filter} (h : f.IsContingent) :
    Connective.IsReduced .and f.simplify.clauses ∧ f.simplify.clauses ≠ [] := by
  rw [clauses_eq_operands]
  exact h.isReduced_operands .and

theorem clauses_simplify_ne_nil (f : Filter) : f.simplify.clauses ≠ [] := by
  by_cases halways : f.simplify = always
  · simp [halways, clauses]
  by_cases hnever : f.simplify = never
  · simp [hnever, clauses]
  · exact (IsContingent.isReduced_clauses ⟨halways, hnever⟩).2

theorem isNormal_of_mem_clauses {f c : Filter} (hc : c ∈ f.simplify.clauses) : c.IsNormal := by
  rw [clauses_eq_operands] at hc
  exact (Connective.operands_of_isNormal f.isNormal_simplify c hc).1

theorem clauses_of_mem_clauses {f c : Filter} (hc : c ∈ f.simplify.clauses) : c.clauses = [c] := by
  rw [clauses_eq_operands] at hc ⊢
  rcases (Connective.operands_of_isNormal f.isNormal_simplify c hc).2 with rfl | rfl | hoperand
  · rfl
  · rfl
  · exact hoperand.operands_eq

theorem simplify_and_of_isNormal {fs : List Filter} (h : ∀ f ∈ fs, f.IsNormal) :
    (Filter.and fs).simplify = Connective.combine .and fs := by
  have hmap : fs.map simplify = fs := by
    rw [List.map_congr_left fun f hf => simplify_eq_self (h f hf), List.map_id']
  have hjoin := simplify_join .and fs
  rwa [hmap] at hjoin

theorem isNormal_of_mem_concat {old new : Filter} {p : Filter → Bool} :
    ∀ f ∈ old.simplify.clauses.filter p ++ [new.simplify], f.IsNormal := by
  intro f hf
  rcases List.mem_append.mp hf with hf | hf
  · exact isNormal_of_mem_clauses (List.mem_filter.mp hf).1
  · exact List.mem_singleton.mp hf ▸ new.isNormal_simplify

theorem clauses_simplify_and {old new : Filter} (hold : old.IsContingent) (hnew : new.IsContingent)
    (p : Filter → Bool) :
    (Filter.and (old.simplify.clauses.filter p ++ [new.simplify])).simplify.clauses =
      old.simplify.clauses.filter p ++
        new.simplify.clauses.filter (!covers (old.simplify.clauses.filter p) ·) := by
  have hkept : Connective.IsReduced .and (old.simplify.clauses.filter p) :=
    hold.isReduced_clauses.1.filter p
  obtain ⟨hreduced, hne⟩ := hnew.isReduced_clauses
  rw [clauses_eq_operands] at hreduced hne
  rw [simplify_and_of_isNormal isNormal_of_mem_concat, clauses_eq_operands,
    clauses_eq_operands new.simplify]
  exact Connective.operands_combine_concat hkept.remains_self hkept hreduced hne

theorem anyExternal_eq_any (fs : List Filter) : anyExternal fs = fs.any hasExternal := by
  induction fs with
  | nil => rfl
  | cons f rest ih => simp [anyExternal, ih]

theorem hasExternal_join (k : Connective) (fs : List Filter) :
    (k.join fs).hasExternal = fs.any hasExternal := by
  cases k <;> simp [Connective.join, hasExternal, anyExternal_eq_any]

theorem isInherited_hasExternal : IsInherited fun f => f.hasExternal = false where
  always := rfl
  never := rfl
  not_iff f := by rw [hasExternal]
  join_iff k fs := by simp [hasExternal_join, List.any_eq_false]
  external s c ps f _ h := by cases h

theorem hasExternal_bare (f : Filter) : f.bare.hasExternal = f.hasExternal := by
  induction f using connectiveInduction with
  | not f ih => simp [bare, hasExternal, ih]
  | join k fs ih =>
    have hmap : fs.map (hasExternal ∘ bare) = fs.map hasExternal := List.map_congr_left ih
    have hany := congrArg (List.any · id) hmap
    simpa [bare_join, hasExternal_join, List.any_map] using hany
  | _ => rfl

theorem hasExternal_eq_of_same {f g : Filter} (h : f.same g = true) :
    f.hasExternal = g.hasExternal := by
  rw [← hasExternal_bare f, (same_iff.mp h).1, hasExternal_bare]

/-- A change keeps each clause that has nothing to do with other queries and with the fields of the
new filter, has on these fields what the new filter says, and lets predicates over other queries
go. -/
theorem change_replaces {old new refined : Filter} (hold : old.IsContingent) (hnew : new.IsContingent)
    (h : old.change new = some refined) :
    (∀ c ∈ old.simplify.clauses, c.hasExternal = false →
        (∀ name ∈ c.fields, name ∉ new.simplify.fields) → c ∈ refined.clauses) ∧
      (∀ c ∈ refined.clauses, (∃ name ∈ c.fields, name ∈ new.simplify.fields) →
        c ∈ new.simplify.clauses) ∧
      ∀ c ∈ old.simplify.clauses, c.hasExternal = true → ¬ new.simplify.HasClause c →
        ¬ refined.HasClause c := by
  obtain ⟨_, _, rfl⟩ := change_eq_some_iff.mp h
  have hclauses := clauses_simplify_and hold hnew (isUntouchedBy new.simplify)
  refine ⟨?_, ?_, ?_⟩
  · intro c hc hexternal hapart
    have huntouched : isUntouchedBy new.simplify c = true :=
      isUntouchedBy_iff.mpr ⟨hexternal, hapart⟩
    rw [hclauses]
    exact List.mem_append_left _ (List.mem_filter.mpr ⟨hc, huntouched⟩)
  · rintro c hc ⟨name, hname, hmentioned⟩
    rw [hclauses] at hc
    rcases List.mem_append.mp hc with hc | hc
    · obtain ⟨_, hapart⟩ := isUntouchedBy_iff.mp (List.mem_filter.mp hc).2
      exact absurd hmentioned (hapart name hname)
    · exact (List.mem_filter.mp hc).1
  · rintro c _ hexternal habsent ⟨d, hd, heq⟩
    rw [hclauses] at hd
    rcases List.mem_append.mp hd with hd | hd
    · obtain ⟨hnone, _⟩ := isUntouchedBy_iff.mp (List.mem_filter.mp hd).2
      have hsame : d.hasExternal = c.hasExternal := by
        rcases heq with rfl | hsame
        · rfl
        · exact hasExternal_eq_of_same hsame
      exact absurd (hexternal.symm.trans (hsame.symm.trans hnone)) (by simp)
    · exact habsent ⟨d, (List.mem_filter.mp hd).1, heq⟩

def visits : Filter :=
  external "shop" "visit" [⟨"guest", .varRef "user"⟩] (atom ⟨"stars", .atLeast, .number (.ofInt 4)⟩)

/-- Places that are cheap or whose menu matters. -/
def offers : Filter :=
  or [atom ⟨"price", .equal, .enum "cheap"⟩, not (dontCare "menu")]

def thaiOffers : Filter :=
  and [atom ⟨"cuisine", .equal, .string "thai"⟩, visits, and [offers, dontCare "area"]]

def italianOffers : Filter :=
  and [atom ⟨"cuisine", .like, .string "italian"⟩, offers, external "shop" "visit" [] always]

theorem isContingent_of_simplify_eq {f : Filter} {fs : List Filter} (h : f.simplify = and fs) :
    f.IsContingent := by
  rw [IsContingent, h]
  exact ⟨nofun, nofun⟩

theorem change_replaces_offers :
    thaiOffers.IsContingent ∧ italianOffers.IsContingent ∧
      ∃ refined, thaiOffers.change italianOffers = some refined ∧
        dontCare "area" ∈ refined.clauses ∧
        (∀ c ∈ refined.clauses, (∃ name ∈ c.fields, name ∈ italianOffers.simplify.fields) →
          c ∈ italianOffers.simplify.clauses) ∧ ¬ refined.HasClause visits := by
  have hold : thaiOffers.IsContingent := isContingent_of_simplify_eq rfl
  have hnew : italianOffers.IsContingent := isContingent_of_simplify_eq rfl
  have hclauses : thaiOffers.simplify.clauses =
      [atom ⟨"cuisine", .equal, .string "thai"⟩, visits, offers, dontCare "area"] := by rfl
  have hclauses' : italianOffers.simplify.clauses =
      [atom ⟨"cuisine", .like, .string "italian"⟩, offers, external "shop" "visit" [] always] := by
    rfl
  have harea : dontCare "area" ∈ thaiOffers.simplify.clauses := by simp [hclauses]
  have hapart : ∀ name ∈ (dontCare "area").fields, name ∉ italianOffers.simplify.fields := by decide
  have hvisits : visits ∈ thaiOffers.simplify.clauses := by simp [hclauses]
  have habsent : ¬ italianOffers.simplify.HasClause visits := by
    simp [HasClause, hclauses', visits, offers, same, sameBy, Param.sameAll]
  have hchange : ∃ refined, thaiOffers.change italianOffers = some refined := ⟨_, rfl⟩
  obtain ⟨refined, hchange⟩ := hchange
  obtain ⟨hkept, hadded, hdropped⟩ := change_replaces hold hnew hchange
  exact ⟨hold, hnew, refined, hchange, hkept _ harea rfl hapart, hadded,
    hdropped visits hvisits rfl habsent⟩

/-- An answer that may be a change lets go clauses on one field at most, and takes over each clause
of the new filter. -/
theorem answerOrChange_changes_one_field {old new refined : Filter} (hunpinned : old.IsUnpinned)
    (hold : old.IsContingent) (hnew : new.IsContingent) (h : old.answerOrChange new = some refined) :
    ∃ field, (∀ c ∈ old.simplify.clauses, c ∉ refined.clauses → c.slotField? = some field) ∧
      ∀ c ∈ new.simplify.clauses, refined.HasClause c := by
  obtain ⟨field, hfield⟩ := exists_field_of_isReplacedBy h
  obtain ⟨_, _, hrefined⟩ := answerOrChange_eq_some_iff.mp h
  let kept := old.simplify.clauses.filter (!isReplacedBy new.simplify ·)
  have hclauses : refined.clauses = kept ++ new.simplify.clauses.filter (!covers kept ·) := by
    rw [hrefined, hunpinned.map_neutralize_clauses]
    exact clauses_simplify_and hold hnew _
  refine ⟨field, ?_, ?_⟩
  · intro c hc hmissing
    apply hfield c hc
    by_cases hreplaced : isReplacedBy new.simplify c = true
    · exact hreplaced
    · have hmem : c ∈ kept := List.mem_filter.mpr ⟨hc, by simpa using hreplaced⟩
      rw [hclauses] at hmissing
      exact absurd (List.mem_append_left _ hmem) hmissing
  · intro c hc
    rw [HasClause, hclauses]
    by_cases hcovered : covers kept c = true
    · obtain ⟨d, hd, hsame⟩ := covers_iff.mp hcovered
      exact ⟨d, List.mem_append_left _ hd, Or.inr hsame⟩
    · have hadded : c ∈ new.simplify.clauses.filter (!covers kept ·) :=
        List.mem_filter.mpr ⟨hc, by simpa using hcovered⟩
      exact ⟨c, List.mem_append_right _ hadded, Or.inl rfl⟩

theorem answerOrChange_changes_one_field_offers :
    thaiOffers.IsUnpinned ∧ thaiOffers.IsContingent ∧ italianOffers.IsContingent ∧
      ∃ refined, thaiOffers.answerOrChange italianOffers = some refined ∧
        ∃ field, (∀ c ∈ thaiOffers.simplify.clauses, c ∉ refined.clauses →
          c.slotField? = some field) ∧
            ∀ c ∈ italianOffers.simplify.clauses, refined.HasClause c := by
  have hunpinned : thaiOffers.IsUnpinned := by
    simp [IsUnpinned, thaiOffers, offers, visits, slotClauses, slotClausesAll, Atom.isIdentity]
  have hold : thaiOffers.IsContingent := isContingent_of_simplify_eq rfl
  have hnew : italianOffers.IsContingent := isContingent_of_simplify_eq rfl
  have hanswer : ∃ refined, thaiOffers.answerOrChange italianOffers = some refined := ⟨_, rfl⟩
  obtain ⟨refined, hanswer⟩ := hanswer
  exact ⟨hunpinned, hold, hnew, refined, hanswer,
    answerOrChange_changes_one_field hunpinned hold hnew hanswer⟩

end Filter

end Colloquy
