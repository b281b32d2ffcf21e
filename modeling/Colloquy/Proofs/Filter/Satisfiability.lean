import Colloquy.Proofs.Filter.Monotone
import Colloquy.Proofs.Filter.Slots

namespace Colloquy

/-- Some fields as they are in one row, and all others as they are in another. -/
def Row.graft (fields : List String) (scion stock : Row) : Row :=
  scion.filter (fields.contains ·.1) ++ stock.filter (!fields.contains ·.1)

theorem Row.get?_graft (fields : List String) (scion stock : Row) (name : String) :
    (graft fields scion stock).get? name =
      if name ∈ fields then scion.get? name else stock.get? name := by
  rw [graft, Entries.get?_append, Entries.get?_filter scion (fields.contains ·),
    Entries.get?_filter stock (!fields.contains ·)]
  by_cases h : name ∈ fields <;> simp [h]

theorem Row.nodup_names_graft (fields : List String) {scion stock : Row}
    (hscion : scion.names.Nodup) (hstock : stock.names.Nodup) :
    (graft fields scion stock).names.Nodup := by
  have hnames : (graft fields scion stock).names =
      scion.names.filter (fields.contains ·) ++ stock.names.filter (!fields.contains ·) := by
    simp [graft, Entries.names, List.filter_map, Function.comp_def]
  rw [hnames, List.nodup_append]
  refine ⟨hscion.filter _, hstock.filter _, ?_⟩
  rintro a ha b hb rfl
  have hin : fields.contains a = true := (List.mem_filter.mp ha).2
  have hout : (!fields.contains a) = true := (List.mem_filter.mp hb).2
  rw [hin] at hout
  cases hout

namespace Filter

def IsSatisfiable (f : Filter) : Prop :=
  ∃ row : Row, row.names.Nodup ∧ f.holdsForRow row = .ok true

theorem holdsForRow_and_iff {fs : List Filter} {row : Row} :
    (Filter.and fs).holdsForRow row = .ok true ↔ ∀ f ∈ fs, f.holdsForRow row = .ok true := by
  rw [holdsForRow, ← show Connective.join .and fs = Filter.and fs from rfl, verdict_join]
  exact Connective.settle_eq_neutral_iff

theorem holdsForRow_clauses {f : Filter} {row : Row} (h : f.holdsForRow row = .ok true) :
    ∀ c ∈ f.clauses, c.holdsForRow row = .ok true := by
  rw [clauses_eq_operands]
  refine Connective.settle_eq_neutral_iff.mp (?_ : Connective.settle .and _ _ = .ok true)
  rw [Connective.settle_operands]
  exact h

/-- Two rows grow together to one that fulfils what either of them fulfils, if they agree on the
fields that both sides mention. -/
theorem isSatisfiable_simplify_and {fs : List Filter} {new : Filter} {row other : Row}
    (hrow : row.names.Nodup) (hfs : ∀ f ∈ fs, f.holdsForRow row = .ok true)
    (hother : other.names.Nodup) (hnew : new.holdsForRow other = .ok true)
    (hagree : ∀ f ∈ fs, ∀ name ∈ f.fields, name ∈ new.fields → row.get? name = other.get? name) :
    (Filter.and (fs ++ [new])).simplify.IsSatisfiable := by
  refine ⟨Row.graft new.fields other row, Row.nodup_names_graft _ hother hrow, ?_⟩
  refine verdict_simplify (testRow_bare _) (holdsForRow_and_iff.mpr fun f hf => ?_)
  rcases List.mem_append.mp hf with hf | hf
  · have hsame : ∀ name ∈ f.fields,
        (Row.graft new.fields other row).get? name = row.get? name := by
      intro name hn
      rw [Row.get?_graft]
      split
      next hm => exact (hagree f hf name hn hm).symm
      next => rfl
    rw [holdsForRow_congr hsame, hfs f hf]
  · obtain rfl : f = new := List.mem_singleton.mp hf
    have hsame : ∀ name ∈ f.fields,
        (Row.graft f.fields other row).get? name = other.get? name := by
      intro name hn
      rw [Row.get?_graft, if_pos hn]
    rw [holdsForRow_congr hsame, hnew]

/-- A filter can be fulfilled together with others that mention none of its fields, if these can be
fulfilled by one row. -/
theorem IsSatisfiable.simplify_and {fs : List Filter} {new : Filter} {row : Row}
    (hnew : new.IsSatisfiable) (hrow : row.names.Nodup)
    (hfs : ∀ f ∈ fs, Apart f new ∧ f.holdsForRow row = .ok true) :
    (Filter.and (fs ++ [new])).simplify.IsSatisfiable := by
  obtain ⟨other, hother, hholds⟩ := hnew
  refine isSatisfiable_simplify_and hrow (fun f hf => (hfs f hf).2) hother hholds ?_
  intro f hf name hn hm
  exact absurd hm ((hfs f hf).1 name hn)

/-- Changing constraints, and answering where no identifier is pinned, leaves a filter that can be
fulfilled if both of its parts can. -/
theorem isSatisfiable_of_refined {ctx new : Filter} (hctx : ctx.IsSatisfiable)
    (hnew : new.IsSatisfiable) :
    (∀ refined, ctx.change new = some refined → refined.IsSatisfiable) ∧
      (ctx.IsUnpinned → ∀ refined, ctx.answer new = some refined → refined.IsSatisfiable) := by
  obtain ⟨row, hrow, hholds⟩ := hctx
  constructor
  · intro refined h
    obtain ⟨_, _, rfl⟩ := change_eq_some_iff.mp h
    obtain ⟨scion, hscion, hfulfilled⟩ := hnew
    have hsimple : new.simplify.IsSatisfiable :=
      ⟨scion, hscion, verdict_simplify (testRow_bare scion) hfulfilled⟩
    have hclauses := holdsForRow_clauses (verdict_simplify (testRow_bare row) hholds)
    -- The clauses that stay mention no field of `new`: this is what the change looks at.
    refine hsimple.simplify_and hrow fun c hc => ?_
    obtain ⟨hmem, huntouched⟩ := List.mem_filter.mp hc
    exact ⟨(isUntouchedBy_iff.mp huntouched).2, hclauses c hmem⟩
  · intro hunpinned refined h
    obtain ⟨hapart, rfl⟩ := answer_eq_some_iff.mp h
    rw [neutralForm, hunpinned.neutralize_eq, ← simplify_and_pair]
    have hfs : ∀ f ∈ [ctx], Apart f new ∧ f.holdsForRow row = .ok true := by
      simpa using ⟨hapart, hholds⟩
    exact hnew.simplify_and hrow hfs

/-- Thai places that are cheap or have more than three stars. -/
def thaiBargain : Filter :=
  and [atom ⟨"cuisine", .equal, .string "thai"⟩,
    or [atom ⟨"price", .equal, .enum "cheap"⟩,
      not (atom ⟨"stars", .atMost, .number (.ofInt 3)⟩)]]

/-- Italian places take the place of Thai ones, and an area is added to them. -/
theorem isSatisfiable_of_refined_bargain :
    let italian := atom ⟨"cuisine", .like, .string "italian"⟩
    let downtown := or [atom ⟨"area", .equal, .string "soma"⟩, dontCare "area"]
    thaiBargain.IsSatisfiable ∧ italian.IsSatisfiable ∧ downtown.IsSatisfiable ∧
      thaiBargain.IsUnpinned ∧
      (∃ refined, thaiBargain.change italian = some refined ∧ refined.IsSatisfiable) ∧
      ∃ refined, thaiBargain.answer downtown = some refined ∧ refined.IsSatisfiable := by
  intro italian downtown
  have hctx : thaiBargain.IsSatisfiable :=
    ⟨[("cuisine", .string "thai"), ("price", .enum "cheap")], by decide, rfl⟩
  have hitalian : italian.IsSatisfiable := ⟨[("cuisine", .string "italian")], by decide, rfl⟩
  have hdowntown : downtown.IsSatisfiable := ⟨[], by decide, rfl⟩
  have hunpinned : thaiBargain.IsUnpinned := by
    simp [IsUnpinned, thaiBargain, slotClauses, slotClausesAll, Atom.isIdentity]
  have hchange : ∃ refined, thaiBargain.change italian = some refined := ⟨_, rfl⟩
  have hanswer : ∃ refined, thaiBargain.answer downtown = some refined := ⟨_, rfl⟩
  obtain ⟨changed, hchange⟩ := hchange
  obtain ⟨answered, hanswer⟩ := hanswer
  exact ⟨hctx, hitalian, hdowntown, hunpinned,
    ⟨changed, hchange, (isSatisfiable_of_refined hctx hitalian).1 changed hchange⟩,
    answered, hanswer, (isSatisfiable_of_refined hctx hdowntown).2 hunpinned answered hanswer⟩

/-- Answering or changing leaves a filter that can be fulfilled if both of its parts can, by rows that
show the same wherever the new filter and a clause that stays mention the same field. A clause stays
unless it is an atom or a don't-care on a field for which the new filter has one at the top. -/
theorem isSatisfiable_of_answerOrChange {ctx new refined : Filter} {row other : Row}
    (hunpinned : ctx.IsUnpinned) (hrow : row.names.Nodup) (hctx : ctx.holdsForRow row = .ok true)
    (hother : other.names.Nodup) (hnew : new.holdsForRow other = .ok true)
    (hagree : ∀ c ∈ ctx.simplify.clauses,
      (∀ field, c.slotField? = some field → ∀ d ∈ new.simplify.clauses, d.slotField? ≠ some field) →
        ∀ name ∈ c.fields, name ∈ new.simplify.fields → row.get? name = other.get? name)
    (h : ctx.answerOrChange new = some refined) : refined.IsSatisfiable := by
  obtain ⟨_, _, rfl⟩ := answerOrChange_eq_some_iff.mp h
  have hclauses := holdsForRow_clauses (verdict_simplify (testRow_bare row) hctx)
  have hfulfilled : new.simplify.holdsForRow other = .ok true :=
    verdict_simplify (testRow_bare other) hnew
  rw [hunpinned.map_neutralize_clauses]
  refine isSatisfiable_simplify_and hrow ?_ hother hfulfilled ?_
  · intro c hc
    exact hclauses c (List.mem_filter.mp hc).1
  · intro c hc
    obtain ⟨hmem, hstays⟩ := List.mem_filter.mp hc
    refine hagree c hmem fun field hfield d hd hslot => ?_
    have hreplaced : isReplacedBy new.simplify c = true :=
      isReplacedBy_iff.mpr ⟨field, hfield, d, by rwa [simplify_simplify], hslot⟩
    simp [hreplaced] at hstays

/-- Italian places take the place of Thai ones. Both filters speak of stars. -/
theorem isSatisfiable_of_answerOrChange_bargain :
    let starred := and [atom ⟨"cuisine", .like, .string "italian"⟩,
      atom ⟨"stars", .atLeast, .number (.ofInt 4)⟩]
    let row : Row := [("cuisine", .string "thai"), ("price", .enum "cheap"),
      ("stars", .number (.ofInt 4))]
    let other : Row := [("cuisine", .string "italian"), ("stars", .number (.ofInt 4))]
    thaiBargain.IsUnpinned ∧ thaiBargain.holdsForRow row = .ok true ∧
      starred.holdsForRow other = .ok true ∧ row.get? "stars" = other.get? "stars" ∧
      ∃ refined, thaiBargain.answerOrChange starred = some refined ∧ refined.IsSatisfiable := by
  intro starred row other
  have hunpinned : thaiBargain.IsUnpinned := by
    simp [IsUnpinned, thaiBargain, slotClauses, slotClausesAll, Atom.isIdentity]
  have hrow : thaiBargain.holdsForRow row = .ok true := by rfl
  have hother : starred.holdsForRow other = .ok true := by rfl
  have hstars : row.get? "stars" = other.get? "stars" := by rfl
  have hanswer : ∃ refined, thaiBargain.answerOrChange starred = some refined := ⟨_, rfl⟩
  obtain ⟨refined, hanswer⟩ := hanswer
  refine ⟨hunpinned, hrow, hother, hstars, refined, hanswer, ?_⟩
  refine isSatisfiable_of_answerOrChange hunpinned (by decide) hrow (by decide) hother ?_ hanswer
  intro c hc hstays name hname hmentioned
  have hnames : name = "cuisine" ∨ name = "stars" := by
    have hfields : starred.simplify.fields = ["cuisine", "stars"] := by rfl
    simpa [hfields] using hmentioned
  rcases hnames with rfl | rfl
  · have hclauses : thaiBargain.simplify.clauses = [atom ⟨"cuisine", .equal, .string "thai"⟩,
        or [atom ⟨"price", .equal, .enum "cheap"⟩,
          not (atom ⟨"stars", .atMost, .number (.ofInt 3)⟩)]] := by rfl
    rw [hclauses] at hc
    rcases List.mem_cons.mp hc with rfl | hc
    · exact absurd rfl (hstays "cuisine" rfl _ List.mem_cons_self)
    · obtain rfl := List.mem_singleton.mp hc
      exact absurd hname (by decide)
  · exact hstars

/-- A negated clause does not stand for its field. It stays, and the new filter may ask for just what
it excludes. -/
theorem answerOrChange_not_satisfiable :
    ¬ (∀ ctx new refined : Filter, ctx.IsUnpinned → ctx.IsSatisfiable → new.IsSatisfiable →
      ctx.answerOrChange new = some refined → refined.IsSatisfiable) := by
  intro h
  let thai := atom ⟨"cuisine", .equal, .string "thai"⟩
  have hunpinned : (not thai).IsUnpinned := by
    simp [IsUnpinned, thai, slotClauses, Atom.isIdentity]
  have hctx : (not thai).IsSatisfiable := ⟨[("cuisine", .string "italian")], by decide, rfl⟩
  have hnew : thai.IsSatisfiable := ⟨[("cuisine", .string "thai")], by decide, rfl⟩
  have hanswer : (not thai).answerOrChange thai = some (and [not thai, thai]) := by rfl
  obtain ⟨row, _, hholds⟩ := h (not thai) thai _ hunpinned hctx hnew hanswer
  have hboth := holdsForRow_and_iff.mp hholds
  have hthai : thai.holdsForRow row = .ok true := hboth thai (by simp)
  have hother : thai.holdsForRow row = .ok false := map_not_eq_ok_iff.mp (hboth (not thai) (by simp))
  exact absurd (hthai.symm.trans hother) (by simp)

end Filter

end Colloquy
