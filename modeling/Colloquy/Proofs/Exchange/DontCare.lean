import Colloquy.Exchange.Phrase
import Colloquy.Proofs.Filter.DontCare
import Colloquy.Exchange.Stop
import Colloquy.Proofs.Table.Refinement
import Colloquy.Proofs.Table.Typing

namespace Colloquy

namespace Table

theorem isValid_iff {t : Table} :
    t.isValid = true ↔ ∀ node ∈ t.filterNodes,
      node.2.isWellTyped node.1.signature = true ∧ node.2.isContradictory = false := by
  simp [isValid]

namespace HoldsFilter

variable {t base : Table} {layers : List Layer} {f g : Filter}

theorem mem_filterNodes (h : t.HoldsFilter layers base f) {node : Table × Filter}
    (hnode : node ∈ (stack layers (filter base g)).filterNodes) :
    node = (base, g) ∨ node ∈ t.filterNodes := by
  rcases h with hway | ⟨⟨c, rfl⟩, _, hway⟩
  · rw [← hway.replaceTip_eq] at hnode
    rcases mem_filterNodes_replaceTip hnode with hold | hnew
    · exact Or.inr hold
    · refine (List.mem_cons.mp hnew).imp_right fun hbase => ?_
      rw [hway.1, filterNodes_stack]
      exact List.mem_append_right _ (List.mem_cons_of_mem _ hbase)
  · rw [← hway.replaceTip_eq] at hnode
    exact (mem_filterNodes_replaceTip hnode).symm.imp_left List.mem_singleton.mp

theorem isValid_stack (h : t.HoldsFilter layers base f) (ht : t.isValid = true)
    (htyped : g.isWellTyped base.signature = true) (hclear : g.isContradictory = false) :
    (stack layers (filter base g)).isValid = true := by
  refine isValid_iff.mpr fun node hnode => ?_
  rcases h.mem_filterNodes hnode with rfl | hnode
  · exact ⟨htyped, hclear⟩
  · exact isValid_iff.mp ht node hnode

theorem valid_filter (h : t.HoldsFilter layers base f) (ht : t.isValid = true) :
    f.isWellTyped base.signature = true ∧ f.isContradictory = false := by
  rcases h with ⟨rfl, _⟩ | ⟨_, rfl, _, _⟩
  · refine isValid_iff.mp ht (base, f) ?_
    rw [filterNodes_stack]
    exact List.mem_append_right _ List.mem_cons_self
  · exact ⟨rfl, rfl⟩

end HoldsFilter

end Table

namespace Statement

open Table

variable {s next : Statement} {field : String}

theorem addDontCare_eq_ok_iff :
    s.addDontCare field = .ok next ↔ ∃ t a, s.table = some t ∧
      t.signature.isFilterable field = true ∧ t.attachment = .ok (some a) ∧
      a.filter.mentions field = false ∧
      next = { s with table := some (a.withFilter (a.filter.conjoin (.dontCare field))) } := by
  unfold addDontCare
  simp only [bind_eq_ok_iff, Stop.ofOption_eq_ok_iff, Stop.require_eq_ok_iff,
    Stop.ofUnsupported_eq_ok_iff, Bool.not_eq_true', Except.ok.injEq]
  constructor
  · rintro ⟨t, ht, _, hfilterable, _, hplace, a, rfl, _, hmentions, rfl⟩
    exact ⟨t, a, ht, hfilterable, hplace, hmentions, rfl⟩
  · rintro ⟨t, a, ht, hfilterable, hplace, hmentions, rfl⟩
    exact ⟨t, ht, (), hfilterable, _, hplace, a, rfl, (), hmentions, rfl⟩

theorem addDontCare_eq_reject {t : Table} {a : Attachment} (ht : s.table = some t)
    (hfilterable : t.signature.isFilterable field = true) (ha : t.attachment = .ok (some a))
    (hmentions : a.filter.mentions field = true) : s.addDontCare field = Stop.reject := by
  simp [addDontCare, ht, hfilterable, ha, hmentions, Stop.ofOption, Stop.require, Stop.ofUnsupported,
    Stop.reject, bind, Except.bind]

/-- A don't-care that is added changes a query where it has its filter, and nothing else. The filter
keeps its verdict on all rows on which it has one, the query calls the same functions and stays valid.
Unless nothing fulfils the filter, it then mentions the field, and the same is not added again. -/
theorem addDontCare_keeps (h : s.addDontCare field = .ok next) :
    ∃ t a refined new, s.table = some t ∧ t.attachment = .ok (some a) ∧
      next = { s with table := some refined } ∧
      refined.attachment = .ok (some ⟨refined, a.base, new⟩) ∧
      (∃ layers, t.HoldsFilter layers a.base a.filter ∧ refined = stack layers (filter a.base new)) ∧
      (∀ row verdict, a.filter.holdsForRow row = .ok verdict → new.holdsForRow row = .ok verdict) ∧
      refined.functionNames = t.functionNames ∧
      (t.isValid = true → refined.isValid = true) ∧
      (a.filter.simplify ≠ .never →
        new.mentions field = true ∧ next.addDontCare field = Stop.reject) := by
  obtain ⟨t, a, ht, hfilterable, ha, _, rfl⟩ := addDontCare_eq_ok_iff.mp h
  obtain ⟨hold, hroot⟩ := holdsFilter_of_attachment ha
  let new := a.filter.conjoin (.dontCare field)
  have hnew : a.withFilter new = stack t.layers (filter a.base new) := by
    rw [Attachment.withFilter, hroot, replaceTip_stack]
    rfl
  have hplace : (a.withFilter new).attachment = .ok (some ⟨a.withFilter new, a.base, new⟩) :=
    attachment_of_tip_filter (by rw [hnew, tip_stack]; rfl)
  refine ⟨t, a, a.withFilter new, new, ht, ha, rfl, hplace, ⟨t.layers, hold, hnew⟩, ?_, ?_, ?_, ?_⟩
  · exact fun row verdict => Filter.holdsForRow_conjoin_dontCare
  · rw [hnew, hold.functionNames_eq]
  · intro hvalid
    obtain ⟨htyped, hclear⟩ := hold.valid_filter hvalid
    -- the root shows no field that the base lacks, so what can be filtered on there can be here
    have hfield : (Filter.dontCare field).isWellTyped a.base.signature = true :=
      Filter.isWellTyped_of_narrows hold.narrows hfilterable
    rw [hnew]
    refine hold.isValid_stack hvalid ?_ (Filter.isContradictory_conjoin_dontCare hclear)
    exact (Filter.isInherited_isWellTyped a.base.signature).simplify_and (by simp [htyped, hfield])
  · intro hnever
    have hmentions : new.mentions field = true := Filter.mentions_conjoin_dontCare hnever
    refine ⟨hmentions, addDontCare_eq_reject rfl ?_ hplace hmentions⟩
    rw [hnew, hold.signature_eq]
    exact hfilterable

def noodles : Filter :=
  .atom ⟨"tags", .contains, .string "noodles"⟩

/-- Whoever takes any number of stars still gets reviews of noodles only. -/
theorem addDontCare_keeps_stars :
    let before := Statement.ofTable (thaiReviews noodles ["stars"])
    let after := Statement.ofTable (thaiReviews (.and [noodles, .dontCare "stars"]) ["stars"])
    before.addDontCare "stars" = .ok after ∧ noodles.simplify ≠ .never ∧
      (∀ row verdict, noodles.holdsForRow row = .ok verdict →
        (Filter.and [noodles, .dontCare "stars"]).holdsForRow row = .ok verdict) ∧
      after.addDontCare "stars" = Stop.reject := by
  intro before after
  have h : before.addDontCare "stars" = .ok after := by rfl
  have hnever : noodles.simplify ≠ .never := nofun
  obtain ⟨t, a, refined, new, ht, ha, hnext, hplace, _, hrows, _, _, hagain⟩ := addDontCare_keeps h
  cases ht
  cases ha.symm.trans rfl
  obtain rfl := Option.some.inj (congrArg Statement.table hnext)
  cases hplace.symm.trans rfl
  exact ⟨h, hnever, hrows, (hagain hnever).2⟩

end Statement

end Colloquy
