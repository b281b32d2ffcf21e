import Colloquy.Proofs.Filter.Refinement
import Colloquy.Proofs.Filter.Typing
import Colloquy.Exchange.Stop
import Colloquy.Proofs.Table.Attachment

namespace Colloquy

namespace Table

/-- A filter of the query that gets a table in place of its tip is one of the query or one of that
table. -/
theorem mem_filterNodes_replaceTip {t new : Table} {node : Table × Filter}
    (h : node ∈ (t.replaceTip new).filterNodes) : node ∈ t.filterNodes ∨ node ∈ new.filterNodes := by
  rw [filterNodes_replaceTip] at h
  rw [t.filterNodes_eq]
  exact (List.mem_append.mp h).imp_left (List.mem_append_left _)

theorem filterNodes_subset_replaceTip (t new : Table) :
    new.filterNodes ⊆ (t.replaceTip new).filterNodes := by
  rw [filterNodes_replaceTip]
  exact List.subset_append_right _ _

theorem filterNodes_tip_subset (t : Table) : t.tip.filterNodes ⊆ t.filterNodes := by
  rw [t.filterNodes_eq]
  exact List.subset_append_right _ _

theorem filterNodes_unprojected (t : Table) : t.unprojected.filterNodes = t.filterNodes := by
  induction t with
  | project _ _ ih => exact ih
  | _ => rfl

theorem functionNames_unprojected (t : Table) : t.unprojected.functionNames = t.functionNames := by
  induction t with
  | project _ _ ih => exact ih
  | _ => rfl

theorem unprojected_unprojected (t : Table) : t.unprojected.unprojected = t.unprojected := by
  induction t with
  | project _ _ ih => exact ih
  | _ => rfl

theorem projection?_unprojected (t : Table) : t.unprojected.projection? = none := by
  induction t with
  | project _ _ ih => exact ih
  | _ => rfl

/-- Whatever a projection at the root leaves as it is, the projection of a refined query leaves as
it is. -/
theorem reproject_congr {α : Type} {view : Table → α} (hview : ∀ t, view t.unprojected = view t)
    (hproject : ∀ t fields, view (project t fields) = view t)
    (t : Table) (refined : Filter) (fields : List String) :
    view (t.reproject refined fields) = view t := by
  have hprojectOn : ∀ names, view (t.projectOn names) = view t :=
    fun names => (hproject _ names).trans (hview t)
  unfold reproject
  split
  · exact hprojectOn fields
  · split
    · rfl
    · simp only
      split
      · exact hview t
      · exact hprojectOn _

theorem filterNodes_reproject (t : Table) (refined : Filter) (fields : List String) :
    (t.reproject refined fields).filterNodes = t.filterNodes :=
  reproject_congr filterNodes_unprojected (fun _ _ => rfl) t refined fields

theorem functionNames_reproject (t : Table) (refined : Filter) (fields : List String) :
    (t.reproject refined fields).functionNames = t.functionNames :=
  reproject_congr functionNames_unprojected (fun _ _ => rfl) t refined fields

theorem unprojected_reproject (t : Table) (refined : Filter) (fields : List String) :
    (t.reproject refined fields).unprojected = t.unprojected :=
  reproject_congr unprojected_unprojected (fun _ _ => rfl) t refined fields

theorem refineWith_eq_table {t refined : Table} {new : Filter}
    {combine : Filter → Filter → Option Filter} {fields : List String}
    (h : t.refineWith new combine fields = .ok (.table refined)) :
    ∃ a f, t.attachment = .ok (some a) ∧ combine a.filter new = some f ∧
      refined = (a.withFilter f).reproject f fields := by
  obtain ⟨place, ha, h⟩ := bind_eq_ok_iff.mp h
  cases place with
  | none => cases h
  | some a =>
    simp only at h
    split at h
    · cases h
    next f hf =>
      cases h
      exact ⟨a, f, ha, hf, rfl⟩

theorem refine_eq_table {t refined : Table} {new : Filter} {strategy : Filter.Strategy}
    {fields : List String} (h : t.refine new strategy fields = .ok (.table refined)) :
    ∃ a f, t.attachment = .ok (some a) ∧ strategy.combine a.filter new = some f ∧
      refined = (a.withFilter f).reproject f fields :=
  refineWith_eq_table h

def FiltersFit (t : Table) : Prop :=
  ∀ node ∈ t.filterNodes, node.2.isWellTyped node.1.signature = true

instance (t : Table) : Decidable t.FiltersFit :=
  inferInstanceAs (Decidable (∀ node ∈ t.filterNodes, node.2.isWellTyped node.1.signature = true))

/-- Where filters fit, the filter at the tip does, and so do those of the query that holds it. -/
theorem FiltersFit.attachment {t : Table} {a : Attachment} (ht : t.FiltersFit)
    (h : t.attachment = .ok (some a)) :
    a.root.FiltersFit ∧ a.base.FiltersFit ∧ a.filter.isWellTyped a.base.signature = true := by
  rcases attachment_eq_some h with ⟨htip, hroot⟩ | ⟨c, _, hroot, hbase, hfilter⟩
  · have hnodes : ∀ node ∈ (filter a.base a.filter).filterNodes, node ∈ t.filterNodes :=
      fun node hn => t.filterNodes_tip_subset (htip ▸ hn)
    rw [hroot]
    exact ⟨ht, fun node hn => ht node (hnodes node (List.mem_cons_of_mem _ hn)),
      ht _ (hnodes _ List.mem_cons_self)⟩
  · rw [hroot, hbase, hfilter]
    refine ⟨?_, fun _ hn => absurd hn List.not_mem_nil, rfl⟩
    intro node hn
    rcases mem_filterNodes_replaceTip hn with hn | hn
    · exact ht node hn
    · rw [List.mem_singleton.mp hn]
      rfl

/-- A query whose filters fit is refined to one whose filters fit, whatever the strategy, if the new
filter fits the place where it goes. The filter that the strategy makes is among them. -/
theorem refine_filtersFit {t refined : Table} {new : Filter} {strategy : Filter.Strategy}
    {fields : List String} (ht : t.FiltersFit)
    (hnew : ∀ a, t.attachment = .ok (some a) → new.isWellTyped a.base.signature = true)
    (h : t.refine new strategy fields = .ok (.table refined)) :
    refined.FiltersFit ∧ ∃ a f, t.attachment = .ok (some a) ∧
      strategy.combine a.filter new = some f ∧ (a.base, f) ∈ refined.filterNodes := by
  obtain ⟨a, f, ha, hf, rfl⟩ := refine_eq_table h
  obtain ⟨hroot, hbase, hold⟩ := ht.attachment ha
  have htyped : f.isWellTyped a.base.signature = true :=
    (Filter.isInherited_isWellTyped a.base.signature).strategy hold (hnew a ha) hf
  refine ⟨?_, a, f, ha, hf, ?_⟩
  · intro node hn
    rw [filterNodes_reproject] at hn
    rcases mem_filterNodes_replaceTip hn with hn | hn
    · exact hroot node hn
    · rcases List.mem_cons.mp hn with rfl | hn
      · exact htyped
      · exact hbase node hn
  · rw [filterNodes_reproject]
    exact filterNodes_subset_replaceTip _ _ List.mem_cons_self

/-- Stars and texts of reviews, best first, for places that are tagged as Thai. -/
def thaiReviews (f : Filter) (fields : List String) : Table :=
  let thai := filter (project (.query reviews none) ["tags"]) (.atom ⟨"tags", .contains, .string "thai"⟩)
  project (join thai (sort (.query reviews (some f)) "stars" "desc") [⟨"place", .varRef "id"⟩]) fields

/-- Good reviews, of which one was picked. -/
def picked : Filter :=
  .and [.atom ⟨"stars", .atLeast, .number (.ofInt 4)⟩,
    .not (.not (.atom ⟨"id", .equal, .entity "v1" "com.dine:review" .null⟩))]

def pickedReviews : Table :=
  thaiReviews picked ["stars", "text"]

def outstanding : Filter :=
  .atom ⟨"stars", .inArray, .array [.number (.ofInt 5)]⟩

/-- The projection loses the field that the filter now settles, and the filter on the left side of
the join stays. -/
theorem refine_filtersFit_reviews :
    pickedReviews.FiltersFit ∧
      (∀ a, pickedReviews.attachment = .ok (some a) →
        outstanding.isWellTyped a.base.signature = true) ∧
      pickedReviews.refine outstanding .answerOrChange [] =
        .ok (.table (thaiReviews outstanding ["text"])) ∧
      (thaiReviews outstanding ["text"]).FiltersFit := by
  have ht : pickedReviews.FiltersFit := by decide
  have hnew : ∀ a, pickedReviews.attachment = .ok (some a) →
      outstanding.isWellTyped a.base.signature = true := by
    intro a ha
    have hplace : pickedReviews.attachment =
        .ok (some ⟨pickedReviews, .query reviews none, picked⟩) := rfl
    cases hplace.symm.trans ha
    rfl
  have h : pickedReviews.refine outstanding .answerOrChange [] =
      .ok (.table (thaiReviews outstanding ["text"])) := by rfl
  exact ⟨ht, hnew, h, (refine_filtersFit ht hnew h).1⟩

theorem exists_stack_unprojected (layers : List Layer) :
    ∃ ls, ∀ u : Table, u.projection? = none → (stack layers u).unprojected = stack ls u := by
  induction layers with
  | nil =>
    refine ⟨[], fun u hu => ?_⟩
    cases u with
    | project => cases hu
    | _ => rfl
  | cons l layers ih =>
    cases l with
    | project => exact ih
    | _ => exact ⟨_ :: layers, fun _ _ => rfl⟩

theorem HoldsFilter.unprojected {t base : Table} {layers : List Layer} {f : Filter}
    (h : t.HoldsFilter layers base f) :
    ∃ ls, t.unprojected.HoldsFilter ls base f ∧
      ∀ g, (stack layers (filter base g)).unprojected = stack ls (filter base g) := by
  obtain ⟨ls, hls⟩ := exists_stack_unprojected layers
  refine ⟨ls, ?_, fun g => hls _ rfl⟩
  rcases h with ⟨rfl, hend⟩ | ⟨⟨c, rfl⟩, hf, rfl, hend⟩
  · exact Or.inl ⟨hls _ rfl, hend⟩
  · exact Or.inr ⟨⟨c, rfl⟩, hf, hls _ rfl, hend⟩

theorem projection?_stack (layers : List Layer) {u v : Table} (h : u.projection? = v.projection?) :
    (stack layers u).projection? = (stack layers v).projection? := by
  cases layers with
  | nil => exact h
  | cons l layers => cases l <;> rfl

theorem HoldsFilter.projection?_eq {t base : Table} {layers : List Layer} {f : Filter}
    (h : t.HoldsFilter layers base f) (g : Filter) :
    (stack layers (filter base g)).projection? = t.projection? := by
  rcases h with ⟨rfl, _⟩ | ⟨⟨c, rfl⟩, _, rfl, _⟩
  · exact projection?_stack layers rfl
  · exact projection?_stack layers rfl

theorem reproject_of_ne_nil (t : Table) (refined : Filter) {fields : List String}
    (h : fields ≠ []) : t.reproject refined fields = project t.unprojected fields := by
  unfold reproject
  rw [if_pos (by simpa using h)]
  rfl

/-- Where no new fields are asked for, the projection keeps the fields that the filter does not
settle, and goes when none is left. -/
theorem projection?_reproject_nil (t : Table) (refined : Filter) {left : List String} :
    (t.reproject refined []).projection? = some left ↔
      left ≠ [] ∧ ∃ asked, t.projection? = some asked ∧ left = asked.filter (!refined.mentions ·) := by
  cases hasked : t.projection? with
  | none => simp [reproject, hasked]
  | some asked =>
    by_cases hleft : asked.filter (!refined.mentions ·) = []
    · simp [reproject, hasked, hleft, projection?_unprojected]
    · have hkept : (asked.filter (!refined.mentions ·)).isEmpty = false :=
        List.isEmpty_eq_false_iff.mpr hleft
      have hshown : (t.reproject refined []).projection? =
          some (asked.filter (!refined.mentions ·)) := by
        simp only [reproject, hasked, hkept]
        rfl
      rw [hshown]
      constructor
      · rintro ⟨⟩
        exact ⟨hleft, asked, rfl, rfl⟩
      · rintro ⟨_, _, ⟨⟩, rfl⟩
        rfl

/-- A refined query is the old one but for two places: the filter at the end of the way down, which
the strategy replaces, and the projection at the root. The latter shows the new fields if there are
any, and otherwise the old ones that the refined filter does not mention. -/
theorem refineWith_changes {t refined : Table} {new : Filter}
    {combine : Filter → Filter → Option Filter} {fields : List String}
    (h : t.refineWith new combine fields = .ok (.table refined)) :
    ∃ layers base old f, t.unprojected.HoldsFilter layers base old ∧ combine old new = some f ∧
      refined.unprojected = stack layers (filter base f) ∧
      refined.functionNames = t.functionNames ∧
      (fields ≠ [] → refined = project refined.unprojected fields) ∧
      (fields = [] →
        (refined.projection?.isSome = true ↔
          ∃ asked, t.projection? = some asked ∧ ∃ field ∈ asked, f.mentions field = false) ∧
        ∀ left, refined.projection? = some left →
          ∃ asked, t.projection? = some asked ∧ left = asked.filter (!f.mentions ·)) := by
  obtain ⟨a, f, ha, hf, rfl⟩ := refineWith_eq_table h
  obtain ⟨hold, hroot⟩ := holdsFilter_of_attachment ha
  have hnew : a.withFilter f = stack t.layers (filter a.base f) := by
    rw [Attachment.withFilter, hroot, replaceTip_stack]
    rfl
  obtain ⟨layers, hrest, hunprojected⟩ := hold.unprojected
  refine ⟨layers, a.base, a.filter, f, hrest, hf, ?_, ?_, ?_, ?_⟩
  · rw [unprojected_reproject, hnew, hunprojected]
  · rw [functionNames_reproject, hnew, hold.functionNames_eq]
  · intro hfields
    rw [unprojected_reproject, reproject_of_ne_nil _ _ hfields]
  · rintro rfl
    have hshown : ∀ left, ((a.withFilter f).reproject f []).projection? = some left ↔ _ :=
      fun left => projection?_reproject_nil (a.withFilter f) f
    simp only [hnew, hold.projection?_eq] at hshown
    rw [hnew]
    refine ⟨?_, fun left hleft => ((hshown left).mp hleft).2⟩
    rw [Option.isSome_iff_exists]
    constructor
    · rintro ⟨left, hleft⟩
      obtain ⟨hne, asked, hasked, rfl⟩ := (hshown left).mp hleft
      obtain ⟨field, hfield⟩ := List.exists_mem_of_ne_nil _ hne
      obtain ⟨hmem, hmentions⟩ := List.mem_filter.mp hfield
      exact ⟨asked, hasked, field, hmem, by simpa using hmentions⟩
    · rintro ⟨asked, hasked, field, hmem, hmentions⟩
      refine ⟨_, (hshown _).mpr ⟨?_, asked, hasked, rfl⟩⟩
      exact List.ne_nil_of_mem (List.mem_filter.mpr ⟨hmem, by simp [hmentions]⟩)

/-- The refined filter settles the stars, so only the texts are still asked for. -/
theorem refineWith_changes_reviews :
    pickedReviews.refineWith outstanding Filter.answerOrChange [] =
        .ok (.table (thaiReviews outstanding ["text"])) ∧
      ∃ layers base old f, pickedReviews.unprojected.HoldsFilter layers base old ∧
        Filter.answerOrChange old outstanding = some f ∧
        (thaiReviews outstanding ["text"]).unprojected = stack layers (filter base f) ∧
        ["text"] = ["stars", "text"].filter (!f.mentions ·) := by
  have h : pickedReviews.refineWith outstanding Filter.answerOrChange [] =
      .ok (.table (thaiReviews outstanding ["text"])) := by rfl
  obtain ⟨layers, base, old, f, hold, hf, hrest, _, _, hshown⟩ := refineWith_changes h
  obtain ⟨asked, hasked, hleft⟩ := (hshown rfl).2 ["text"] rfl
  cases hasked
  exact ⟨h, layers, base, old, f, hold, hf, hrest, hleft⟩

end Table

end Colloquy
