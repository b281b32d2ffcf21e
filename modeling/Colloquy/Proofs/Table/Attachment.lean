import Colloquy.Table.Attachment

/-!
The way down a query to the place of a filter. A query is a stack of layers (orders, projections,
left sides of joins) on a table that is no layer, and what a filter at that place changes lies below
all of them.
-/

namespace Colloquy.Table

/-- A node on the way to the place of a filter, without the table below it. -/
inductive Layer
  | sort (field direction : String)
  | index (indices : List Value)
  | slice (base limit : Value)
  | project (fields : List String)
  | compute (expression : Value) (label : Option String)
  | named (name : String)
  | join (lhs : Table) (params : List Param)

namespace Layer

/-- The node with a table below it, which a join has on its right side. -/
def onto : Layer → Table → Table
  | sort field direction, t => .sort t field direction
  | index indices, t => .index t indices
  | slice base limit, t => .slice t base limit
  | project fields, t => .project t fields
  | compute expression label, t => .compute t expression label
  | named name, t => .named t name
  | join lhs params, t => .join lhs t params

def beside : Layer → List Table
  | join lhs _ => [lhs]
  | _ => []

/-- What a node lets through of a signature. -/
def view : Layer → Signature → Signature
  | project fields, s => s.project fields
  | _, s => s

variable (l : Layer) (t : Table)

theorem tip_onto : (l.onto t).tip = t.tip := by
  cases l <;> rfl

theorem replaceTip_onto (new : Table) : (l.onto t).replaceTip new = l.onto (t.replaceTip new) := by
  cases l <;> rfl

theorem signature_onto : (l.onto t).signature = l.view t.signature := by
  cases l <;> rfl

theorem functionNames_onto :
    (l.onto t).functionNames = l.beside.flatMap functionNames ++ t.functionNames := by
  cases l <;> simp [onto, beside, functionNames]

theorem filterNodes_onto :
    (l.onto t).filterNodes = l.beside.flatMap filterNodes ++ t.filterNodes := by
  cases l <;> simp [onto, beside, filterNodes]

end Layer

def stack (layers : List Layer) (t : Table) : Table :=
  layers.foldr Layer.onto t

section Stack

variable (layers : List Layer) (t : Table)

theorem tip_stack : (stack layers t).tip = t.tip := by
  induction layers with
  | nil => rfl
  | cons l layers ih => exact (l.tip_onto _).trans ih

theorem replaceTip_stack (new : Table) :
    (stack layers t).replaceTip new = stack layers (t.replaceTip new) := by
  induction layers with
  | nil => rfl
  | cons l layers ih => exact (l.replaceTip_onto _ new).trans (congrArg l.onto ih)

theorem signature_stack : (stack layers t).signature = layers.foldr Layer.view t.signature := by
  induction layers with
  | nil => rfl
  | cons l layers ih => exact (l.signature_onto _).trans (congrArg l.view ih)

theorem functionNames_stack :
    (stack layers t).functionNames =
      (layers.flatMap Layer.beside).flatMap functionNames ++ t.functionNames := by
  induction layers with
  | nil => rfl
  | cons l layers ih =>
    have honto : (stack (l :: layers) t).functionNames = _ := l.functionNames_onto (stack layers t)
    rw [honto, ih, List.flatMap_cons, List.flatMap_append, List.append_assoc]

theorem filterNodes_stack :
    (stack layers t).filterNodes =
      (layers.flatMap Layer.beside).flatMap filterNodes ++ t.filterNodes := by
  induction layers with
  | nil => rfl
  | cons l layers ih =>
    have honto : (stack (l :: layers) t).filterNodes = _ := l.filterNodes_onto (stack layers t)
    rw [honto, ih, List.flatMap_cons, List.flatMap_append, List.append_assoc]

end Stack

/-- Whether the way to the place of a filter goes on below a node. -/
def isPassed : Table → Bool
  | sort _ _ _ | index _ _ | slice _ _ _ | project _ _ | compute _ _ _ | named _ _ | join _ _ _ => true
  | _ => false

/-- The way down from a query goes through the layers and ends at `u`. -/
def LeadsTo (t : Table) (layers : List Layer) (u : Table) : Prop :=
  t = stack layers u ∧ u.isPassed = false

def layers : Table → List Layer
  | sort t field direction => .sort field direction :: t.layers
  | index t indices => .index indices :: t.layers
  | slice t base limit => .slice base limit :: t.layers
  | project t fields => .project fields :: t.layers
  | compute t expression label => .compute expression label :: t.layers
  | named t name => .named name :: t.layers
  | join lhs t params => .join lhs params :: t.layers
  | _ => []

theorem layers_stack (ls : List Layer) (t : Table) : (stack ls t).layers = ls ++ t.layers := by
  induction ls with
  | nil => rfl
  | cons l ls ih =>
    have honto : (stack (l :: ls) t).layers = l :: (stack ls t).layers := by cases l <;> rfl
    rw [honto, ih, List.cons_append]

theorem leadsTo_tip (t : Table) : t.LeadsTo t.layers t.tip := by
  induction t with
  | sort _ field direction ih => exact ⟨congrArg (Layer.sort field direction).onto ih.1, ih.2⟩
  | index _ indices ih => exact ⟨congrArg (Layer.index indices).onto ih.1, ih.2⟩
  | slice _ base limit ih => exact ⟨congrArg (Layer.slice base limit).onto ih.1, ih.2⟩
  | project _ fields ih => exact ⟨congrArg (Layer.project fields).onto ih.1, ih.2⟩
  | compute _ expression label ih =>
    exact ⟨congrArg (Layer.compute expression label).onto ih.1, ih.2⟩
  | named _ name ih => exact ⟨congrArg (Layer.named name).onto ih.1, ih.2⟩
  | join lhs _ params _ ih => exact ⟨congrArg (Layer.join lhs params).onto ih.1, ih.2⟩
  | _ => exact ⟨rfl, rfl⟩

theorem own_tip {u : Table} (h : u.isPassed = false) :
    u.tip = u ∧ u.layers = [] ∧ ∀ new, u.replaceTip new = new := by
  cases u with
  | sort | index | slice | project | compute | named | join => cases h
  | _ => exact ⟨rfl, rfl, fun _ => rfl⟩

/-- There is one way down from a query. -/
theorem leadsTo_iff {t u : Table} {ls : List Layer} :
    t.LeadsTo ls u ↔ ls = t.layers ∧ u = t.tip := by
  constructor
  · rintro ⟨rfl, hu⟩
    obtain ⟨htip, hlayers, _⟩ := own_tip hu
    exact ⟨by rw [layers_stack, hlayers, List.append_nil], by rw [tip_stack, htip]⟩
  · rintro ⟨rfl, rfl⟩
    exact t.leadsTo_tip

theorem LeadsTo.replaceTip_eq {t u : Table} {ls : List Layer} (h : t.LeadsTo ls u) (new : Table) :
    t.replaceTip new = stack ls new := by
  rw [h.1, replaceTip_stack, (own_tip h.2).2.2]

/-- The filters beside the way down come first, and then those at its end. -/
theorem filterNodes_eq (t : Table) :
    t.filterNodes = (t.layers.flatMap Layer.beside).flatMap filterNodes ++ t.tip.filterNodes := by
  rw [← filterNodes_stack, ← t.leadsTo_tip.1]

theorem filterNodes_replaceTip (t new : Table) :
    (t.replaceTip new).filterNodes =
      (t.layers.flatMap Layer.beside).flatMap filterNodes ++ new.filterNodes := by
  rw [t.leadsTo_tip.replaceTip_eq, filterNodes_stack]

def unsupported? : Table → Option Unsupported
  | sequence _ _ => some .sequence
  | history _ _ _ => some .history
  | window _ _ _ => some .window
  | timeSeries _ _ _ => some .timeSeries
  | _ => none

/-- Whether a table takes no filter: an aggregation, or a reference to another query. -/
def isOpaque : Table → Bool
  | aggregate _ _ _ _ | varRef _ _ | resultRef _ _ _ _ => true
  | _ => false

theorem attachment_eq_error_iff {t : Table} {e : Unsupported} :
    t.attachment = .error e ↔ t.tip.unsupported? = some e := by
  unfold attachment
  cases t.tip <;> simp [unsupported?]

theorem attachment_eq_none_iff {t : Table} :
    t.attachment = .ok none ↔ t.tip.isOpaque = true := by
  have hend := t.leadsTo_tip.2
  unfold attachment
  cases htip : t.tip with
  | sort | index | slice | project | compute | named | join =>
    rw [htip] at hend
    cases hend
  | _ => simp [isOpaque]

theorem attachment_of_tip_filter {t base : Table} {f : Filter} (h : t.tip = filter base f) :
    t.attachment = .ok (some ⟨t, base, f⟩) := by
  unfold attachment
  rw [h]

theorem attachment_eq_some {t : Table} {a : Attachment} (h : t.attachment = .ok (some a)) :
    (t.tip = filter a.base a.filter ∧ a.root = t) ∨
      ∃ c, t.tip = invoke c ∧ a.root = t.replaceTip (filter (invoke c) .always) ∧
        a.base = invoke c ∧ a.filter = .always := by
  unfold attachment at h
  split at h
  next base f htip =>
    cases h
    exact Or.inl ⟨htip, rfl⟩
  next c htip =>
    cases h
    exact Or.inr ⟨c, htip, rfl, rfl, rfl⟩
  all_goals cases h

/-- Below the layers, the query filters `base` by `f`. A bare call there counts as filtered by what
is always true. -/
def HoldsFilter (t : Table) (layers : List Layer) (base : Table) (f : Filter) : Prop :=
  t.LeadsTo layers (filter base f) ∨
    (∃ c, base = invoke c) ∧ f = .always ∧ t.LeadsTo layers base

theorem holdsFilter_of_attachment {t : Table} {a : Attachment}
    (h : t.attachment = .ok (some a)) :
    t.HoldsFilter t.layers a.base a.filter ∧ a.root = stack t.layers (filter a.base a.filter) := by
  have hway := t.leadsTo_tip
  rcases attachment_eq_some h with ⟨htip, hroot⟩ | ⟨c, htip, hroot, hbase, hfilter⟩
  · rw [htip] at hway
    exact ⟨Or.inl hway, hroot.trans hway.1⟩
  · rw [htip, ← hbase] at hway
    refine ⟨Or.inr ⟨⟨c, hbase⟩, hfilter, hway⟩, ?_⟩
    rw [hroot, hway.replaceTip_eq, hbase, hfilter]

theorem HoldsFilter.functionNames_eq {t base : Table} {layers : List Layer} {f : Filter}
    (h : t.HoldsFilter layers base f) (g : Filter) :
    (stack layers (filter base g)).functionNames = t.functionNames := by
  rcases h with ⟨rfl, _⟩ | ⟨_, _, rfl, _⟩
  · rw [functionNames_stack, functionNames_stack, functionNames, functionNames]
  · rw [functionNames_stack, functionNames_stack, functionNames]

theorem HoldsFilter.signature_eq {t base : Table} {layers : List Layer} {f : Filter}
    (h : t.HoldsFilter layers base f) (g : Filter) :
    (stack layers (filter base g)).signature = t.signature := by
  rcases h with ⟨rfl, _⟩ | ⟨_, _, rfl, _⟩
  · rw [signature_stack, signature_stack, signature, signature]
  · rw [signature_stack, signature_stack, signature]

/-- The place of a filter is found at the end of the one way down. A filter there is taken as it is,
and a bare call gets one that is always true, with the layers above left as they are; then the place
is found again where it was. -/
theorem attachment_exact (t : Table) :
    ∃ layers u, (∀ ls v, t.LeadsTo ls v ↔ ls = layers ∧ v = u) ∧
      (∀ e, t.attachment = .error e ↔ u.unsupported? = some e) ∧
      (t.attachment = .ok none ↔ u.isOpaque = true) ∧
      (∀ base f, u = filter base f → t.attachment = .ok (some ⟨t, base, f⟩)) ∧
      (∀ c, u = invoke c →
        t.attachment = .ok (some ⟨stack layers (filter u .always), u, .always⟩) ∧
          (stack layers (filter u .always)).filterNodes = t.filterNodes ++ [(u, .always)]) ∧
      ∀ a, t.attachment = .ok (some a) →
        a.root = stack layers (filter a.base a.filter) ∧ a.root.functionNames = t.functionNames ∧
          a.root.signature = t.signature ∧ a.root.attachment = .ok (some a) := by
  refine ⟨t.layers, t.tip, fun _ _ => leadsTo_iff, fun _ => attachment_eq_error_iff,
    attachment_eq_none_iff, fun _ _ => attachment_of_tip_filter, ?_, ?_⟩
  · intro c hc
    have hway := t.leadsTo_tip
    constructor
    · unfold attachment
      rw [hc] at hway ⊢
      simp only [hway.replaceTip_eq]
    · rw [filterNodes_stack, t.filterNodes_eq, hc]
      simp [filterNodes]
  · intro a ha
    obtain ⟨hfilter, hroot⟩ := holdsFilter_of_attachment ha
    have htip : a.root.tip = filter a.base a.filter := by
      rw [hroot, tip_stack]
      rfl
    exact ⟨hroot, hroot ▸ hfilter.functionNames_eq a.filter, hroot ▸ hfilter.signature_eq a.filter,
      attachment_of_tip_filter htip⟩

/-- Reviews of places to eat. Their texts cannot be searched. -/
def reviews : Signature where
  isAction := false
  className := "com.dine"
  name := "review"
  arguments := [⟨.output, "id", .entity "com.dine:review", [], "id"⟩,
    ⟨.required, "place", .entity "com.dine:place", [], "place"⟩,
    ⟨.output, "stars", .number, [], "stars"⟩, ⟨.output, "tags", .array .string, [], "tags"⟩,
    ⟨.output, "text", .string, [("filterable", .flag false)], "text"⟩]
  isList := true
  annotations := []
  canonical := "review"
  nodup := by decide

/-- Stars of the reviews of places that are tagged as Thai, best first. The reviews themselves are not
filtered. -/
def starsOfReviews : Table :=
  let thai := filter (.query reviews none) (.atom ⟨"tags", .contains, .string "thai"⟩)
  project (join thai (sort (.query reviews none) "stars" "desc") [⟨"place", .varRef "id"⟩]) ["stars"]

theorem attachment_exact_reviews :
    ∃ layers, starsOfReviews.LeadsTo layers (.query reviews none) ∧
      starsOfReviews.attachment =
        .ok (some ⟨stack layers (.query reviews (some .always)), .query reviews none, .always⟩) ∧
      (stack layers (.query reviews (some .always))).filterNodes =
        starsOfReviews.filterNodes ++ [(.query reviews none, .always)] := by
  obtain ⟨layers, u, hway, _, _, _, hcall, _⟩ := attachment_exact starsOfReviews
  obtain ⟨rfl, rfl⟩ := (hway _ _).mp starsOfReviews.leadsTo_tip
  obtain ⟨hfound, hnodes⟩ := hcall _ rfl
  exact ⟨_, starsOfReviews.leadsTo_tip, hfound, hnodes⟩

end Colloquy.Table
