import Colloquy.Proofs.Filter.Change
import Colloquy.Typing
import Mathlib.Data.List.Basic
import Mathlib.Data.List.Flatten

namespace Colloquy

theorem Connective.remains_sublist {k : Connective} {fs gs : List Filter}
    (h : k.remains fs = some gs) : gs.Sublist (fs.flatMap k.operands) := by
  rw [remains, Option.ite_none_left_eq_some, Option.some.injEq] at h
  exact h.2 ▸ (Filter.distinct_sublist _).trans List.filter_sublist

namespace Filter

/-- Two pins are on different fields, or they have equal values. -/
def Agrees (pin other : String × Value) : Prop :=
  pin.1 = other.1 → pin.2.same other.2 = true

/-- The first value that was seen of the field, if there is one, is equal to the one that is pinned. -/
def Follows (seen : Row) (pin : String × Value) : Prop :=
  ∀ first, seen.get? pin.1 = some first → first.same pin.2 = true

/-- A first value is what the further values of its field are compared with. -/
theorem follows_put_iff {seen : Row} {field : String} {value : Value} {pin : String × Value}
    (hfirst : seen.get? field = none) :
    Follows (seen.put field value) pin ↔ Agrees (field, value) pin ∧ Follows seen pin := by
  by_cases hfield : field = pin.1
  · simp [Follows, Agrees, ← hfield, hfirst]
  · simp [Follows, Agrees, hfield, Entries.get?_put_of_ne]

theorem Follows.agrees {seen : Row} {field : String} {first value : Value}
    {pin : String × Value} (h : Follows seen pin) (hfirst : seen.get? field = some first)
    (hvalue : first.same value = true) : Agrees (field, value) pin := by
  rintro rfl
  exact Value.same_trans (Value.same_symm hvalue) (h first hfirst)

/-- Values are compared with the first ones of their fields alone. That is enough, since values that
are equal to one first value are equal to each other. -/
theorem clashes_eq_false_iff {seen : Row} {pins : List (String × Value)} :
    clashes seen pins = false ↔ (∀ pin ∈ pins, Follows seen pin) ∧ pins.Pairwise Agrees := by
  induction pins generalizing seen with
  | nil => simp [clashes]
  | cons pin rest ih =>
    obtain ⟨field, value⟩ := pin
    unfold clashes
    rw [List.forall_mem_cons, List.pairwise_cons]
    cases hfirst : seen.get? field with
    | none =>
      have hfollows : Follows seen (field, value) := by simp [Follows, hfirst]
      simp only [ih, follows_put_iff hfirst]
      constructor
      · rintro ⟨hrest, hpairs⟩
        refine ⟨⟨hfollows, fun pin hpin => (hrest pin hpin).2⟩, ?_, hpairs⟩
        exact fun pin hpin => (hrest pin hpin).1
      · rintro ⟨⟨_, hseen⟩, hvalue, hpairs⟩
        exact ⟨fun pin hpin => ⟨hvalue pin hpin, hseen pin hpin⟩, hpairs⟩
    | some first =>
      have hfollows : Follows seen (field, value) ↔ first.same value = true := by
        simp [Follows, hfirst]
      simp only [Bool.or_eq_false_iff, Bool.not_eq_false', ih, hfollows]
      constructor
      · rintro ⟨hvalue, hseen, hpairs⟩
        refine ⟨⟨hvalue, hseen⟩, ?_, hpairs⟩
        exact fun pin hpin => (hseen pin hpin).agrees hfirst hvalue
      · rintro ⟨⟨hvalue, hseen⟩, _, hpairs⟩
        exact ⟨hvalue, hseen, hpairs⟩

theorem isContradictory_eq_false_iff {f : Filter} :
    f.isContradictory = false ↔ f.pinned.Pairwise Agrees := by
  rw [isContradictory, clashes_eq_false_iff]
  simp [Follows, Entries.get?]

def pin? : Filter → Option (String × Value)
  | atom a => if a.op = .equal then some (a.field, a.value) else none
  | _ => none

theorem slotField?_of_pin? {c : Filter} {pin : String × Value} (h : c.pin? = some pin) :
    c.slotField? = some pin.1 := by
  cases c with
  | atom a =>
    rw [pin?, Option.ite_none_right_eq_some] at h
    rw [← Option.some.inj h.2]
    rfl
  | _ => cases h

theorem pinned_eq (f : Filter) : f.pinned = f.simplify.clauses.filterMap pin? :=
  rfl

theorem pin?_eq_some_iff {c : Filter} {pin : String × Value} :
    c.pin? = some pin ↔ ∃ a, c = atom a ∧ a.op = .equal ∧ pin = (a.field, a.value) := by
  cases c with
  | atom a => simp [pin?, eq_comm]
  | _ => simp [pin?]

theorem isContradictory_eq_false_iff_atoms {f : Filter} :
    f.isContradictory = false ↔ ∀ a b : Atom, [atom a, atom b].Sublist f.simplify.clauses →
      a.op = .equal → b.op = .equal → a.field = b.field → a.value.same b.value = true := by
  rw [isContradictory_eq_false_iff, pinned_eq, List.pairwise_filterMap,
    List.pairwise_iff_forall_sublist]
  constructor
  · intro h a b hab ha hb hfield
    exact h hab (a.field, a.value) (pin?_eq_some_iff.mpr ⟨a, rfl, ha, rfl⟩)
      (b.field, b.value) (pin?_eq_some_iff.mpr ⟨b, rfl, hb, rfl⟩) hfield
  · intro h c d hcd pin hpin other hother hfield
    obtain ⟨a, rfl, ha, rfl⟩ := pin?_eq_some_iff.mp hpin
    obtain ⟨b, rfl, hb, rfl⟩ := pin?_eq_some_iff.mp hother
    exact h a b hcd ha hb hfield

/-- A filter is contradictory exactly if two of its clauses at the top, when it is simplified, are
equations for one field with different values. -/
theorem isContradictory_iff (f : Filter) :
    f.isContradictory = true ↔ ∃ a b : Atom, [atom a, atom b].Sublist f.simplify.clauses ∧
      a.op = .equal ∧ b.op = .equal ∧ a.field = b.field ∧ a.value.same b.value = false := by
  rw [← Bool.not_eq_false, isContradictory_eq_false_iff_atoms]
  simp only [not_forall, exists_prop, Bool.not_eq_true]

theorem pinned_simplify (f : Filter) : f.simplify.pinned = f.pinned := by
  rw [pinned_eq, simplify_simplify, pinned_eq]

theorem isContradictory_simplify (f : Filter) : f.simplify.isContradictory = f.isContradictory := by
  rw [isContradictory, pinned_simplify, isContradictory]

theorem has_slots_of_mem_pinned {f : Filter} {pin : String × Value} (h : pin ∈ f.pinned) :
    f.slots.has pin.1 = true := by
  rw [pinned_eq] at h
  obtain ⟨c, hc, hpin⟩ := List.mem_filterMap.mp h
  exact has_slots_iff.mpr ⟨c, hc, slotField?_of_pin? hpin⟩

theorem pinned_of_mem_clauses {f c : Filter} (hc : c ∈ f.simplify.clauses) :
    c.pinned = [c].filterMap pin? := by
  rw [pinned_eq, simplify_eq_self (isNormal_of_mem_clauses hc), clauses_of_mem_clauses hc]

theorem pinned_eq_flatMap (f : Filter) : f.pinned = f.simplify.clauses.flatMap pinned := by
  have hclauses : f.simplify.clauses.flatMap pinned =
      f.simplify.clauses.flatMap fun c => [c].filterMap pin? :=
    List.flatMap_congr fun c hc => pinned_of_mem_clauses hc
  rw [hclauses, ← List.filterMap_flatMap, List.flatMap_singleton', pinned_eq]

/-- A conjunction pins at most what its operands pin. -/
theorem pinned_and_sublist (fs : List Filter) :
    (Filter.and fs).pinned.Sublist (fs.flatMap pinned) := by
  have hoperands : ((fs.map simplify).flatMap (Connective.operands .and)).filterMap pin? =
      fs.flatMap pinned := by
    simp only [List.flatMap_map, List.filterMap_flatMap, ← clauses_eq_operands, ← pinned_eq]
  have hsimple : (Filter.and fs).simplify = Connective.combine .and (fs.map simplify) :=
    simplify_join .and fs
  rw [pinned_eq, hsimple, Connective.combine_eq_remains, ← hoperands]
  cases hr : Connective.remains .and (fs.map simplify) with
  | none => exact List.nil_sublist _
  | some gs =>
    have hsub := (Connective.remains_sublist hr).filterMap pin?
    have hreduced := (Connective.isReduced_of_remains isNormal_of_mem_map_simplify hr).1
    by_cases hgs : gs = []
    · subst gs
      exact List.nil_sublist _
    · rw [Option.map_some, Option.getD_some, clauses_eq_operands,
        Connective.operands_ofOperands hreduced.operand hgs]
      exact hsub

theorem isContradictory_and {fs : List Filter} {new : Filter}
    (hfs : (fs.flatMap pinned).Pairwise Agrees) (hnew : new.isContradictory = false)
    (hapart : ∀ pin ∈ fs.flatMap pinned, ∀ other ∈ new.pinned, pin.1 ≠ other.1) :
    (Filter.and (fs ++ [new])).isContradictory = false := by
  rw [isContradictory_eq_false_iff] at hnew ⊢
  have hpairs : ((fs ++ [new]).flatMap pinned).Pairwise Agrees := by
    rw [List.flatMap_append, List.flatMap_singleton, List.pairwise_append]
    refine ⟨hfs, hnew, ?_⟩
    intro pin hpin other hother hfield
    exact absurd hfield (hapart pin hpin other hother)
  exact hpairs.sublist (pinned_and_sublist _)

/-- Clauses that the new filter has none for, and what is made of them without a further pin, make no
contradiction with it. -/
theorem isContradictory_of_kept {old new : Filter} {p : Filter → Bool} {g : Filter → Filter}
    (hold : old.isContradictory = false) (hnew : new.isContradictory = false)
    (hp : ∀ c, p c = true → isReplacedBy new.simplify c = false)
    (hg : ∀ c ∈ old.simplify.clauses, (g c).pinned.Sublist c.pinned) :
    (Filter.and ((old.simplify.clauses.filter p).map g ++ [new.simplify])).isContradictory =
      false := by
  have hkept : ∀ c ∈ old.simplify.clauses.filter p, (g c).pinned.Sublist c.pinned :=
    fun c hc => hg c (List.mem_filter.mp hc).1
  have hsub : (((old.simplify.clauses.filter p).map g).flatMap pinned).Sublist old.pinned := by
    rw [List.flatMap_map, pinned_eq_flatMap old]
    exact (List.Sublist.flatMap_right _ hkept).trans (List.filter_sublist.flatMap pinned)
  refine isContradictory_and ((isContradictory_eq_false_iff.mp hold).sublist hsub)
    ((isContradictory_simplify new).trans hnew) ?_
  intro pin hpin other hother hfield
  rw [List.flatMap_map] at hpin
  obtain ⟨c, hc, hpin⟩ := List.mem_flatMap.mp hpin
  obtain ⟨hmem, hpc⟩ := List.mem_filter.mp hc
  have hclause : pin ∈ [c].filterMap pin? := pinned_of_mem_clauses hmem ▸ (hkept c hc).subset hpin
  obtain ⟨d, hd, hpd⟩ := List.mem_filterMap.mp hclause
  obtain rfl : d = c := List.mem_singleton.mp hd
  have hslot := slotField?_ne_of_isReplacedBy (hp d hpc) (has_slots_of_mem_pinned hother)
  exact hslot (hfield ▸ slotField?_of_pin? hpd)

/-- What pins the identifier, outside other queries, is a clause at the top when the filter is
simplified. -/
def PinsIdentityAtTop (f : Filter) : Prop :=
  ∀ c ∈ f.simplify.clauses, ∀ a, atom a ∈ c.slotClauses → a.isIdentity = true → c = atom a

theorem PinsIdentityAtTop.pinned_neutralize {f c : Filter} (h : f.PinsIdentityAtTop)
    (hc : c ∈ f.simplify.clauses) : c.neutralize.pinned.Sublist c.pinned := by
  by_cases hunpinned : c.IsUnpinned
  · rw [hunpinned.neutralize_eq]
  · have hidentity : ∃ d ∈ c.slotClauses, ∃ a, d = atom a ∧ a.isIdentity = true := by
      simpa [IsUnpinned] using hunpinned
    obtain ⟨_, ha, a, rfl, hid⟩ := hidentity
    obtain rfl := h c hc a ha hid
    rw [neutralize, if_pos hid]
    exact List.nil_sublist _

/-- Refining a filter makes no contradiction: where neither of two filters pins a field to two values,
the refined filter does not either, if the old one pins the identifier at the top alone. -/
theorem isContradictory_refined {s : Strategy} {old new refined : Filter} (hs : s ≠ .conjoin)
    (hold : old.isContradictory = false) (hnew : new.isContradictory = false)
    (htop : old.PinsIdentityAtTop) (h : s.combine old new = some refined) :
    refined.isContradictory = false := by
  have heither : ∀ refined, old.answerOrChange new = some refined →
      refined.isContradictory = false := by
    intro refined h
    obtain ⟨_, _, rfl⟩ := answerOrChange_eq_some_iff.mp h
    rw [isContradictory_simplify]
    exact isContradictory_of_kept hold hnew (by simp) fun c hc => htop.pinned_neutralize hc
  cases s with
  | answer => exact heither refined (answerOrChange_of_answer h)
  | answerOrChange => exact heither refined h
  | change =>
    obtain ⟨_, _, rfl⟩ := change_eq_some_iff.mp h
    have hkept := isContradictory_of_kept (g := id) hold hnew
      (fun _ => isReplacedBy_of_isUntouchedBy) fun _ _ => List.Sublist.refl _
    rwa [List.map_id, ← isContradictory_simplify] at hkept
  | conjoin => exact absurd rfl hs

/-- A Thai place that was chosen for its price or its menu. -/
def chosenThai : Filter :=
  and [atom ⟨"id", .equal, .entity "r1" "shop" .null⟩, atom ⟨"cuisine", .equal, .string "thai"⟩,
    or [offers, atom ⟨"cuisine", .equal, .string "asian"⟩]]

theorem isContradictory_refined_chosenThai :
    let roman := and [atom ⟨"cuisine", .equal, .string "roman"⟩,
      atom ⟨"cuisine", .like, .string "italian"⟩, not (not (atom ⟨"area", .equal, .string "soma"⟩))]
    chosenThai.isContradictory = false ∧ roman.isContradictory = false ∧
      chosenThai.PinsIdentityAtTop ∧ ∃ refined, chosenThai.answerOrChange roman = some refined ∧
        refined.isContradictory = false := by
  intro roman
  have hold : chosenThai.isContradictory = false := by rfl
  have hnew : roman.isContradictory = false := by rfl
  have hclauses : chosenThai.simplify.clauses = [atom ⟨"id", .equal, .entity "r1" "shop" .null⟩,
      atom ⟨"cuisine", .equal, .string "thai"⟩,
      or [atom ⟨"price", .equal, .enum "cheap"⟩, not (dontCare "menu"),
        atom ⟨"cuisine", .equal, .string "asian"⟩]] := by rfl
  have htop : chosenThai.PinsIdentityAtTop := by
    rw [PinsIdentityAtTop, hclauses]
    simp [slotClauses, slotClausesAll, Atom.isIdentity]
  have hrefined : ∃ refined, chosenThai.answerOrChange roman = some refined := ⟨_, rfl⟩
  obtain ⟨refined, hrefined⟩ := hrefined
  exact ⟨hold, hnew, htop, refined, hrefined,
    isContradictory_refined (s := .answerOrChange) (by decide) hold hnew htop hrefined⟩

/-- A constraint that stands beside the identifier under a negation comes to the top when the
identifier is let go. -/
example :
    let chosen := atom ⟨"id", .equal, .entity "r1" "shop" .null⟩
    let thai := atom ⟨"cuisine", .equal, .string "thai"⟩
    let ctx := and [not (and [chosen, not thai]), atom ⟨"cuisine", .equal, .string "roman"⟩]
    ctx.isContradictory = false ∧
      (ctx.answer (dontCare "area")).map isContradictory = some true := by
  exact ⟨rfl, rfl⟩

end Filter

end Colloquy
