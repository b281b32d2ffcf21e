import Colloquy.Grounding
import Colloquy.Proofs.Call.Binding
import Colloquy.Proofs.Dialogue.Preservation
import Colloquy.Proofs.Ty.Acceptance

namespace Colloquy

theorem Signature.takes_iff {s : Signature} {ty : Ty} :
    s.takes ty = true ↔ ∃ a ∈ s.arguments, a.isInput = true ∧ a.ty = ty := by
  simp [takes]

/-- A value that the type of an argument accepts can be bound to it exactly if it is an input. -/
theorem Call.isWellTyped_set_iff {c : Call} {a : Argument} {value : Value} (hc : c.isWellTyped = true)
    (ha : a ∈ c.signature.arguments) (haccepts : a.ty.accepts value.ty = true) :
    (c.set a.name value).isWellTyped = true ↔ a.isInput = true := by
  have hargument : c.signature.argument? a.name = some a :=
    Signature.argument?_eq_some_iff.mpr ⟨ha, rfl⟩
  constructor
  · intro h
    have hbound := (isWellTyped_iff.mp h).2 _ (mem_params_set.mpr (Or.inr rfl))
    obtain ⟨b, hb, hinput, _⟩ := acceptsParam_iff.mp hbound
    rwa [Option.some.inj (hargument.symm.trans hb)]
  · intro hinput
    exact isWellTyped_set hc (acceptsParam_iff.mpr ⟨a, hargument, hinput, fun _ => haccepts⟩)

theorem Recommendation.withCall?_eq_some_iff {r admitted : Recommendation} {c : Call} :
    r.withCall? c = some admitted ↔ ∃ id, r.top.id? = some id ∧
      (∀ pending, r.action = some pending →
        pending.signature.isSameFunction c.signature = true) ∧
      c.signature.takes id.ty = true ∧ admitted = { r with action := some c } := by
  refine Option.bind_eq_some_iff.trans ?_
  refine exists_congr fun id => and_congr_right fun _ => ?_
  rw [Option.ite_none_right_eq_some, Bool.and_eq_true, and_assoc, Option.some.injEq,
    eq_comm (a := admitted)]
  cases r.action <;> simp

/-- Where some input has the type of the identifier, an argument is found: the first of that type. -/
theorem chainParam_of_takes {top : Row} {id : Value} {c : Call} (hid : top.id? = some id)
    (h : c.signature.takes id.ty = true) :
    ∃ before a after, c.signature.arguments = before ++ a :: after ∧
      (∀ b ∈ before, b.ty ≠ id.ty) ∧ a.ty = id.ty ∧ chainParam top c = .ok (id, a.name) := by
  obtain ⟨input, hinput, _, hty⟩ := Signature.takes_iff.mp h
  unfold chainParam
  simp only [hid]
  cases hfind : c.signature.arguments.find? (·.ty == id.ty) with
  | none => simpa [hty] using List.find?_eq_none.mp hfind input hinput
  | some a =>
    obtain ⟨ha, before, after, harguments, hbefore⟩ := List.find?_eq_some_iff_append.mp hfind
    exact ⟨before, a, after, harguments, by simpa using hbefore, by simpa using ha, rfl⟩

/-- A well typed call that may be proposed for a result has an argument to bind the identifier to, the
first of its type. The call stays well typed exactly if that one is an input; otherwise the input that
would do comes behind it. -/
theorem chainParam_of_withCall? {r admitted : Recommendation} {c : Call} (hc : c.isWellTyped = true)
    (h : r.withCall? c = some admitted) :
    ∃ id before a after, r.top.id? = some id ∧ chainParam r.top c = .ok (id, a.name) ∧
      c.signature.arguments = before ++ a :: after ∧ (∀ b ∈ before, b.ty ≠ id.ty) ∧
      a.ty = id.ty ∧ (∃ b ∈ a :: after, b.isInput = true ∧ b.ty = id.ty) ∧
      ((c.set a.name id).isWellTyped = true ↔ a.isInput = true) := by
  obtain ⟨id, hid, _, htakes, _⟩ := Recommendation.withCall?_eq_some_iff.mp h
  obtain ⟨before, a, after, harguments, hbefore, hty, hchain⟩ := chainParam_of_takes hid htakes
  refine ⟨id, before, a, after, hid, hchain, harguments, hbefore, hty, ?_, ?_⟩
  · obtain ⟨b, hb, hinput, hbty⟩ := Signature.takes_iff.mp htakes
    rw [harguments] at hb
    rcases List.mem_append.mp hb with hb | hb
    · exact absurd hbty (hbefore b hb)
    · exact ⟨b, hb, hinput, hbty⟩
  · have ha : a ∈ c.signature.arguments := by simp [harguments]
    exact Call.isWellTyped_set_iff hc ha (hty ▸ a.ty.accepts_self)

/-- A place that is recommended, with a table for two. -/
def tableForTwo : Recommendation where
  top := [("id", .entity "r1" "com.dine:restaurant" .null), ("cuisine", .string "thai")]
  info := none
  action := some (.ofSignature reservation [⟨"guests", .number (.ofInt 2)⟩])

/-- A booking may be proposed in place of the one that is pending, and takes the place. -/
theorem chainParam_of_withCall?_table :
    let c := Call.ofSignature reservation [⟨"place", .undefined true⟩]
    let place := Value.entity "r1" "com.dine:restaurant" .null
    c.isWellTyped = true ∧ (tableForTwo.withCall? c).isSome = true ∧
      chainParam tableForTwo.top c = .ok (place, "place") ∧
      (c.set "place" place).isWellTyped = true := by
  intro c place
  have hc : c.isWellTyped = true := by decide
  have h : tableForTwo.withCall? c = some { tableForTwo with action := some c } := rfl
  obtain ⟨id, before, a, after, hid, hchain, harguments, _, _, _, hset⟩ :=
    chainParam_of_withCall? hc h
  cases hid
  have hplace : chainParam tableForTwo.top c = .ok (place, "place") := rfl
  have hname : a.name = "place" := congrArg Prod.snd (Except.ok.inj (hchain.symm.trans hplace))
  have hinputs : ∀ b ∈ reservation.arguments, b.isInput = true := by decide
  have ha : a ∈ c.signature.arguments := by simp [harguments]
  rw [hname] at hset
  exact ⟨hc, by rw [h]; rfl, hplace, hset.mpr (hinputs a ha)⟩

/-- A report takes a place, but its first argument for one is an output, and cannot be bound. -/
theorem chainParam_finds_output :
    let r : Recommendation := { tableForTwo with action := none }
    let c := Call.ofSignature Call.report []
    c.isWellTyped = true ∧ (r.withCall? c).isSome = true ∧
      ¬ ∃ id name, chainParam r.top c = .ok (id, name) ∧ (c.set name id).isWellTyped = true := by
  intro r c
  refine ⟨by decide, by decide, ?_⟩
  rintro ⟨id, name, hchain, hset⟩
  have hlast : chainParam r.top c =
      .ok (.entity "r1" "com.dine:restaurant" .null, "last") := rfl
  cases hlast.symm.trans hchain
  exact absurd hset (by decide)

end Colloquy
