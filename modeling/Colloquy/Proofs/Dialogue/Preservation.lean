import Colloquy.Proofs.Dialogue.Step

namespace Colloquy

def Act.Takes (act : Act) (payload : Payload) : Prop :=
  ∃ payloads, act.payloads? = some payloads ∧ payload ∈ payloads

theorem Act.checkPayload_eq_ok_iff {act : Act} {payload : Payload} :
    act.checkPayload payload = .ok () ↔ act.Takes payload := by
  unfold checkPayload Takes
  cases act.payloads? with
  | none => simp
  | some payloads => by_cases h : payload ∈ payloads <;> simp [h]

theorem Act.Takes.isKnown {act : Act} {payload : Payload} (h : act.Takes payload) :
    act.isKnown = true := by
  obtain ⟨payloads, hp, _⟩ := h
  simp [Act.isKnown, hp]

/-- Whether a parameter is a declared input that is left open or bound to a fitting constant. -/
def Call.Takes (c : Call) (name : String) (value : Value) : Prop :=
  ∃ a, c.signature.argument? name = some a ∧ a.isInput = true ∧
    (value.isUndefined = true ∨ value.isConstant = true ∧ a.ty.accepts value.ty = true)

theorem Call.Takes.acceptsParam {c : Call} {name : String} {value : Value}
    (h : c.Takes name value) : Call.acceptsParam c.signature ⟨name, value⟩ = true := by
  obtain ⟨a, ha, hin, hv⟩ := h
  refine Call.acceptsParam_iff.mpr ⟨a, ha, hin, fun hconstant => ?_⟩
  rcases hv with hopen | ⟨_, hty⟩
  · cases value with
    | undefined => cases hconstant
    | _ => cases hopen
  · exact hty

theorem Call.Takes.ne_varRef {c : Call} {name : String} {value : Value} (h : c.Takes name value)
    (n : String) : value ≠ .varRef n := by
  rintro rfl
  obtain ⟨_, _, _, hopen | ⟨hconst, _⟩⟩ := h
  · cases hopen
  · cases hconst

namespace Statement

theorem wellFormed_ofTable {t : Table} (h : t.isValid = true) : (ofTable t).WellFormed := by
  have hcalls : (ofTable t).calls = [] := rfl
  refine ⟨Or.inl rfl, ?_, ?_, ?_⟩
  · intro u hu
    cases hu
    exact h
  · simp [hcalls]
  · simp [hcalls]

theorem wellFormed_iff_of_table_eq_none {s : Statement} (h : s.table = none) :
    s.WellFormed ↔ s.calls ≠ [] ∧ ∀ c ∈ s.calls, c.isWellTyped = true ∧ c.IsClosed := by
  have hprovides : ∀ name, s.provides name = false := by simp [provides, h]
  constructor
  · intro hw
    refine ⟨?_, fun c hc => ⟨hw.calls c hc, ?_⟩⟩
    · rcases hw.acts with ht | ha
      · simp [h] at ht
      · exact hasCall_iff.mp ha
    · intro p hp name hv
      have hs := hw.bound c hc p hp name hv
      simp [hprovides] at hs
  · rintro ⟨hne, hcalls⟩
    refine ⟨Or.inr (hasCall_iff.mpr hne), by simp [h], fun c hc => (hcalls c hc).1, ?_⟩
    intro c hc p hp name hv
    exact absurd hv ((hcalls c hc).2 p hp name)

theorem wellFormed_ofCall {c : Call} (ht : c.isWellTyped = true) (hc : c.IsClosed) :
    (ofCalls [c]).WellFormed := by
  have hcalls : (ofCalls [c]).calls = [c] := rfl
  refine (wellFormed_iff_of_table_eq_none rfl).mpr ?_
  simp [hcalls, ht, hc]

end Statement

namespace State

theorem calls_bindFirstCall (name : String) (value : Value) (actions : List Action) :
    (bindFirstCall name value actions).filterMap Action.call? =
      (actions.filterMap Action.call?).modifyHead (·.set name value) := by
  induction actions with
  | nil => rfl
  | cons a rest ih =>
    cases a with
    | notify =>
      rw [bindFirstCall, List.filterMap_cons_none rfl, List.filterMap_cons_none rfl]
      exact ih
    | call c => rfl

theorem wellFormed_bindParam {i : Item} {c : Call} {name : String} {value : Value}
    (hi : i.statement.WellFormed) (htable : i.statement.table = none) (hcall : i.call? = some c)
    (htakes : c.Takes name value) : (bindParam i name value).statement.WellFormed := by
  obtain ⟨rest, hcalls⟩ : ∃ rest, i.statement.calls = c :: rest := List.head?_eq_some_iff.mp hcall
  have hbound : (bindParam i name value).statement.calls = c.set name value :: rest := by
    have h := calls_bindFirstCall name value i.statement.actions
    rw [← Statement.calls, hcalls] at h
    exact h
  have hold := ((Statement.wellFormed_iff_of_table_eq_none htable).mp hi).2
  rw [hcalls, List.forall_mem_cons] at hold
  obtain ⟨⟨hwell, hclosed⟩, hrest⟩ := hold
  have hsame : (bindParam i name value).statement.table = none := htable
  refine (Statement.wellFormed_iff_of_table_eq_none hsame).mpr ?_
  rw [hbound, List.forall_mem_cons]
  exact ⟨List.cons_ne_nil _ _,
    ⟨Call.isWellTyped_set hwell htakes.acceptsParam, hclosed.set htakes.ne_varRef⟩, hrest⟩

theorem exists_next_of_nextCall? {s : State} {n : Call} (h : s.nextCall? = some n) :
    ∃ next, s.next? = some next ∧ next.statement.table = none ∧ next.call? = some n := by
  unfold nextCall? at h
  split at h
  next hbare =>
    obtain ⟨next, hnext, hcall⟩ := Option.bind_eq_some_iff.mp h
    have htable : next.statement.table = none ∧ next.statement.hasCall = true := by
      simpa [nextIsCall, hnext, isBareCall] using hbare
    exact ⟨next, hnext, htable.1, hcall⟩
  next => cases h

theorem mergeable?_eq_some_iff {s : State} {c : Call} {next : Item} :
    s.mergeable? c = some next ↔ s.next? = some next ∧
      ∃ n, s.nextCall? = some n ∧ n.signature.isSameFunction c.signature = true := by
  unfold mergeable?
  cases hn : s.nextCall? with
  | none => simp
  | some n => cases hsame : n.signature.isSameFunction c.signature <;> simp [hsame]

theorem mergeable?_eq_none_iff {s : State} {c : Call} :
    s.mergeable? c = none ↔
      ∀ n, s.nextCall? = some n → n.signature.isSameFunction c.signature = false := by
  constructor
  · intro h n hn
    cases hsame : n.signature.isSameFunction c.signature with
    | false => rfl
    | true =>
      obtain ⟨next, hnext, _⟩ := exists_next_of_nextCall? hn
      cases h.symm.trans (mergeable?_eq_some_iff.mpr ⟨hnext, n, hn, hsame⟩)
  · intro h
    cases hm : s.mergeable? c with
    | none => rfl
    | some next =>
      obtain ⟨_, n, hn, hsame⟩ := mergeable?_eq_some_iff.mp hm
      simp [h n hn] at hsame

/-- The call in which a parameter lands: the pending one of the same function, or the given one. -/
def landing (s : State) (c : Call) : Call :=
  match s.nextCall? with
  | some n => if n.signature.isSameFunction c.signature then n else c
  | none => c

theorem table_eq_none_of_mergeable {s : State} {c : Call} {next : Item}
    (h : s.mergeable? c = some next) :
    s.next? = some next ∧ next.statement.table = none ∧ next.call? = some (s.landing c) := by
  obtain ⟨hnext, n, hn, hsame⟩ := mergeable?_eq_some_iff.mp h
  obtain ⟨i, hi, htable, hcall⟩ := exists_next_of_nextCall? hn
  cases hnext.symm.trans hi
  have hl : s.landing c = n := by simp [landing, hn, hsame]
  exact ⟨hnext, htable, hl ▸ hcall⟩

theorem landing_eq_self {s : State} {c : Call} (h : s.mergeable? c = none) : s.landing c = c := by
  cases hn : s.nextCall? with
  | none => simp [landing, hn]
  | some n => simp [landing, hn, mergeable?_eq_none_iff.mp h n hn]

end State

namespace Step

/-- What a step supplies is well formed for the state that it is applied to. -/
def Supplies (s : State) : Step → Prop
  | simple _ _ => True
  | query _ t _ => t.isValid = true
  | call _ c _ => c.isWellTyped = true ∧ c.IsClosed
  | callParam _ c name value _ =>
    (c.isWellTyped = true ∧ c.IsClosed) ∧ (s.landing c).Takes name value
  | add _ items _ _ _ => ∀ i ∈ items, ∃ index, i.statement.check index = .ok ()

def status? : Step → Option Status
  | simple _ _ => none
  | query _ _ status => some status
  | call _ _ status => some status
  | callParam _ _ _ _ status => some status
  | add _ _ _ status _ => some status

/-- A step with an act that takes its payload, with items that are proposed or accepted but not
executed, and with well-formed supplies. -/
structure Suits (s : State) (step : Step) : Prop where
  payload : step.act.Takes step.payload
  status : step.status? ≠ some .executed
  supplies : step.Supplies s

def AllSuit (s : State) : List Step → Prop
  | [] => True
  | step :: rest => step.Suits s ∧ ∀ t, step.build s = .ok t → AllSuit t rest

theorem status_eq_of_addition {s : State} {step : Step} {a : Addition}
    (h : step.addition? s = some a) : step.status? = some a.status := by
  cases step with
  | simple => cases h
  | query | call | add => cases h; rfl
  | callParam act c name value status =>
    cases hm : s.mergeable? c <;> rw [addition?, hm] at h <;> cases h <;> rfl

theorem isPending_of_status {s : State} {step : Step} (h : step.status? ≠ some .executed) :
    step.IsPending s := by
  intro a ha he
  exact h (by rw [status_eq_of_addition ha, he])

theorem Suits.isPending {s : State} {step : Step} (h : step.Suits s) : step.IsPending s :=
  isPending_of_status h.status

theorem exists_build {s : State} {step : Step} (hact : step.act.Takes step.payload)
    (hstatus : step.status? ≠ some .executed) : ∃ t, step.build s = .ok t :=
  ⟨_, build_eq_ok_iff.mpr
    ⟨Act.checkPayload_eq_ok_iff.mpr hact, isPending_of_status hstatus, rfl⟩⟩

/-- What a step adds is well formed when its supplies are. The item that it renews is one of the
state, and so it is well formed before the parameter is bound. -/
theorem wellFormed_of_mem_addition {s : State} {step : Step} {a : Addition} {i : Item}
    (hs : ∀ i ∈ s.history, i.WellFormed) (h : step.Supplies s) (ha : step.addition? s = some a)
    (hi : i ∈ a.items) : i.statement.WellFormed := by
  cases step with
  | simple => cases ha
  | query act t status =>
    cases ha
    rw [List.mem_singleton.mp hi]
    exact Statement.wellFormed_ofTable h
  | call act c status =>
    cases ha
    rw [List.mem_singleton.mp hi]
    exact Statement.wellFormed_ofCall h.1 h.2
  | callParam act c name value status =>
    obtain ⟨⟨hwell, hclosed⟩, htakes⟩ := h
    cases hm : s.mergeable? c with
    | none =>
      rw [addition?, hm] at ha
      cases ha
      rw [State.landing_eq_self hm] at htakes
      rw [List.mem_singleton.mp hi]
      exact Statement.wellFormed_ofCall (Call.isWellTyped_set hwell htakes.acceptsParam)
        (hclosed.set htakes.ne_varRef)
    | some next =>
      rw [addition?, hm] at ha
      cases ha
      obtain ⟨hnext, htable, hcall⟩ := State.table_eq_none_of_mergeable hm
      have hmem : next ∈ s.history :=
        s.pending_sublist.mem (List.mem_of_mem_head? hnext)
      rw [List.mem_singleton.mp hi]
      exact State.wellFormed_bindParam (hs next hmem).statement htable hcall htakes
  | add act items payload status replaceNext =>
    cases ha
    obtain ⟨j, hj, rfl⟩ := List.mem_map.mp hi
    obtain ⟨index, hcheck⟩ := h j hj
    exact Statement.check_eq_ok_iff.mp hcheck

theorem build_valid {s : State} {step : Step} (hs : s.isValid = true) (h : step.Suits s) :
    ∃ t, step.build s = .ok t ∧ t.isValid = true := by
  obtain ⟨_, _, hold, hord⟩ := State.isValid_iff.mp hs
  obtain ⟨rest, hh, hrest⟩ := step.history_eq_executed_append s
  have hadded : ∀ a, step.addition? s = some a → ∀ i ∈ a.items,
      i.isExecuted = false ∧ i.WellFormed := by
    intro a ha i hi
    obtain ⟨hstatus, hresults⟩ := status_of_mem_addition ha hi
    have hne : i.isExecuted = false := by
      simpa [Item.isExecuted, hstatus] using h.isPending a ha
    refine ⟨hne, ?_, wellFormed_of_mem_addition hold h.supplies ha hi⟩
    simp [hresults, hne]
  have hlater : ∀ i ∈ rest, i.isExecuted = false ∧ i.WellFormed := by
    intro i hi
    rcases hrest i hi with hl | hn
    · have hp := (step.left_sublist s).mem hl
      exact ⟨State.isExecuted_eq_false_of_mem_pending hord hp, hold i (s.pending_sublist.mem hp)⟩
    · obtain ⟨a, ha, hn⟩ := mem_added_iff.mp hn
      exact hadded a ha i hn
  refine ⟨_, build_eq_ok_iff.mpr ⟨Act.checkPayload_eq_ok_iff.mpr h.payload, h.isPending, rfl⟩, ?_⟩
  refine State.isValid_iff.mpr ⟨rfl, h.payload.isKnown, ?_, ?_⟩
  · intro i hi
    rw [hh] at hi
    rcases List.mem_append.mp hi with he | hr
    · exact hold i (State.mem_history_of_mem_executed he)
    · exact (hlater i hr).2
  · rw [hh]
    exact State.ordered_append (fun _ => State.isExecuted_of_mem_executed)
      (fun i hi => (hlater i hi).1)

/-- Every state along a run is valid. -/
theorem states_valid {s : State} {steps : List Step} (hs : s.isValid = true)
    (h : AllSuit s steps) :
    ∃ built, states s steps = .ok built ∧ built.length = steps.length ∧
      ∀ t ∈ built, t.isValid = true := by
  induction steps generalizing s with
  | nil => exact ⟨[], rfl, rfl, by simp⟩
  | cons step rest ih =>
    obtain ⟨hstep, hrest⟩ := h
    obtain ⟨t, hb, ht⟩ := build_valid hs hstep
    obtain ⟨later, hlater, hlen, hvalid⟩ := ih ht (hrest t hb)
    refine ⟨t :: later, ?_, ?_, ?_⟩
    · simp only [states, hb, hlater, bind, Except.bind]
    · simp [hlen]
    · rw [List.forall_mem_cons]
      exact ⟨ht, hvalid⟩

theorem allSuit_cons {s t : State} {step : Step} {rest : List Step} (h : step.Suits s)
    (hb : step.build s = .ok t) (hr : AllSuit t rest) : AllSuit s (step :: rest) := by
  refine ⟨h, fun u hu => ?_⟩
  cases hb.symm.trans hu
  exact hr

end Step

/-- Places to eat, with what they can be found by. -/
def restaurants : Signature where
  isAction := false
  className := "com.dine"
  name := "restaurant"
  arguments := [⟨.output, "id", .entity "com.dine:restaurant", [], "name"⟩,
    ⟨.output, "cuisine", .string, [], "cuisine"⟩, ⟨.output, "stars", .number, [], "stars"⟩]
  isList := true
  annotations := []
  canonical := "restaurant"
  nodup := by decide

def reservation : Signature where
  isAction := true
  className := "com.dine"
  name := "book"
  arguments := [⟨.required, "place", .entity "com.dine:restaurant", [], "place"⟩,
    ⟨.required, "guests", .number, [], "guests"⟩]
  isList := false
  annotations := []
  canonical := "book"
  nodup := by decide

/-- A table is to be booked at a place that the user has searched for. -/
def dinner : State where
  policy := State.transaction
  act := .execute
  params := none
  history := [.executed (.ofTable (.query restaurants none)) [] none false,
    .pending (.ofCalls [.ofSignature reservation [⟨"place", .undefined false⟩]]) .accepted]

namespace Step

/-- The parameter lands in the pending call, and the query is put before it. -/
theorem states_valid_dinner :
    let c := Call.ofSignature reservation []
    let thai := Table.query restaurants (some (.atom ⟨"cuisine", .equal, .string "thai"⟩))
    let steps := [simple .searchQuestion ["cuisine"],
      callParam .execute c "guests" (.number (.ofInt 2)) .accepted, query .execute thai .accepted,
      add .recommendTwo [.pending (.ofCalls [c]) .executed] .action .proposed true,
      call .learnMoreWhat c .proposed]
    ∃ built, states dinner steps = .ok built ∧ built.length = 5 ∧
      ∀ t ∈ built, t.isValid = true := by
  intro c thai steps
  have hc : c.isWellTyped = true ∧ c.IsClosed := ⟨rfl, by simp [Call.IsClosed, c, Call.ofSignature]⟩
  have hs : dinner.isValid = true := by rfl
  have h : AllSuit dinner steps := by
    refine allSuit_cons ⟨⟨_, rfl, by decide⟩, nofun, trivial⟩ rfl ?_
    refine allSuit_cons ⟨⟨_, rfl, by decide⟩, nofun, hc, ⟨_, rfl, rfl, Or.inr ⟨rfl, rfl⟩⟩⟩ rfl ?_
    refine allSuit_cons ⟨⟨_, rfl, by decide⟩, nofun, rfl⟩ rfl ?_
    refine allSuit_cons ⟨⟨_, rfl, by decide⟩, nofun, ?_⟩ rfl ?_
    · intro i hi
      rw [List.mem_singleton.mp hi]
      exact ⟨0, rfl⟩
    · exact allSuit_cons ⟨⟨_, rfl, by decide⟩, nofun, hc⟩ rfl trivial
  exact states_valid hs h

end Step

end Colloquy
