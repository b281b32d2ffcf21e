import Colloquy.Exchange.Opening
import Colloquy.Proofs.Dialogue.Preservation
import Colloquy.Exchange.Stop

namespace Colloquy

theorem Value.isThreaded_iff {v : Value} :
    v.isThreaded = true ↔ ∃ name, v = .varRef name ∧ ¬ constantMark.toList <+: name.toList := by
  cases v with
  | varRef name => simp [isThreaded, ← List.isPrefixOf_iff_prefix]
  | _ => simp [isThreaded]

namespace Call

/-- No parameter refers to a variable for a constant. -/
def PassesNoConstants (c : Call) : Prop :=
  ∀ p ∈ c.params, ∀ name, p.value = .varRef name → ¬ Value.constantMark.toList <+: name.toList

def deferParam (c : Call) (p : Param) : Call :=
  if p.value.isThreaded then c.set p.name (.undefined true) else c

theorem deferThreaded_eq_foldl (c : Call) : c.deferThreaded = c.params.foldl deferParam c :=
  rfl

theorem signature_deferParam (c : Call) (p : Param) : (c.deferParam p).signature = c.signature := by
  unfold deferParam
  split <;> rfl

theorem functionName_deferParam (c : Call) (p : Param) :
    (c.deferParam p).functionName = c.functionName := by
  unfold deferParam
  split <;> rfl

theorem functionName_deferThreaded (c : Call) : c.deferThreaded.functionName = c.functionName := by
  rw [deferThreaded_eq_foldl]
  exact List.foldlRecOn c.params deferParam (motive := fun d => d.functionName = c.functionName) rfl
    fun d hd p _ => (functionName_deferParam d p).trans hd

theorem acceptsParam_undefined {s : Signature} {p : Param} (h : acceptsParam s p = true) :
    acceptsParam s ⟨p.name, .undefined true⟩ = true := by
  obtain ⟨a, ha, hin, _⟩ := acceptsParam_iff.mp h
  exact acceptsParam_iff.mpr ⟨a, ha, hin, nofun⟩

theorem isWellTyped_deferParam {c : Call} {p : Param} (h : c.isWellTyped = true)
    (hp : acceptsParam c.signature p = true) : (c.deferParam p).isWellTyped = true := by
  unfold deferParam
  split
  · exact isWellTyped_set h (acceptsParam_undefined hp)
  · exact h

theorem isWellTyped_foldl_deferParam {ps : List Param} {c : Call} (h : c.isWellTyped = true)
    (hps : ∀ p ∈ ps, acceptsParam c.signature p = true) :
    (ps.foldl deferParam c).isWellTyped = true := by
  induction ps generalizing c with
  | nil => exact h
  | cons p rest ih =>
    rw [List.forall_mem_cons] at hps
    refine ih (isWellTyped_deferParam h hps.1) fun q hq => ?_
    rw [signature_deferParam]
    exact hps.2 q hq

theorem isWellTyped_deferThreaded {c : Call} (h : c.isWellTyped = true) :
    c.deferThreaded.isWellTyped = true := by
  rw [deferThreaded_eq_foldl]
  exact isWellTyped_foldl_deferParam h (isWellTyped_iff.mp h).2

/-- The loop runs over the parameters as they were while it rebinds them, so a parameter that it
finds at the end is one that it has passed by or one that it has left open. -/
theorem mem_params_foldl_deferParam {ps : List Param} {c : Call} {q : Param}
    (h : q ∈ (ps.foldl deferParam c).params) :
    (q ∈ c.params ∧ ∀ p ∈ ps, p.value.isThreaded = true → q.name ≠ p.name) ∨
      q.value = .undefined true := by
  induction ps generalizing c with
  | nil => exact Or.inl ⟨h, by simp⟩
  | cons p rest ih =>
    rcases ih h with ⟨hq, hrest⟩ | hopen
    · unfold deferParam at hq
      split at hq
      next hp =>
        rcases mem_params_set.mp hq with ⟨hold, hne⟩ | rfl
        · refine Or.inl ⟨hold, ?_⟩
          rw [List.forall_mem_cons]
          exact ⟨fun _ => hne, hrest⟩
        · exact Or.inr rfl
      next hp =>
        refine Or.inl ⟨hq, ?_⟩
        rw [List.forall_mem_cons]
        exact ⟨fun ht => absurd ht hp, hrest⟩
    · exact Or.inr hopen

theorem isClosed_deferThreaded {c : Call} (h : c.PassesNoConstants) : c.deferThreaded.IsClosed := by
  intro q hq name hv
  rw [deferThreaded_eq_foldl] at hq
  rcases mem_params_foldl_deferParam hq with ⟨hold, hne⟩ | hopen
  · have hthreaded : q.value.isThreaded = true :=
      Value.isThreaded_iff.mpr ⟨name, hv, h q hold name hv⟩
    exact hne q hold hthreaded rfl
  · rw [hv] at hopen
    cases hopen

end Call

namespace Statement

theorem onlyCalls_eq_ok_iff {actions : List Action} {cs : List Call} :
    onlyCalls actions = .ok cs ↔ actions = cs.map .call := by
  induction actions generalizing cs with
  | nil => cases cs <;> simp [onlyCalls]
  | cons a rest ih =>
    cases a with
    | notify => cases cs <;> simp [onlyCalls]
    | call c =>
      rw [onlyCalls]
      cases cs with
      | nil => cases onlyCalls rest <;> simp [Except.map]
      | cons d ds =>
        rw [List.map_cons, List.cons.injEq, ← ih]
        cases onlyCalls rest <;> simp [Except.map]

theorem onlyCalls_eq_error_iff {actions : List Action} {b : Breach} :
    onlyCalls actions = .error b ↔ b = .notACall .notify ∧ .notify ∈ actions := by
  induction actions with
  | nil => simp [onlyCalls]
  | cons a rest ih =>
    cases a with
    | notify => simp [onlyCalls, eq_comm]
    | call c =>
      rw [onlyCalls, List.mem_cons, or_iff_right nofun, ← ih]
      cases onlyCalls rest <;> simp [Except.map]

variable {s t : Statement} {registry : Option Registry}

theorem calls_ofCalls (cs : List Call) : (ofCalls cs).calls = cs := by
  induction cs with
  | nil => rfl
  | cons c rest ih => exact congrArg (c :: ·) ih

theorem wellFormed_of_mem_queryTurn {table : Table} (h : table.isValid = true)
    (ht : t ∈ queryTurn table) : t.WellFormed := by
  cases table <;> first
    | exact (List.mem_singleton.mp ht) ▸ wellFormed_ofTable h
    | cases ht

theorem wellFormed_of_mem_entityQueries (ht : t ∈ s.entityQueries registry) : t.WellFormed := by
  unfold entityQueries at ht
  split at ht
  · obtain ⟨q, _, rfl⟩ := List.mem_map.mp ht
    exact wellFormed_ofTable rfl
  · cases ht

theorem wellFormed_deferThreaded (hs : s.WellFormed) (hne : s.calls ≠ [])
    (hfree : ∀ c ∈ s.calls, c.PassesNoConstants) :
    (ofCalls (s.calls.map Call.deferThreaded)).WellFormed := by
  refine (wellFormed_iff_of_table_eq_none rfl).mpr ?_
  rw [calls_ofCalls]
  refine ⟨by simpa using hne, ?_⟩
  intro d hd
  obtain ⟨c, hc, rfl⟩ := List.mem_map.mp hd
  exact ⟨Call.isWellTyped_deferThreaded (hs.calls c hc),
    Call.isClosed_deferThreaded (hfree c hc)⟩

theorem turns_eq_of_wellFormed (hs : s.WellFormed) :
    s.turns registry = match s.table with
      | some table =>
        if s.hasCall then (Stop.ofBreach (onlyCalls s.actions)).map fun cs =>
          queryTurn table ++ [ofCalls (cs.map Call.deferThreaded)]
        else .ok [s]
      | none => .ok (s.entityQueries registry ++ [s]) := by
  unfold turns
  cases ht : s.table with
  | none => rfl
  | some table =>
    have hvalid : Stop.require table.isValid = .ok () := by simp [Stop.require, hs.query table ht]
    cases s.hasCall with
    | false => simp only [hvalid, bind, Except.bind, Bool.false_eq_true, if_false]
    | true =>
      simp only [split, hvalid, bind, Except.bind, if_true]
      cases onlyCalls s.actions <;> rfl

theorem turns_eq_error_iff (hs : s.WellFormed) {stop : Stop} :
    s.turns registry = .error stop ↔ stop = .fault (.breach (.notACall .notify)) ∧
      s.table.isSome = true ∧ s.hasCall = true ∧ .notify ∈ s.actions := by
  rw [turns_eq_of_wellFormed hs]
  cases s.table with
  | none => simp
  | some table =>
    cases s.hasCall with
    | false => simp
    | true =>
      have herror := @onlyCalls_eq_error_iff s.actions
      cases h : onlyCalls s.actions with
      | error b =>
        obtain ⟨rfl, hn⟩ := herror.mp h
        simp [Stop.ofBreach, Except.map, hn, eq_comm]
      | ok cs =>
        have hn : .notify ∉ s.actions := by
          intro hn
          rw [herror.mpr ⟨rfl, hn⟩] at h
          cases h
        simp [Stop.ofBreach, Except.map, hn]

/-- The command comes last, or what is left of it once its query has had a turn of its own. -/
theorem turns_eq_append {statements : List Statement} (hs : s.WellFormed)
    (h : s.turns registry = .ok statements) :
    ∃ queries last, statements = queries ++ [last] ∧ (∀ t ∈ queries, t.WellFormed) ∧
      (last = s ∨ s.calls ≠ [] ∧ last = ofCalls (s.calls.map Call.deferThreaded)) := by
  rw [turns_eq_of_wellFormed hs] at h
  cases htable : s.table with
  | none =>
    simp only [htable, Except.ok.injEq] at h
    exact ⟨_, s, h.symm, fun _ => wellFormed_of_mem_entityQueries, Or.inl rfl⟩
  | some table =>
    cases hcall : s.hasCall with
    | false =>
      simp only [htable, hcall, Bool.false_eq_true, if_false, Except.ok.injEq] at h
      exact ⟨[], s, h.symm, by simp, Or.inl rfl⟩
    | true =>
      simp only [htable, hcall, if_true] at h
      cases hcs : onlyCalls s.actions with
      | error b => simp [hcs, Stop.ofBreach, Except.map] at h
      | ok cs =>
        simp only [hcs, Stop.ofBreach, Except.map, Except.ok.injEq] at h
        obtain rfl : s.calls = cs := by
          rw [calls, onlyCalls_eq_ok_iff.mp hcs]
          exact calls_ofCalls cs
        exact ⟨_, _, h.symm, fun _ => wellFormed_of_mem_queryTurn (hs.query table htable),
          Or.inr ⟨hasCall_iff.mp hcall, rfl⟩⟩

theorem wellFormed_of_mem_turns {statements : List Statement} (hs : s.WellFormed)
    (hfree : ∀ c ∈ s.calls, c.PassesNoConstants) (h : s.turns registry = .ok statements) :
    ∀ t ∈ statements, t.WellFormed := by
  obtain ⟨queries, last, rfl, hqueries, hlast⟩ := turns_eq_append hs h
  intro t ht
  rcases List.mem_append.mp ht with hq | hq
  · exact hqueries t hq
  · rw [List.mem_singleton.mp hq]
    rcases hlast with rfl | ⟨hne, rfl⟩
    · exact hs
    · exact wellFormed_deferThreaded hs hne hfree

theorem functionNames_getLast_turns {statements : List Statement} (hs : s.WellFormed)
    (h : s.turns registry = .ok statements) :
    ∃ last, statements.getLast? = some last ∧
      last.calls.map Call.functionName = s.calls.map Call.functionName := by
  obtain ⟨queries, last, rfl, _, hlast⟩ := turns_eq_append hs h
  refine ⟨last, List.getLast?_concat, ?_⟩
  rcases hlast with rfl | ⟨_, rfl⟩
  · rfl
  · rw [calls_ofCalls, List.map_map]
    exact List.map_congr_left fun c _ => c.functionName_deferThreaded

end Statement

namespace State

variable {s : Statement} {registry : Option Registry} {noStream : Bool} {first : State}

theorem opening_eq_ok (h : opening s registry noStream = .ok first) :
    ∃ statements, s.turns registry = .ok statements ∧
      first = ⟨transaction, .execute, none, statements.map (.pending · .accepted)⟩ := by
  unfold opening at h
  split at h
  · cases h
  · obtain ⟨statements, hturns, hfirst⟩ := bind_eq_ok_iff.mp h
    exact ⟨statements, hturns, (Except.ok.inj hfirst).symm⟩

theorem opening_eq_error_iff (hs : s.WellFormed) {stop : Stop} :
    opening s registry noStream = .error stop ↔
      if s.stream.isSome && noStream then stop = .rejected (some (.streamSkipped s))
      else stop = .fault (.breach (.notACall .notify)) ∧
        s.table.isSome = true ∧ s.hasCall = true ∧ .notify ∈ s.actions := by
  have hturns : s.turns registry = .error stop ↔ _ := Statement.turns_eq_error_iff hs
  rw [← hturns, opening]
  split
  · simp [eq_comm]
  · cases s.turns registry <;> simp [bind, Except.bind]

theorem ordered_of_not_executed {items : List Item} (h : ∀ i ∈ items, i.isExecuted = false) :
    Ordered items := by
  refine List.pairwise_of_forall_mem_list fun i _ j hj he => ?_
  rw [h j hj] at he
  cases he

theorem isValid_accepted {statements : List Statement} (h : ∀ t ∈ statements, t.WellFormed) :
    isValid ⟨transaction, .execute, none, statements.map (.pending · .accepted)⟩ = true := by
  refine isValid_iff.mpr ⟨rfl, rfl, ?_, ordered_of_not_executed ?_⟩
  · intro i hi
    obtain ⟨t, ht, rfl⟩ := List.mem_map.mp hi
    exact ⟨rfl, h t ht⟩
  · intro i hi
    obtain ⟨t, _, rfl⟩ := List.mem_map.mp hi
    rfl

/-- A command that fits its place opens a valid state of accepted items, the last of which calls what
the command calls, unless it is a stream that is to be left out, or queries and acts but also
notifies. -/
theorem opening_of_check (registry : Option Registry) (noStream : Bool) {index : Nat}
    (hs : s.check index = .ok ()) (hfree : ∀ c ∈ s.calls, c.PassesNoConstants) :
    (opening s registry noStream = .error (.rejected (some (.streamSkipped s))) ∧
      s.stream.isSome = true ∧ noStream = true) ∨
    (opening s registry noStream = .error (.fault (.breach (.notACall .notify))) ∧
      s.table.isSome = true ∧ s.hasCall = true ∧ .notify ∈ s.actions) ∨
    ∃ first, opening s registry noStream = .ok first ∧ first.isValid = true ∧
      (∀ i ∈ first.history, i.status = .accepted ∧ i.results = none) ∧
      ∃ last, first.history.getLast? = some last ∧
        last.statement.calls.map Call.functionName = s.calls.map Call.functionName := by
  have hwell := Statement.check_eq_ok_iff.mp hs
  cases h : opening s registry noStream with
  | error stop =>
    have hstop := (opening_eq_error_iff hwell).mp h
    split at hstop
    next hskip => exact Or.inl ⟨congrArg _ hstop, by simpa using hskip⟩
    next => exact Or.inr (Or.inl ⟨congrArg _ hstop.1, hstop.2⟩)
  | ok first =>
    obtain ⟨statements, hturns, rfl⟩ := opening_eq_ok h
    have hturn := Statement.wellFormed_of_mem_turns hwell hfree hturns
    obtain ⟨last, hlast, hnames⟩ := Statement.functionNames_getLast_turns hwell hturns
    refine Or.inr (Or.inr ⟨_, rfl, isValid_accepted hturn, ?_, .pending last .accepted, ?_, hnames⟩)
    · intro i hi
      obtain ⟨t, _, rfl⟩ := List.mem_map.mp hi
      exact ⟨rfl, rfl⟩
    · rw [List.getLast?_map, hlast, Option.map_some]

end State

def thaiPlaces : Table :=
  .query restaurants (some (.atom ⟨"cuisine", .equal, .string "thai"⟩))

/-- One of the Thai places is to be booked for two. -/
def bookThai : Statement where
  table := some thaiPlaces
  actions := [.call (.ofSignature reservation
    [⟨"place", .varRef "id"⟩, ⟨"guests", .number (.ofInt 2)⟩])]
  stream := none

/-- The place that the query finds is left open in the call. -/
def bookThaiTurns : List Statement :=
  [.ofTable thaiPlaces,
    .ofCalls [.ofSignature reservation
      [⟨"guests", .number (.ofInt 2)⟩, ⟨"place", .undefined true⟩]]]

namespace State

theorem opening_of_check_bookThai :
    bookThai.check 0 = .ok () ∧ (∀ c ∈ bookThai.calls, c.PassesNoConstants) ∧
      ∃ first, opening bookThai none true = .ok first ∧ first.isValid = true ∧
        first.history.map Item.statement = bookThaiTurns ∧
        ∀ i ∈ first.history, i.status = .accepted ∧ i.results = none := by
  have hs : bookThai.check 0 = .ok () := by rfl
  have hfree : ∀ c ∈ bookThai.calls, c.PassesNoConstants := by
    intro c hc p hp name hv
    obtain rfl := List.mem_singleton.mp hc
    rcases List.mem_cons.mp hp with rfl | hp
    · cases hv
      decide
    · obtain rfl := List.mem_singleton.mp hp
      cases hv
  refine ⟨hs, hfree, ?_⟩
  rcases opening_of_check none true hs hfree with ⟨_, hstream, _⟩ | ⟨_, _, _, hn⟩ |
    ⟨first, hfirst, hvalid, hitems, _⟩
  · cases hstream
  · simp [bookThai] at hn
  · refine ⟨first, hfirst, hvalid, ?_, hitems⟩
    obtain rfl := Except.ok.inj (hfirst.symm.trans (rfl : opening bookThai none true = .ok _))
    rfl

end State

end Colloquy
