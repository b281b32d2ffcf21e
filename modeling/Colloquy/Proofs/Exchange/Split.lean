import Colloquy.Proofs.Exchange.Opening
import Colloquy.Proofs.Table.Attachment
import Colloquy.Proofs.Table.Leaves
import Mathlib.Data.List.Forall2

namespace Colloquy

namespace Call

theorem deferThreaded_eq_with (c : Call) :
    c.deferThreaded = { c with params := c.deferThreaded.params } := by
  rw [deferThreaded_eq_foldl]
  refine List.foldlRecOn c.params deferParam
    (motive := fun d => d = { c with params := d.params }) ?_ fun d hd p _ => ?_
  · rfl
  · unfold deferParam
    split
    · rw [hd]
      rfl
    · exact hd

theorem get?_deferParam (c : Call) (p : Param) (name : String) :
    (c.deferParam p).get? name =
      if p.value.isThreaded = true ∧ p.name = name then some (.undefined true)
      else c.get? name := by
  unfold deferParam
  by_cases ht : p.value.isThreaded = true
  · by_cases hn : p.name = name
    · subst hn
      simp [ht, get?_set_self]
    · simp [ht, hn, get?_set_of_ne (Ne.symm hn)]
  · simp [ht]

/-- What a name is bound to after the loop depends on the parameters it has passed by, and not on the
order in which it finds them. -/
theorem get?_foldl_deferParam (ps : List Param) (c : Call) (name : String) :
    (ps.foldl deferParam c).get? name =
      if ∃ p ∈ ps, p.value.isThreaded = true ∧ p.name = name then some (.undefined true)
      else c.get? name := by
  induction ps generalizing c with
  | nil => simp
  | cons p rest ih =>
    rw [List.foldl_cons, ih, get?_deferParam]
    by_cases hp : p.value.isThreaded = true ∧ p.name = name
    · simp [hp]
    · by_cases hrest : ∃ q ∈ rest, q.value.isThreaded = true ∧ q.name = name
      · simp [hp, hrest]
      · simp [hp, hrest]

theorem nodup_names_deferThreaded {c : Call} (h : (c.params.map Param.name).Nodup) :
    (c.deferThreaded.params.map Param.name).Nodup := by
  rw [deferThreaded_eq_foldl]
  refine List.foldlRecOn c.params deferParam
    (motive := fun d => (d.params.map Param.name).Nodup) h fun d hd p _ => ?_
  unfold deferParam
  split
  · exact nodup_names_set p.name _ hd
  · exact hd

theorem get?_deferThreaded {c : Call} (h : (c.params.map Param.name).Nodup) (name : String) :
    c.deferThreaded.get? name =
      if ∃ v, c.get? name = some v ∧ v.isThreaded = true then some (.undefined true)
      else c.get? name := by
  have hiff : (∃ p ∈ c.params, p.value.isThreaded = true ∧ p.name = name) ↔
      ∃ v, c.get? name = some v ∧ v.isThreaded = true := by
    simp only [get?_eq_some_iff h]
    constructor
    · rintro ⟨p, hp, ht, rfl⟩
      exact ⟨p.value, hp, ht⟩
    · rintro ⟨v, hv, ht⟩
      exact ⟨⟨name, v⟩, hv, ht, rfl⟩
  rw [deferThreaded_eq_foldl, get?_foldl_deferParam]
  simp only [hiff]

/-- The same function is called, what was taken from the query is open, and every other name is bound
as before. -/
structure IsDeferred (c d : Call) : Prop where
  selector : d.selector = c.selector
  channel : d.channel = c.channel
  signature : d.signature = c.signature
  opened : ∀ name var, c.get? name = some (.varRef var) →
    ¬ Value.constantMark.toList <+: var.toList → d.get? name = some (.undefined true)
  kept : ∀ name, (∀ var, c.get? name = some (.varRef var) →
    Value.constantMark.toList <+: var.toList) → d.get? name = c.get? name
  nodup : (d.params.map Param.name).Nodup

theorem isDeferred_deferThreaded {c : Call} (h : (c.params.map Param.name).Nodup) :
    c.IsDeferred c.deferThreaded := by
  have hwith := c.deferThreaded_eq_with
  refine ⟨by rw [hwith], by rw [hwith], by rw [hwith], ?_, ?_, nodup_names_deferThreaded h⟩
  · intro name var hvar hmark
    rw [get?_deferThreaded h, if_pos]
    exact ⟨_, hvar, Value.isThreaded_iff.mpr ⟨var, rfl, hmark⟩⟩
  · intro name hname
    rw [get?_deferThreaded h, if_neg]
    rintro ⟨v, hv, ht⟩
    obtain ⟨var, rfl, hmark⟩ := Value.isThreaded_iff.mp ht
    exact hmark (hname var hv)

/-- A bound parameter passes the loop unless its name is also bound to something from the query. -/
theorem mem_params_foldl_deferParam_iff {ps : List Param} {c : Call} {p : Param}
    (hp : p.value ≠ .undefined true) :
    p ∈ (ps.foldl deferParam c).params ↔
      p ∈ c.params ∧ ∀ q ∈ ps, q.value.isThreaded = true → p.name ≠ q.name := by
  induction ps generalizing c with
  | nil => simp
  | cons q rest ih =>
    have hstep : p ∈ (c.deferParam q).params ↔
        p ∈ c.params ∧ (q.value.isThreaded = true → p.name ≠ q.name) := by
      unfold deferParam
      split
      next ht =>
        have hne : p ≠ ⟨q.name, .undefined true⟩ := fun he => hp (congrArg Param.value he)
        simp [mem_params_set, hne, ht]
      next ht => simp [ht]
    rw [List.foldl_cons, ih, hstep, List.forall_mem_cons, and_assoc]

theorem mem_params_deferThreaded_iff {c : Call} {p : Param} (hp : p ∈ c.params)
    (hconstant : p.value.isConstant = true) :
    p ∈ c.deferThreaded.params ↔
      ∀ q ∈ c.params, q.value.isThreaded = true → p.name ≠ q.name := by
  have hne : p.value ≠ .undefined true := by
    intro hv
    rw [hv] at hconstant
    cases hconstant
  rw [deferThreaded_eq_foldl, mem_params_foldl_deferParam_iff hne]
  exact and_iff_right hp

end Call

namespace Statement

variable {s : Statement} {t : Table} {registry : Option Registry} {statements : List Statement}

/-- A split leaves a turn for the query, unless that is a bare call, and the turn that acts. -/
theorem turns_eq_ok_of_hasCall (ht : s.table = some t) (hcall : s.hasCall = true)
    (h : s.turns registry = .ok statements) :
    statements = queryTurn t ++ [ofCalls (s.calls.map Call.deferThreaded)] := by
  simp only [turns, ht, hcall, if_true, split] at h
  obtain ⟨_, _, h⟩ := bind_eq_ok_iff.mp h
  obtain ⟨cs, hcs, h⟩ := bind_eq_ok_iff.mp h
  obtain rfl : s.calls = cs := by
    rw [calls, onlyCalls_eq_ok_iff.mp (Stop.ofBreach_eq_ok_iff.mp hcs)]
    exact calls_ofCalls cs
  exact (Except.ok.inj h).symm

theorem queryTurn_eq (t : Table) :
    (∃ c, t = .invoke c ∧ queryTurn t = []) ∨
      (∀ c, t ≠ .invoke c) ∧ queryTurn t = [ofTable t] := by
  cases t <;> first | exact Or.inl ⟨_, rfl, rfl⟩ | exact Or.inr ⟨nofun, rfl⟩

end Statement

namespace State

variable {s : Statement} {t : Table} {registry : Option Registry} {noStream : Bool} {first : State}

theorem history_opening_of_hasCall (ht : s.table = some t) (hcall : s.hasCall = true)
    (h : opening s registry noStream = .ok first) :
    first.history = (Statement.queryTurn t).map (.pending · .accepted) ++
      [.pending (.ofCalls (s.calls.map Call.deferThreaded)) .accepted] := by
  obtain ⟨statements, hturns, rfl⟩ := opening_eq_ok h
  rw [Statement.turns_eq_ok_of_hasCall ht hcall hturns]
  simp

theorem queryTurn_mem_opening (ht : s.table = some t) (hcall : s.hasCall = true)
    (h : opening s registry noStream = .ok first) (hne : ∀ c, t ≠ .invoke c) :
    .pending (.ofTable t) .accepted ∈ first.history := by
  rcases Statement.queryTurn_eq t with ⟨c, rfl, _⟩ | ⟨_, hturn⟩
  · exact absurd rfl (hne c)
  · rw [history_opening_of_hasCall ht hcall h, hturn]
    exact List.mem_cons_self

theorem table_opening_of_invoke {c : Call} (ht : s.table = some (.invoke c))
    (hcall : s.hasCall = true) (h : opening s registry noStream = .ok first) :
    ∀ i ∈ first.history, i.statement.table = none := by
  intro i hi
  rw [history_opening_of_hasCall ht hcall h] at hi
  rw [List.mem_singleton.mp hi]
  rfl

/-- The turn that acts comes last, without a query, and calls what the command calls. -/
theorem opening_defers (ht : s.table = some t) (hcall : s.hasCall = true)
    (hnodup : ∀ c ∈ s.calls, (c.params.map Param.name).Nodup)
    (h : opening s registry noStream = .ok first) :
    ∃ last, first.history.getLast? = some last ∧ last.statement.table = none ∧
      List.Forall₂ Call.IsDeferred s.calls last.statement.calls := by
  rw [history_opening_of_hasCall ht hcall h]
  refine ⟨_, List.getLast?_concat, rfl, ?_⟩
  have hcalls : (Item.pending (.ofCalls (s.calls.map Call.deferThreaded)) .accepted).statement.calls =
      s.calls.map Call.deferThreaded := Statement.calls_ofCalls _
  rw [hcalls, List.forall₂_map_right_iff, List.forall₂_same]
  exact fun c hc => Call.isDeferred_deferThreaded (hnodup c hc)

end State

/-- Two tables are to be booked at one of the Thai places, the second for a number that has a variable
of its own. -/
def bookTwoTables : Statement where
  table := some thaiPlaces
  actions := [.call (.ofSignature reservation
      [⟨"place", .varRef "id"⟩, ⟨"guests", .number (.ofInt 2)⟩]),
    .call (.ofSignature reservation
      [⟨"guests", .varRef "__const_NUMBER_0"⟩, ⟨"place", .varRef "id"⟩])]
  stream := none

namespace State

theorem opening_defers_twoTables :
    bookTwoTables.table = some thaiPlaces ∧ bookTwoTables.hasCall = true ∧
      (∀ c ∈ bookTwoTables.calls, (c.params.map Param.name).Nodup) ∧
      ∃ first, opening bookTwoTables none true = .ok first ∧
        ∃ last, first.history.getLast? = some last ∧ last.statement.table = none ∧
          List.Forall₂ Call.IsDeferred bookTwoTables.calls last.statement.calls := by
  have hnodup : ∀ c ∈ bookTwoTables.calls, (c.params.map Param.name).Nodup := by
    intro c hc
    rcases List.mem_cons.mp hc with rfl | hc
    · decide
    · obtain rfl := List.mem_singleton.mp hc
      decide
  have hfirst : opening bookTwoTables none true = .ok _ := rfl
  exact ⟨rfl, rfl, hnodup, _, hfirst, opening_defers rfl rfl hnodup hfirst⟩

/-- What a command says is found again in the turns. A filter of the query is kept, and so is a call of
it unless it is all of the query. A constant that a call is bound to is kept unless the same name is
also bound to something from the query. -/
theorem opening_keeps (ht : s.table = some t) (hcall : s.hasCall = true)
    (h : opening s registry noStream = .ok first) :
    (∀ node ∈ t.filterNodes, ∃ i ∈ first.history, ∃ u, i.statement.table = some u ∧
      node ∈ u.filterNodes) ∧
    (∀ c ∈ t.calls, (∃ i ∈ first.history, ∃ u, i.statement.table = some u ∧ c ∈ u.calls) ↔
      t ≠ .invoke c) ∧
    ∀ c ∈ s.calls, ∃ i ∈ first.history, ∃ d ∈ i.statement.calls,
      d.functionName = c.functionName ∧ d.signature = c.signature ∧
        ∀ p ∈ c.params, p.value.isConstant = true →
          (p ∈ d.params ↔ ∀ q ∈ c.params, q.value.isThreaded = true → p.name ≠ q.name) := by
  refine ⟨?_, ?_, ?_⟩
  · intro node hnode
    refine ⟨_, queryTurn_mem_opening ht hcall h ?_, t, rfl, hnode⟩
    rintro c rfl
    cases hnode
  · intro c hc
    constructor
    · rintro ⟨i, hi, u, hu, _⟩ rfl
      rw [table_opening_of_invoke ht hcall h i hi] at hu
      cases hu
    · intro hne
      refine ⟨_, queryTurn_mem_opening ht hcall h ?_, t, rfl, hc⟩
      rintro d rfl
      exact hne (congrArg Table.invoke (List.mem_singleton.mp hc).symm)
  · intro c hc
    have hacts : .pending (.ofCalls (s.calls.map Call.deferThreaded)) .accepted ∈
        first.history := by
      rw [history_opening_of_hasCall ht hcall h]
      exact List.mem_append_right _ List.mem_cons_self
    have hmem : c.deferThreaded ∈ (Statement.ofCalls (s.calls.map Call.deferThreaded)).calls := by
      rw [Statement.calls_ofCalls]
      exact List.mem_map_of_mem hc
    have hsignature : c.deferThreaded.signature = c.signature := by
      rw [c.deferThreaded_eq_with]
    exact ⟨_, hacts, _, hmem, c.functionName_deferThreaded, hsignature,
      fun p hp hconstant => Call.mem_params_deferThreaded_iff hp hconstant⟩

theorem opening_keeps_twoTables :
    let thai := Filter.atom ⟨"cuisine", .equal, .string "thai"⟩
    bookTwoTables.table = some thaiPlaces ∧ bookTwoTables.hasCall = true ∧
      ∃ first, opening bookTwoTables none true = .ok first ∧
        (∃ i ∈ first.history, ∃ u, i.statement.table = some u ∧
          (Table.query restaurants none, thai) ∈ u.filterNodes) ∧
        (∃ i ∈ first.history, ∃ u, i.statement.table = some u ∧
          Call.ofSignature restaurants [] ∈ u.calls) ∧
        ∃ i ∈ first.history, ∃ d ∈ i.statement.calls, d.functionName = "com.dine:book" ∧
          ⟨"guests", .number (.ofInt 2)⟩ ∈ d.params := by
  intro thai
  have hfirst : opening bookTwoTables none true = .ok _ := rfl
  obtain ⟨hfilters, hcalls, hparams⟩ := opening_keeps rfl rfl hfirst
  refine ⟨rfl, rfl, _, hfirst, hfilters _ List.mem_cons_self, ?_, ?_⟩
  · exact (hcalls _ List.mem_cons_self).mpr nofun
  · obtain ⟨i, hi, d, hd, hname, _, hkept⟩ := hparams _ List.mem_cons_self
    refine ⟨i, hi, d, hd, hname, (hkept _ (List.mem_cons_of_mem _ List.mem_cons_self) rfl).mpr ?_⟩
    intro q hq ht
    rcases List.mem_cons.mp hq with rfl | hq
    · decide
    · obtain rfl := List.mem_singleton.mp hq
      cases ht

end State

/-- A table is to be booked on what the reviews of one place say. -/
def bookReviewed : Statement where
  table := some (.invoke (.ofSignature Table.reviews
    [⟨"place", .entity "p1" "com.dine:place" .null⟩]))
  actions := [.call (.ofSignature reservation [⟨"place", .varRef "id"⟩])]
  stream := none

namespace State

/-- The query is a bare call, and the place that it is about is in no turn. -/
theorem opening_drops_place :
    bookReviewed.check 0 = .ok () ∧ bookReviewed.hasCall = true ∧
      ∃ first, opening bookReviewed none false = .ok first ∧
        ∃ c p, bookReviewed.table = some (.invoke c) ∧ p ∈ c.params ∧ p.value.isConstant = true ∧
          ∀ i ∈ first.history, i.statement.table = none ∧
            ∀ d ∈ i.statement.calls, p ∉ d.params := by
  refine ⟨rfl, rfl, _, rfl, _, _, rfl, List.mem_cons_self, rfl, ?_⟩
  intro i hi
  obtain rfl := List.mem_singleton.mp hi
  refine ⟨rfl, fun d hd hp => ?_⟩
  obtain rfl := List.mem_singleton.mp hd
  cases List.mem_singleton.mp hp

end State

end Colloquy
