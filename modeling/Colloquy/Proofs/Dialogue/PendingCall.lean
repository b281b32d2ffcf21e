import Colloquy.Proofs.Dialogue.Addition

namespace Colloquy

namespace State

variable {s : State}

theorem call?_bindParam (i : Item) (name : String) (value : Value) :
    (bindParam i name value).call? = i.call?.map (·.set name value) := by
  unfold Item.call? Statement.calls bindParam
  rw [calls_bindFirstCall, List.head?_modifyHead]

end State

/-- A parameter for a call of the same function as the next item's renews that item. -/
theorem Step.addition?_callParam_of_nextCall? {s : State} {n c : Call} (hn : s.nextCall? = some n)
    (hsame : n.signature.isSameFunction c.signature = true) (act : Act) (name : String)
    (value : Value) (status : Status) :
    ∃ i, (callParam act c name value status).addition? s = some ⟨status, [i], true⟩ ∧
      i.call? = some (n.set name value) := by
  obtain ⟨next, hnext, _, hcall⟩ := State.exists_next_of_nextCall? hn
  have hmerge : s.mergeable? c = some next := State.mergeable?_eq_some_iff.mpr ⟨hnext, n, hn, hsame⟩
  refine ⟨(State.bindParam next name value).renewed status, by rw [addition?, hmerge], ?_⟩
  have hbound := State.call?_bindParam next name value
  rw [hcall] at hbound
  exact hbound

namespace State

variable {s : State}

/-- The next item takes a parameter when it is a call of the same function. It keeps what it binds
elsewhere, and nothing else that the other call binds is taken over. -/
theorem merged_binds {pending c : Call} {act : Act} {status : Status} (name : String)
    (value : Value) (hnext : s.nextCall? = some pending)
    (hsame : pending.signature.isSameFunction c.signature = true) (hact : act.Takes .action)
    (hstatus : status ≠ .executed) :
    ∃ t i merged, s.addCallParam act c name value status = .ok t ∧ s.Gains t status i ∧
      i.call? = some merged ∧ merged.signature = pending.signature ∧
      merged.get? name = some value ∧
      ∀ other, other ≠ name → merged.get? other = pending.get? other := by
  have hbuilt : ∃ t, (Step.callParam act c name value status).build s = .ok t :=
    Step.exists_build hact fun h => hstatus (Option.some.inj h)
  obtain ⟨t, hb⟩ := hbuilt
  obtain ⟨i, ha, hcall⟩ := Step.addition?_callParam_of_nextCall? hnext hsame act name value status
  refine ⟨t, i, pending.set name value, hb, Step.gains_of_addition? ha hb, hcall, rfl, ?_, ?_⟩
  · exact Call.get?_set_self pending name value
  · exact fun other hne => Call.get?_set_of_ne hne

/-- The number of guests lands in the pending call, which still leaves the place open. -/
theorem merged_binds_dinner :
    let c := Call.ofSignature reservation []
    ∃ t i merged, dinner.addCallParam .execute c "guests" (.number (.ofInt 2)) .accepted = .ok t ∧
      dinner.Gains t .accepted i ∧ i.call? = some merged ∧
      merged.get? "guests" = some (.number (.ofInt 2)) ∧
      merged.get? "place" = some (.undefined false) := by
  intro c
  have hnext : dinner.nextCall? =
      some (.ofSignature reservation [⟨"place", .undefined false⟩]) := rfl
  have hsame : reservation.isSameFunction c.signature = true := by decide
  have hact : Act.execute.Takes .action := ⟨_, rfl, by decide⟩
  have hstatus : Status.accepted ≠ .executed := nofun
  obtain ⟨t, i, merged, hb, hgains, hcall, _, hname, hother⟩ :=
    merged_binds "guests" (.number (.ofInt 2)) hnext hsame hact hstatus
  exact ⟨t, i, merged, hb, hgains, hcall, hname, hother "place" (by decide)⟩

/-- The user names the number of guests with the place, and the call that was pending takes the
place alone. -/
theorem merged_without_guests :
    let c := Call.ofSignature reservation [⟨"guests", .number (.ofInt 2)⟩]
    dinner.isValid = true ∧
      (∃ n, dinner.nextCall? = some n ∧ n.signature.isSameFunction c.signature = true) ∧
      ∃ t, dinner.addCallParam .execute c "place" (.entity "p1" "com.dine:restaurant" .null)
          .accepted = .ok t ∧
        ∀ i merged, dinner.Gains t .accepted i → i.call? = some merged →
          merged.get? "guests" = none := by
  intro c
  have hnext : dinner.nextCall? =
      some (.ofSignature reservation [⟨"place", .undefined false⟩]) := rfl
  have hsame : reservation.isSameFunction c.signature = true := by decide
  have hbuilt : ∃ t, dinner.addCallParam .execute c "place"
      (.entity "p1" "com.dine:restaurant" .null) .accepted = .ok t := ⟨_, rfl⟩
  obtain ⟨t, hb⟩ := hbuilt
  refine ⟨rfl, ⟨_, hnext, hsame⟩, t, hb, fun i merged hi hcall => ?_⟩
  obtain ⟨j, ha, hj⟩ := Step.addition?_callParam_of_nextCall? hnext hsame .execute "place"
    (.entity "p1" "com.dine:restaurant" .null) .accepted
  cases hi.unique (Step.gains_of_addition? ha hb)
  cases hj.symm.trans hcall
  rfl

end State

def Item.callsFunction (f : Signature) (i : Item) : Bool :=
  i.statement.calls.any (·.signature.isSameFunction f)

/-- Whether a call of a function is still to be carried out. -/
def Item.awaits (f : Signature) (i : Item) : Bool :=
  !i.isExecuted && i.callsFunction f

def State.waiting (s : State) (f : Signature) : Nat :=
  s.history.countP (Item.awaits f)

theorem Item.awaits_of_call? {i : Item} {c : Call} {f : Signature} (hi : i.isExecuted = false)
    (hcall : i.call? = some c) (hsame : c.signature.isSameFunction f = true) :
    i.awaits f = true := by
  have hcalls : i.callsFunction f = true :=
    List.any_eq_true.mpr ⟨c, List.mem_of_head? hcall, hsame⟩
  simp [awaits, hi, hcalls]

namespace State

variable {s : State}

theorem waiting_eq_countP {f : Signature} {done rest : List Item} (h : s.history = done ++ rest)
    (hdone : ∀ i ∈ done, i.isExecuted = true) : s.waiting f = rest.countP (Item.awaits f) := by
  have hnone : done.countP (Item.awaits f) = 0 := by
    refine List.countP_eq_zero.mpr fun i hi => ?_
    simp [Item.awaits, hdone i hi]
  rw [waiting, h, List.countP_append, hnone, Nat.zero_add]

theorem waiting_eq_pending (s : State) (f : Signature) :
    s.waiting f = s.pending.countP (Item.awaits f) :=
  waiting_eq_countP s.executed_append_pending.symm fun _ => isExecuted_of_mem_executed

theorem countP_pending (s : State) (p : Item → Bool) :
    s.pending.countP p =
      (s.pending.filter Item.isProposed).countP p + (s.remaining .accepted false).countP p := by
  have hleft : s.remaining .accepted false = s.pending.filter (!·.isProposed) := rfl
  rw [hleft, List.countP_eq_countP_filter_add s.pending p Item.isProposed]

theorem remaining_of_next? {next : Item} (h : s.next? = some next) :
    ∃ rest, s.pending = next :: rest ∧
      s.remaining .accepted true = rest.filter (!·.isProposed) := by
  obtain ⟨rest, hrest⟩ := List.head?_eq_some_iff.mp h
  refine ⟨rest, hrest, ?_⟩
  simp [remaining, pendingAfter, hrest]

theorem countP_proposed_eq_zero_iff {f : Signature} :
    (s.pending.filter Item.isProposed).countP (Item.awaits f) = 0 ↔
      ∀ i ∈ s.history, i.isProposed = true → i.callsFunction f = false := by
  rw [List.countP_eq_zero]
  constructor
  · intro h i hi hp
    have hx := isExecuted_eq_false_of_isProposed hp
    rw [← s.executed_append_pending] at hi
    rcases List.mem_append.mp hi with hd | hr
    · rw [isExecuted_of_mem_executed hd] at hx
      cases hx
    · have hn := h i (List.mem_filter.mpr ⟨hr, hp⟩)
      simpa [Item.awaits, hx] using hn
  · intro h i hi
    obtain ⟨hr, hp⟩ := List.mem_filter.mp hi
    simp [Item.awaits, h i (s.pending_sublist.mem hr) hp]

end State

namespace Step

variable {s t : State} {act : Act} {c : Call} {name : String} {value : Value}

theorem waiting_of_accepted {step : Step} {i : Item} {f : Signature} {replacesNext : Bool}
    (ha : step.addition? s = some ⟨.accepted, [i], replacesNext⟩) (hb : step.build s = .ok t)
    (hcall : i.call? = some c) (hsame : c.signature.isSameFunction f = true) :
    t.waiting f = (s.remaining .accepted replacesNext).countP (Item.awaits f) + 1 := by
  obtain ⟨_, _, rfl⟩ := build_eq_ok_iff.mp hb
  have hstatus : i.status = .accepted := (status_of_mem_addition ha (List.mem_singleton.mpr rfl)).1
  have hi : i.awaits f = true :=
    Item.awaits_of_call? (by simp [Item.isExecuted, hstatus]) hcall hsame
  have hhistory := history_of_addition? ha
  rw [if_neg (by simp)] at hhistory
  rw [State.waiting_eq_countP hhistory fun _ => State.isExecuted_of_mem_executed,
    List.countP_cons_of_pos hi]

/-- The renewed call waits in place of the next one. -/
theorem waiting_le_of_nextCall? {n : Call} (hn : s.nextCall? = some n)
    (hsame : n.signature.isSameFunction c.signature = true)
    (hb : (callParam act c name value .accepted).build s = .ok t) :
    t.waiting c.signature ≤ s.waiting c.signature := by
  obtain ⟨next, hnext, _, hold⟩ := State.exists_next_of_nextCall? hn
  obtain ⟨rest, hrest, hleft⟩ := State.remaining_of_next? hnext
  obtain ⟨i, ha, hcall⟩ := addition?_callParam_of_nextCall? hn hsame act name value .accepted
  have hgone : next.awaits c.signature = true :=
    Item.awaits_of_call? (State.isExecuted_eq_false_of_next hnext) hold hsame
  calc t.waiting c.signature
      = (rest.filter (!·.isProposed)).countP (Item.awaits c.signature) + 1 := by
        rw [waiting_of_accepted ha hb hcall hsame, hleft]
    _ ≤ rest.countP (Item.awaits c.signature) + 1 :=
        Nat.add_le_add_right List.filter_sublist.countP_le 1
    _ = s.waiting c.signature := by
        rw [s.waiting_eq_pending, hrest, List.countP_cons_of_pos hgone]

/-- A call of its own is one more that waits, while the proposals go. -/
theorem waiting_add_proposed (hm : s.mergeable? c = none)
    (hb : (callParam act c name value .accepted).build s = .ok t) :
    t.waiting c.signature + (s.pending.filter Item.isProposed).countP (Item.awaits c.signature) =
      s.waiting c.signature + 1 := by
  have ha : (callParam act c name value .accepted).addition? s =
      some ⟨.accepted, [.pending (.ofCalls [c.set name value]) .accepted], false⟩ := by
    rw [addition?, hm]
  have hself : (c.set name value).signature.isSameFunction c.signature = true := by
    simp [Call.set, Signature.isSameFunction]
  rw [waiting_of_accepted ha hb rfl hself, s.waiting_eq_pending, s.countP_pending]
  omega

end Step

namespace State

variable {s : State}

/-- An accepted call with a parameter is one more that waits, unless the next item is a call of the
same function or a proposal of such a call is dropped. It makes no difference what waits behind the
next item. -/
theorem waiting_addCallParam {act : Act} (c : Call) (name : String) (value : Value)
    (hact : act.Takes .action) :
    ∃ t, s.addCallParam act c name value .accepted = .ok t ∧
      t.waiting c.signature ≤ s.waiting c.signature + 1 ∧
      (s.waiting c.signature < t.waiting c.signature ↔
        (∀ n, s.nextCall? = some n → n.signature.isSameFunction c.signature = false) ∧
          ∀ i ∈ s.history, i.isProposed = true → i.callsFunction c.signature = false) := by
  have hbuilt : ∃ t, (Step.callParam act c name value .accepted).build s = .ok t :=
    Step.exists_build hact nofun
  obtain ⟨t, hb⟩ := hbuilt
  cases hm : s.mergeable? c with
  | some _ =>
    obtain ⟨_, n, hn, hsame⟩ := mergeable?_eq_some_iff.mp hm
    have hle := Step.waiting_le_of_nextCall? hn hsame hb
    refine ⟨t, hb, by omega, ?_⟩
    constructor
    · intro hmore
      omega
    · rintro ⟨hother, _⟩
      simp [hother n hn] at hsame
  | none =>
    have hother := mergeable?_eq_none_iff.mp hm
    have hsum := Step.waiting_add_proposed hm hb
    refine ⟨t, hb, by omega, ?_⟩
    rw [← countP_proposed_eq_zero_iff]
    constructor
    · intro hmore
      exact ⟨hother, by omega⟩
    · rintro ⟨_, hnone⟩
      omega

/-- The pending call takes the parameter, and no other call waits. -/
theorem waiting_addCallParam_dinner :
    ∃ t, dinner.addCallParam .execute (.ofSignature reservation []) "guests" (.number (.ofInt 2))
        .accepted = .ok t ∧ t.waiting reservation ≤ dinner.waiting reservation := by
  have hact : Act.execute.Takes .action := ⟨_, rfl, by decide⟩
  have hnext : dinner.nextCall? =
      some (.ofSignature reservation [⟨"place", .undefined false⟩]) := rfl
  obtain ⟨t, hb, _, hmore⟩ :=
    waiting_addCallParam (.ofSignature reservation []) "guests" (.number (.ofInt 2)) hact
  refine ⟨t, hb, Nat.le_of_not_lt fun hlt => ?_⟩
  have hother : reservation.isSameFunction reservation = false := (hmore.mp hlt).1 _ hnext
  exact absurd hother (by decide)

/-- The user has asked for other places, and the call waits behind the query for them. -/
def revisedDinner : State where
  policy := transaction
  act := .execute
  params := none
  history := dinner.executed ++
    .pending (.ofTable (.query restaurants none)) .accepted :: dinner.pending

/-- The parameter does not reach the call behind the query, and a second call is added. -/
theorem call_waits_twice :
    let c := Call.ofSignature reservation []
    dinner.addQuery .execute (.query restaurants none) .accepted = .ok revisedDinner ∧
      revisedDinner.isValid = true ∧
      (∃ i ∈ revisedDinner.history, i.status = .accepted ∧
        i.callsFunction c.signature = true) ∧
      ∃ t, revisedDinner.addCallParam .execute c "guests" (.number (.ofInt 2)) .accepted = .ok t ∧
        revisedDinner.waiting c.signature = 1 ∧ t.waiting c.signature = 2 := by
  intro c
  let waits := Call.ofSignature reservation [⟨"place", .undefined false⟩]
  have hlast : revisedDinner.history.getLast? =
      some (.pending (.ofCalls [waits]) .accepted) := rfl
  have hmem := List.mem_of_getLast? hlast
  exact ⟨rfl, rfl, ⟨_, hmem, rfl, by decide⟩, _, rfl, by decide, by decide⟩

end State

end Colloquy