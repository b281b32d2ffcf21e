import Colloquy.Exchange.Opening
import Colloquy.Proofs.Dialogue.Preservation

namespace Colloquy

namespace Statement

/-- The query that is asked once and the one that is watched. -/
def queries (s : Statement) : List Table :=
  s.table.toList ++ s.stream.toList

def withoutStream (s : Statement) : Statement :=
  { s with stream := none }

theorem mem_queries_iff {s : Statement} {t : Table} :
    t ∈ s.queries ↔ s.table = some t ∨ s.stream = some t := by
  simp [queries]

theorem checkCalls_withoutStream (s : Statement) (index : Nat) (cs : List Call) :
    s.withoutStream.checkCalls index cs = s.checkCalls index cs := by
  induction cs with
  | nil => rfl
  | cons c rest ih =>
    have hunbound : s.withoutStream.unboundVariable? c = s.unboundVariable? c := rfl
    rw [checkCalls, checkCalls, hunbound, ih]

theorem check_withoutStream (s : Statement) (index : Nat) :
    s.withoutStream.check index = s.check index := by
  have hcalls : s.withoutStream.checkCalls index s.withoutStream.calls = s.checkCalls index s.calls :=
    checkCalls_withoutStream s index s.calls
  unfold check
  rw [hcalls]
  rfl

end Statement

def Item.withoutStream (i : Item) : Item :=
  { i with statement := i.statement.withoutStream }

namespace State

def withoutStreams (s : State) : State :=
  { s with history := s.history.map Item.withoutStream }

theorem checkItems_withoutStream (index : Nat) (seen : Bool) (items : List Item) :
    checkItems index seen (items.map Item.withoutStream) = checkItems index seen items := by
  induction items generalizing index seen with
  | nil => rfl
  | cons i rest ih =>
    have hitem : i.withoutStream.statement.check index = i.statement.check index :=
      Statement.check_withoutStream i.statement index
    have hexecuted : i.withoutStream.isExecuted = i.isExecuted := rfl
    have hresults : i.withoutStream.results = i.results := rfl
    rw [List.map_cons, checkItems, checkItems, hitem, hexecuted, hresults, ih]

theorem check_withoutStreams (s : State) : s.withoutStreams.check = s.check := by
  have hitems := checkItems_withoutStream 0 false s.history
  unfold check
  rw [← hitems]
  rfl

/-- A query of a valid state is valid unless it is watched, and any other queries could be watched in its
place. -/
theorem queries_of_isValid {s : State} (hs : s.isValid = true) :
    (∀ i ∈ s.history, ∀ t ∈ i.statement.queries, t.isValid = true ∨ i.statement.stream = some t) ∧
      ∀ other : State, other.withoutStreams = s.withoutStreams → other.isValid = true := by
  constructor
  · intro i hi t ht
    obtain ⟨_, _, hitems, _⟩ := isValid_iff.mp hs
    rcases Statement.mem_queries_iff.mp ht with htable | hstream
    · exact Or.inl ((hitems i hi).statement.query t htable)
    · exact Or.inr hstream
  · intro other hother
    rw [isValid_iff_check_eq_ok] at hs ⊢
    rw [← check_withoutStreams, hother, check_withoutStreams, hs]

end State

/-- Places with a count of stars that is no number. -/
def manyStars : Table :=
  .query restaurants (some (.atom ⟨"stars", .equal, .string "many"⟩))

/-- A table is to be booked as soon as there is a new place with many stars. -/
def bookStarred : Statement where
  table := none
  actions := [.call (.ofSignature reservation [⟨"guests", .number (.ofInt 2)⟩])]
  stream := some manyStars

namespace State

theorem queries_of_isValid_starred :
    let s : State := ⟨transaction, .execute, none, [.pending bookStarred .accepted]⟩
    let other : State := ⟨transaction, .execute, none,
      [.pending { bookStarred with stream := some (.varRef "found" restaurants) } .accepted]⟩
    s.isValid = true ∧
      (∀ i ∈ s.history, ∀ t ∈ i.statement.queries,
        t.isValid = true ∨ i.statement.stream = some t) ∧
      other.withoutStreams = s.withoutStreams ∧ other.isValid = true := by
  intro s other
  have hs : s.isValid = true := by rfl
  have hother : other.withoutStreams = s.withoutStreams := rfl
  obtain ⟨hqueries, hothers⟩ := queries_of_isValid hs
  exact ⟨hs, hqueries, hother, hothers other hother⟩

/-- The command opens a valid state that watches for places by an ill-typed filter. -/
theorem opening_watches_illTyped :
    ∃ first, opening bookStarred none false = .ok first ∧ first.isValid = true ∧
      ∃ i ∈ first.history, ∃ t ∈ i.statement.queries, t.isValid = false :=
  ⟨_, rfl, rfl, _, List.mem_cons_self, manyStars, List.mem_cons_self, by decide⟩

end State

end Colloquy
