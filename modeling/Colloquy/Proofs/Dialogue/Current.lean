import Colloquy.Proofs.Dialogue.Preservation
import Colloquy.Proofs.Table.Attachment
import Colloquy.Proofs.Table.Leaves

namespace Colloquy

def Statement.allCalls (s : Statement) : List Call :=
  s.table.toList.flatMap Table.calls ++ s.stream.toList.flatMap Table.calls ++ s.calls

namespace State

/-- Each call of a state goes by the name of the function that it means. -/
def CallsByName (s : State) : Prop :=
  ∀ i ∈ s.history, ∀ c ∈ i.statement.allCalls, c.functionName = c.signature.qualifiedName

instance (s : State) : Decidable s.CallsByName :=
  inferInstanceAs (Decidable (∀ i ∈ s.history, ∀ c ∈ i.statement.allCalls,
    c.functionName = c.signature.qualifiedName))

variable {s : State}

theorem mem_history_of_current? {i : Item} (h : s.current? = some i) : i ∈ s.history :=
  mem_history_of_mem_executed (List.mem_of_getLast? h)

theorem CallsByName.of_currentTable? (hs : s.CallsByName) {t : Table}
    (ht : s.currentTable? = some t) {c : Call} (hc : c ∈ t.calls) :
    c.functionName = c.signature.qualifiedName := by
  obtain ⟨i, hi, htable⟩ := Option.bind_eq_some_iff.mp ht
  refine hs i (mem_history_of_current? hi) c ?_
  simp [Statement.allCalls, htable, hc]

theorem CallsByName.of_current? (hs : s.CallsByName) {i : Item} (hi : s.current? = some i)
    {c : Call} (hc : i.call? = some c) : c.functionName = c.signature.qualifiedName := by
  refine hs i (mem_history_of_current? hi) c ?_
  exact List.mem_append_right _ (List.mem_of_head? hc)

/-- Where there is a current function there is a current signature. It is the signature of that
function, unless the current query ends in a reference, where it is that of what is referred to. -/
theorem currentSignature?_of_currentFunction? (hs : s.CallsByName) {name : String}
    (h : s.currentFunction? = some name) :
    ∃ signature, s.currentSignature? = some signature ∧
      (signature.qualifiedName = name ∨
        ∃ t function, s.currentTable? = some t ∧ t.source.reference? = some function ∧
          signature.qualifiedName = function.qualifiedName) := by
  unfold currentFunction? at h
  unfold currentSignature?
  cases ht : s.currentTable? with
  | none =>
    simp only [ht] at h
    obtain ⟨c, hc, hname⟩ := Option.map_eq_some_iff.mp h
    obtain ⟨i, hi, hcall⟩ := Option.bind_eq_some_iff.mp hc
    refine ⟨c.signature, by simp only [hc, Option.map_some], Or.inl ?_⟩
    rw [← hname, hs.of_current? hi hcall]
  | some t =>
    simp only [ht] at h
    refine ⟨t.signature, rfl, ?_⟩
    rcases t.source_cases with ⟨c, hsource⟩ | ⟨function, hsource⟩
    · have hlast := Table.getLast?_calls hsource
      have hname : c.functionName = name := by
        rw [Table.functionNames_eq_map_calls, List.getLast?_map, hlast] at h
        exact Option.some.inj h
      left
      rw [← hname, hs.of_currentTable? ht (List.mem_of_getLast? hlast), t.qualifiedName_signature,
        hsource]
      rfl
    · right
      refine ⟨t, function, rfl, hsource, ?_⟩
      rw [t.qualifiedName_signature, Table.signature_of_reference? hsource]

def afterQuery (t : Table) : State where
  policy := transaction
  act := .execute
  params := none
  history := [.executed (.ofTable t) [] none false]

/-- Stars of the reviews of places that were found before. -/
def starsOfFound : Table :=
  .project (.join (.varRef "found" restaurants) (.query Table.reviews none)
    [⟨"place", .varRef "id"⟩]) ["stars"]

theorem currentSignature?_of_currentFunction?_stars :
    (afterQuery starsOfFound).CallsByName ∧
      (afterQuery starsOfFound).currentFunction? = some "com.dine:review" ∧
      ∃ signature, (afterQuery starsOfFound).currentSignature? = some signature ∧
        signature.qualifiedName = "com.dine:review" := by
  have hs : (afterQuery starsOfFound).CallsByName := by decide
  have h : (afterQuery starsOfFound).currentFunction? = some "com.dine:review" := by decide
  refine ⟨hs, h, ?_⟩
  obtain ⟨signature, hsignature, hname | ⟨t, function, ht, hsource, _⟩⟩ :=
    currentSignature?_of_currentFunction? hs h
  · exact ⟨signature, hsignature, hname⟩
  · cases ht
    cases hsource

/-- Places joined with reviews that were found before. -/
def placesWithFound : Table :=
  .join (.query restaurants none) (.varRef "found" Table.reviews) []

/-- The name is that of the call, and the signature is that of the reference. -/
theorem currentSignature?_of_reference :
    (afterQuery placesWithFound).isValid = true ∧ (afterQuery placesWithFound).CallsByName ∧
      ¬ ∀ name, (afterQuery placesWithFound).currentFunction? = some name →
        ∃ signature, (afterQuery placesWithFound).currentSignature? = some signature ∧
          signature.qualifiedName = name := by
  refine ⟨rfl, by decide, fun h => ?_⟩
  have hfunction : (afterQuery placesWithFound).currentFunction? = some "com.dine:restaurant" := by
    decide
  have hreviews : (afterQuery placesWithFound).currentSignature? = some Table.reviews := rfl
  obtain ⟨signature, hsignature, hname⟩ := h _ hfunction
  cases hreviews.symm.trans hsignature
  exact absurd hname (by decide)

end State

end Colloquy
