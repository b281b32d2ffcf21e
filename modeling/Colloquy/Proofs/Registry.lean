import Colloquy.Proofs.Signature
import Colloquy.Registry.Basic
import Mathlib.Data.List.Induction

namespace Colloquy

theorem eraseDups_concat (xs : List String) (x : String) :
    (xs ++ [x]).eraseDups = if x ∈ xs then xs.eraseDups else xs.eraseDups ++ [x] := by
  rw [List.eraseDups_append]
  by_cases h : x ∈ xs
  · have hdropped : [x].removeAll xs = [] := by
      rw [List.removeAll, List.filter_eq_nil_iff]
      simpa using h
    rw [hdropped, if_pos h]
    exact List.append_nil _
  · have hkept : [x].removeAll xs = [x] := by
      rw [List.removeAll, List.filter_eq_self]
      simpa using h
    rw [hkept, if_neg h]
    rfl

namespace Signature

variable {s : Signature}

/-- A list query that declares an entity type for what identifies its results. -/
structure Enumerates (s : Signature) (entityType : String) : Prop where
  isQuery : s.isAction = false
  isList : s.isList = true
  identifier : ∃ a ∈ s.arguments, a.name = "id" ∧ a.ty = .entity entityType

theorem idTy?_eq_some_iff {ty : Ty} :
    s.idTy? = some ty ↔ ∃ a ∈ s.arguments, a.name = "id" ∧ a.ty = ty := by
  simp only [idTy?, ty?, Option.map_eq_some_iff, argument?_eq_some_iff, and_assoc]

theorem enumerates?_eq_some_iff {entityType : String} :
    s.enumerates? = some entityType ↔ s.Enumerates entityType := by
  have hkind : s.enumerates? = some entityType ↔
      s.isAction = false ∧ s.isList = true ∧ s.idTy? = some (.entity entityType) := by
    unfold enumerates?
    cases s.isAction <;> cases s.isList <;> rcases s.idTy? with _ | ty <;> try cases ty
    all_goals simp
  rw [hkind, idTy?_eq_some_iff]
  exact ⟨fun ⟨hquery, hlist, hid⟩ => ⟨hquery, hlist, hid⟩,
    fun ⟨hquery, hlist, hid⟩ => ⟨hquery, hlist, hid⟩⟩

instance (s : Signature) (entityType : String) : Decidable (s.Enumerates entityType) :=
  decidable_of_iff _ enumerates?_eq_some_iff

end Signature

namespace Registry

def named (fs : List Signature) : Entries Signature :=
  fs.map fun s => (s.qualifiedName, s)

theorem names_named (fs : List Signature) :
    (named fs).names = fs.map Signature.qualifiedName := by
  rw [named, Entries.names, List.map_map]
  rfl

theorem map_snd_named (fs : List Signature) : (named fs).map Prod.snd = fs := by
  rw [named, List.map_map]
  exact List.map_id' fs

/-- The registry that is built at once from functions under their own names. -/
def ofNamed (fs : List Signature) : Registry :=
  ofEntries (named fs)

theorem get?_ofNamed (fs : List Signature) (name : String) :
    (ofNamed fs).get? name = fs.find? (·.qualifiedName == name) := by
  change (named fs).get? name = _
  induction fs with
  | nil => rfl
  | cons s rest ih =>
    by_cases h : s.qualifiedName = name
    · simp [named, Entries.get?, h]
    · simpa [named, Entries.get?, h] using ih

theorem ofFunctions_eq {fs : List Signature} (h : (fs.map Signature.qualifiedName).Nodup) :
    ofFunctions fs = ofNamed fs := by
  have hnames : (named fs).names.Nodup := by rwa [names_named]
  exact congrArg ofEntries (Entries.ofList_eq_self hnames)

theorem contains_ofNamed_iff {fs : List Signature} {name : String} :
    (ofNamed fs).contains name = true ↔ name ∈ fs.map Signature.qualifiedName := by
  rw [← names_named]
  exact Entries.has_iff_mem_names

theorem ofNamed_concat (fs : List Signature) (s : Signature) :
    ofNamed (fs ++ [s]) = ⟨(ofNamed fs).table ++ [(s.qualifiedName, s)],
      recordIdQuery (ofNamed fs).idTable s⟩ := by
  simp [ofNamed, ofEntries, named]

theorem run_insert (s : Signature) (r : Registry) :
    (insert s).run r = if r.contains s.qualifiedName = true
      then .error (.duplicateFunction s.qualifiedName) r
      else .ok () ⟨r.table.put s.qualifiedName s, recordIdQuery r.idTable s⟩ := by
  simp only [insert, LawfulMonadStateOf.set_bind_modify, EStateM.run_bind, EStateM.run_get]
  split <;> rfl

/-- One addition to a registry: a name that is taken is refused, and a function with a new name leaves
the registry that would be built with it from the start. -/
theorem run_insert_ofNamed (fs : List Signature) (s : Signature) :
    (insert s).run (ofNamed fs) = if s.qualifiedName ∈ fs.map Signature.qualifiedName
      then .error (.duplicateFunction s.qualifiedName) (ofNamed fs)
      else .ok () (ofNamed (fs ++ [s])) := by
  rw [run_insert]
  by_cases h : s.qualifiedName ∈ fs.map Signature.qualifiedName
  · rw [if_pos h, if_pos (contains_ofNamed_iff.mpr h)]
  · have hnew : s.qualifiedName ∉ (ofNamed fs).table.names := by rwa [← names_named] at h
    rw [if_neg h, if_neg (mt contains_ofNamed_iff.mp h), Entries.put_eq_append s hnew,
      ofNamed_concat]

theorem names_idTable (fs : List Signature) :
    (ofNamed fs).idTable.names = (fs.filterMap Signature.enumerates?).eraseDups := by
  -- From the end, as an addition looks only at what was recorded before it.
  induction fs using List.reverseRecOn with
  | nil => rfl
  | append_singleton fs s ih =>
    rw [ofNamed_concat, List.filterMap_append]
    cases h : s.enumerates? with
    | none => simpa [recordIdQuery, h] using ih
    | some entityType =>
      have hlast : [s].filterMap Signature.enumerates? = [entityType] := by simp [h]
      simp only [recordIdQuery, h, hlast, Entries.names_putNew, eraseDups_concat,
        List.mem_eraseDups, ih]

theorem get?_idTable (fs : List Signature) (entityType : String) :
    (ofNamed fs).idTable.get? entityType = fs.find? (·.Enumerates entityType) := by
  induction fs using List.reverseRecOn with
  | nil => rfl
  | append_singleton fs s ih =>
    have hlast : (recordIdQuery (ofNamed fs).idTable s).get? entityType =
        ((ofNamed fs).idTable.get? entityType).or
          (if s.Enumerates entityType then some s else none) := by
      simp only [← Signature.enumerates?_eq_some_iff]
      cases h : s.enumerates? with
      | none => simp [recordIdQuery, h]
      | some recorded => simp [recordIdQuery, h, Entries.get?_putNew]
    rw [ofNamed_concat, List.find?_append, ← ih, hlast]
    simp

theorem nodup_concat {fs : List Signature} {s : Signature}
    (h : (fs.map Signature.qualifiedName).Nodup)
    (hs : s.qualifiedName ∉ fs.map Signature.qualifiedName) :
    ((fs ++ [s]).map Signature.qualifiedName).Nodup := by
  rw [List.map_append, List.map_singleton, ← List.concat_eq_append, List.nodup_concat]
  exact ⟨hs, h⟩

/-- A registry that answers every question from a list of functions with different names. -/
structure AnswersFrom (r : Registry) (fs : List Signature) : Prop where
  functions_eq : r.functions = fs
  nodup_names : (fs.map Signature.qualifiedName).Nodup
  size_eq : r.size = fs.length
  contains_iff : ∀ name, r.contains name = true ↔ ∃ s ∈ fs, s.qualifiedName = name
  find_eq_ok_iff : ∀ name s, r.find name = .ok s ↔ s ∈ fs ∧ s.qualifiedName = name
  find_eq_error_iff : ∀ name e, r.find name = .error e ↔
    e = .unknownFunction name ∧ ∀ s ∈ fs, s.qualifiedName ≠ name
  idTypes_eq : r.idTypes = (fs.filterMap Signature.enumerates?).eraseDups
  mem_idTypes_iff : ∀ entityType, entityType ∈ r.idTypes ↔ ∃ s ∈ fs, s.Enumerates entityType
  idQuery?_eq : ∀ entityType, r.idQuery? entityType = fs.find? (·.Enumerates entityType)
  idQueryOf?_entity : ∀ entityType,
    r.idQueryOf? (.entity entityType) = fs.find? (·.Enumerates entityType)
  idQueryOf?_other : ∀ ty, (∀ entityType, ty ≠ .entity entityType) → r.idQueryOf? ty = none

theorem find_eq_ok_iff {r : Registry} {name : String} {s : Signature} :
    r.find name = .ok s ↔ r.get? name = some s := by
  unfold find
  cases r.get? name <;> simp

theorem find_eq_error_iff {r : Registry} {name : String} {e : Error} :
    r.find name = .error e ↔ e = .unknownFunction name ∧ r.get? name = none := by
  unfold find
  cases r.get? name <;> simp [eq_comm]

theorem answersFrom_ofNamed {fs : List Signature} (h : (fs.map Signature.qualifiedName).Nodup) :
    (ofNamed fs).AnswersFrom fs where
  functions_eq := map_snd_named fs
  nodup_names := h
  size_eq := List.length_map _
  contains_iff name := by rw [contains_ofNamed_iff, List.mem_map]
  find_eq_ok_iff name s := by
    rw [find_eq_ok_iff, get?_ofNamed]
    exact find?_key_eq_some_iff Signature.qualifiedName h
  find_eq_error_iff name e := by
    rw [find_eq_error_iff, get?_ofNamed, List.find?_eq_none]
    simp only [beq_iff_eq, ne_eq]
  idTypes_eq := names_idTable fs
  mem_idTypes_iff entityType := by
    rw [idTypes, names_idTable, List.mem_eraseDups, List.mem_filterMap]
    simp only [Signature.enumerates?_eq_some_iff]
  idQuery?_eq := get?_idTable fs
  idQueryOf?_entity := get?_idTable fs
  idQueryOf?_other ty hty := by
    cases ty with
    | entity name => exact absurd rfl (hty name)
    | _ => rfl

def left (r : Registry) (s : Signature) : Registry :=
  match (insert s).run r with
  | .ok _ next => next
  | .error _ next => next

def leftAll (r : Registry) (ss : List Signature) : Registry :=
  ss.foldl left r

def taken (r : Registry) : List Signature → List Signature
  | [] => []
  | s :: rest =>
    match (insert s).run r with
    | .ok _ next => s :: taken next rest
    | .error _ next => taken next rest

/-- A run on a registry that is built at once leaves the one that is built with what it took up. -/
theorem leftAll_ofNamed (ss : List Signature) {fs : List Signature}
    (h : (fs.map Signature.qualifiedName).Nodup) :
    (ofNamed fs).leftAll ss = ofNamed (fs ++ (ofNamed fs).taken ss) ∧
      ((fs ++ (ofNamed fs).taken ss).map Signature.qualifiedName).Nodup := by
  induction ss generalizing fs with
  | nil => simpa [leftAll, taken] using h
  | cons s rest ih =>
    have hrun := run_insert_ofNamed fs s
    by_cases hs : s.qualifiedName ∈ fs.map Signature.qualifiedName
    · rw [if_pos hs] at hrun
      have hleft : (ofNamed fs).leftAll (s :: rest) = (ofNamed fs).leftAll rest := by
        rw [leftAll, List.foldl_cons, left, hrun, leftAll]
      have htaken : (ofNamed fs).taken (s :: rest) = (ofNamed fs).taken rest := by
        rw [taken, hrun]
      rw [hleft, htaken]
      exact ih h
    · rw [if_neg hs] at hrun
      have hleft : (ofNamed fs).leftAll (s :: rest) = (ofNamed (fs ++ [s])).leftAll rest := by
        rw [leftAll, List.foldl_cons, left, hrun, leftAll]
      have htaken : fs ++ (ofNamed fs).taken (s :: rest) =
          fs ++ [s] ++ (ofNamed (fs ++ [s])).taken rest := by
        rw [taken, hrun, List.append_cons]
      rw [hleft, htaken]
      exact ih (nodup_concat h hs)

/-- Whatever is added to an empty registry, and whatever of it is refused, the registry answers from
the functions that were taken up, as the one does that is built from them. A further addition brings
its function in or is refused for its name, and then nothing has changed. -/
theorem answersFrom_leftAll (ss : List Signature) :
    let r := empty.leftAll ss
    let fs := empty.taken ss
    r.AnswersFrom fs ∧ ofFunctions fs = r ∧
      ∀ s, (s.qualifiedName ∉ fs.map Signature.qualifiedName ∧
          ∃ next, (insert s).run r = .ok () next ∧ next.AnswersFrom (fs ++ [s])) ∨
        (s.qualifiedName ∈ fs.map Signature.qualifiedName ∧
          (insert s).run r = .error (.duplicateFunction s.qualifiedName) r) := by
  intro r fs
  have hempty : (([] : List Signature).map Signature.qualifiedName).Nodup := List.nodup_nil
  obtain ⟨hr, hnodup⟩ : r = ofNamed fs ∧ (fs.map Signature.qualifiedName).Nodup :=
    leftAll_ofNamed ss hempty
  rw [hr]
  refine ⟨answersFrom_ofNamed hnodup, ofFunctions_eq hnodup, fun s => ?_⟩
  have hrun := run_insert_ofNamed fs s
  by_cases hs : s.qualifiedName ∈ fs.map Signature.qualifiedName
  · rw [if_pos hs] at hrun
    exact Or.inr ⟨hs, hrun⟩
  · rw [if_neg hs] at hrun
    exact Or.inl ⟨hs, _, hrun, answersFrom_ofNamed (nodup_concat hnodup hs)⟩

end Registry

end Colloquy
