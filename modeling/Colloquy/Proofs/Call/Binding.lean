import Colloquy.Proofs.Call

namespace Colloquy

namespace Call

def setAll (c : Call) (bindings : List (String × Value)) : Call :=
  bindings.foldl (fun call (name, value) => call.set name value) c

variable {c : Call} {bindings : List (String × Value)}

theorem setAll_cons (c : Call) (binding : String × Value) (rest : List (String × Value)) :
    c.setAll (binding :: rest) = (c.set binding.1 binding.2).setAll rest :=
  rfl

theorem setAll_append (c : Call) (before after : List (String × Value)) :
    c.setAll (before ++ after) = (c.setAll before).setAll after :=
  List.foldl_append

theorem signature_setAll (c : Call) (bindings : List (String × Value)) :
    (c.setAll bindings).signature = c.signature := by
  induction bindings generalizing c with
  | nil => rfl
  | cons binding rest ih => exact ih (c.set binding.1 binding.2)

theorem nodup_names_setAll (h : (c.params.map Param.name).Nodup) :
    ((c.setAll bindings).params.map Param.name).Nodup := by
  induction bindings generalizing c with
  | nil => exact h
  | cons binding rest ih =>
    rw [setAll_cons]
    exact ih (nodup_names_set binding.1 binding.2 h)

theorem get?_setAll_of_not_mem {name : String} (h : name ∉ bindings.map Prod.fst) :
    (c.setAll bindings).get? name = c.get? name := by
  induction bindings generalizing c with
  | nil => rfl
  | cons binding rest ih =>
    obtain ⟨hne, hrest⟩ := not_or.mp (mt List.mem_cons.mpr h)
    rw [setAll_cons, ih hrest, get?_set_of_ne hne]

theorem get?_setAll_of_last {name : String} {value : Value} {before after : List (String × Value)}
    (h : name ∉ after.map Prod.fst) :
    (c.setAll (before ++ (name, value) :: after)).get? name = some value := by
  rw [setAll_append, setAll_cons, get?_setAll_of_not_mem h, get?_set_self]

/-- Where no name is bound twice, the check looks at what each name is bound to. -/
theorem isWellTyped_iff_get? (h : (c.params.map Param.name).Nodup) :
    c.isWellTyped = true ↔
      ∀ name value, c.get? name = some value → acceptsParam c.signature ⟨name, value⟩ = true := by
  simp only [isWellTyped_iff, get?_eq_some_iff h]
  constructor
  · rintro ⟨_, hparams⟩ name value hmem
    exact hparams _ hmem
  · intro hbound
    exact ⟨h, fun p hmem => hbound p.name p.value hmem⟩

/-- A call without repeated names stays one under any run of bindings. Each name is then bound to the
last value that the run gave it, or else as before, and the call is well typed if each name that is
bound is an input of the function, with a value that is no constant or is of an accepted type. -/
theorem setAll_binds (h : (c.params.map Param.name).Nodup) (bindings : List (String × Value)) :
    ((c.setAll bindings).params.map Param.name).Nodup ∧
      (∀ name value before after, bindings = before ++ (name, value) :: after →
        name ∉ after.map Prod.fst → (c.setAll bindings).get? name = some value) ∧
      (∀ name, name ∉ bindings.map Prod.fst → (c.setAll bindings).get? name = c.get? name) ∧
      ((c.setAll bindings).isWellTyped = true ↔
        ∀ name value, (c.setAll bindings).get? name = some value →
          ∃ a ∈ c.signature.arguments, a.name = name ∧ a.isInput = true ∧
            (value.isConstant = true → a.ty.accepts value.ty = true)) := by
  have hnodup : ((c.setAll bindings).params.map Param.name).Nodup := nodup_names_setAll h
  refine ⟨hnodup, ?_, fun name => get?_setAll_of_not_mem, ?_⟩
  · rintro name value before after rfl hafter
    exact get?_setAll_of_last hafter
  · rw [isWellTyped_iff_get? hnodup, signature_setAll]
    simp only [acceptsParam_iff, Signature.argument?_eq_some_iff, and_assoc]

/-- Reports a place, and gives the place that was reported last. -/
def report : Signature where
  isAction := true
  className := "com.dine"
  name := "report"
  arguments := [⟨.output, "last", .entity "com.dine:restaurant", [], "last"⟩,
    ⟨.required, "place", .entity "com.dine:restaurant", [], "place"⟩,
    ⟨.optional, "stars", .number, [], "stars"⟩]
  isList := false
  annotations := []
  canonical := "report"
  nodup := by decide

/-- The place is still open, and the stars are no number. -/
def lowReport : Call :=
  .ofSignature report [⟨"stars", .string "low"⟩, ⟨"place", .undefined true⟩]

/-- The stars are put right and changed once more, and the place is found in between. -/
theorem setAll_binds_report :
    let place := Value.entity "r1" "com.dine:restaurant" .null
    let run := [("stars", .number (.ofInt 2)), ("place", place), ("stars", .number (.ofInt 1))]
    (lowReport.params.map Param.name).Nodup ∧ lowReport.isWellTyped = false ∧
      (lowReport.setAll run).get? "stars" = some (.number (.ofInt 1)) ∧
      (lowReport.setAll run).isWellTyped = true := by
  intro place run
  have h : (lowReport.params.map Param.name).Nodup := by decide
  obtain ⟨hnodup, hlast, _, hcheck⟩ := setAll_binds h run
  have hparams : (lowReport.setAll run).params =
      [⟨"place", place⟩, ⟨"stars", .number (.ofInt 1)⟩] := rfl
  refine ⟨h, by decide, hlast "stars" _ (run.take 2) [] rfl List.not_mem_nil, ?_⟩
  refine hcheck.mpr fun name value hvalue => ?_
  have hmem := (get?_eq_some_iff hnodup).mp hvalue
  rw [hparams] at hmem
  rcases List.mem_cons.mp hmem with hplace | hstars
  · cases hplace
    exact ⟨_, List.mem_cons_of_mem _ List.mem_cons_self, rfl, rfl, fun _ => rfl⟩
  · cases List.mem_singleton.mp hstars
    exact ⟨_, List.mem_cons_of_mem _ (List.mem_cons_of_mem _ List.mem_cons_self), rfl, rfl,
      fun _ => rfl⟩

end Call

end Colloquy
