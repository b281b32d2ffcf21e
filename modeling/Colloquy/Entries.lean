namespace Colloquy

/-- Named values in the order in which the names first came. Reading takes the first entry of a name,
and writing changes that entry or adds one at the end. -/
abbrev Entries (α : Type) := List (String × α)

namespace Entries

variable {α : Type}

def get? (entries : Entries α) (name : String) : Option α :=
  match entries with
  | [] => none
  | (n, v) :: rest => if n = name then some v else get? rest name

def has (entries : Entries α) (name : String) : Bool :=
  (entries.get? name).isSome

def names (entries : Entries α) : List String :=
  entries.map Prod.fst

def put (entries : Entries α) (name : String) (value : α) : Entries α :=
  match entries with
  | [] => [(name, value)]
  | (n, v) :: rest => if n = name then (n, value) :: rest else (n, v) :: put rest name value

/-- Writes a name only where it has no entry. -/
def putNew (entries : Entries α) (name : String) (value : α) : Entries α :=
  if entries.has name then entries else entries.put name value

def ofList (pairs : List (String × α)) : Entries α :=
  pairs.foldl (fun entries (name, value) => entries.put name value) []

@[simp] theorem get?_put_self (entries : Entries α) (name : String) (value : α) :
    (entries.put name value).get? name = some value := by
  induction entries with
  | nil => simp [put, get?]
  | cons entry rest ih =>
    by_cases h : entry.1 = name <;> simp [put, get?, h, ih]

theorem get?_put_of_ne (entries : Entries α) {name other : String} (value : α)
    (hne : name ≠ other) : (entries.put name value).get? other = entries.get? other := by
  induction entries with
  | nil => simp [put, get?, hne]
  | cons entry rest ih =>
    obtain ⟨n, v⟩ := entry
    by_cases h : n = name
    · subst n
      simp [put, get?, hne]
    · by_cases ho : n = other
      · subst n
        simp [put, get?, h]
      · simp [put, get?, h, ho, ih]

theorem has_iff_mem_names {entries : Entries α} {name : String} :
    entries.has name = true ↔ name ∈ entries.names := by
  induction entries with
  | nil => simp [has, get?, names]
  | cons entry rest ih =>
    obtain ⟨n, v⟩ := entry
    by_cases h : n = name
    · subst n
      simp [has, get?, names]
    · simpa [has, get?, names, h, Ne.symm h] using ih

theorem get?_append (entries others : Entries α) (name : String) :
    Entries.get? (entries ++ others) name = (entries.get? name).or (others.get? name) := by
  induction entries with
  | nil => rfl
  | cons entry rest ih =>
    obtain ⟨n, v⟩ := entry
    by_cases h : n = name <;> simp [get?, h, ih]

theorem get?_filter (entries : Entries α) (p : String → Bool) (name : String) :
    Entries.get? (entries.filter (p ·.1)) name = if p name then entries.get? name else none := by
  induction entries with
  | nil => simp [get?]
  | cons entry rest ih =>
    obtain ⟨n, v⟩ := entry
    by_cases hn : n = name
    · subst hn
      cases hp : p n <;> simp [get?, hp, ih]
    · cases hp : p n <;> simp [get?, hp, ih, hn]

theorem put_eq_append {entries : Entries α} {name : String} (value : α)
    (h : name ∉ entries.names) : entries.put name value = entries ++ [(name, value)] := by
  induction entries with
  | nil => rfl
  | cons entry rest ih =>
    obtain ⟨n, v⟩ := entry
    have hn : n ≠ name := fun hn => h (hn ▸ List.mem_cons_self)
    have hrest : name ∉ Entries.names rest := fun hm => h (List.mem_cons_of_mem _ hm)
    simp [put, hn, ih hrest]

theorem names_put (entries : Entries α) (name : String) (value : α) :
    (entries.put name value).names =
      if name ∈ entries.names then entries.names else entries.names ++ [name] := by
  split
  next h =>
    induction entries with
    | nil => cases h
    | cons entry rest ih =>
      obtain ⟨n, v⟩ := entry
      by_cases hn : n = name
      · simp [put, names, hn]
      · have hrest : name ∈ Entries.names rest := (List.mem_cons.mp h).resolve_left (Ne.symm hn)
        simpa [put, names, hn] using ih hrest
  next h =>
    rw [put_eq_append value h]
    exact List.map_append

theorem names_putNew (entries : Entries α) (name : String) (value : α) :
    (entries.putNew name value).names =
      if name ∈ entries.names then entries.names else entries.names ++ [name] := by
  by_cases h : name ∈ entries.names
  · rw [putNew, if_pos (has_iff_mem_names.mpr h), if_pos h]
  · rw [putNew, if_neg (mt has_iff_mem_names.mp h), names_put]

theorem nodup_names_put {entries : Entries α} (name : String) (value : α)
    (h : entries.names.Nodup) : (entries.put name value).names.Nodup := by
  rw [names_put]
  split
  next => exact h
  next hnew =>
    refine List.nodup_append.mpr ⟨h, by simp, ?_⟩
    intro n hn m hm hnm
    have hname : n = name := hnm.trans (List.mem_singleton.mp hm)
    exact hnew (hname ▸ hn)

theorem get?_putNew (entries : Entries α) (name other : String) (value : α) :
    (entries.putNew name value).get? other =
      (entries.get? other).or (if name = other then some value else none) := by
  by_cases h : name ∈ entries.names
  · have hhas : entries.has name = true := has_iff_mem_names.mpr h
    rw [putNew, if_pos hhas]
    split
    next hname =>
      subst hname
      rw [Option.or_of_isSome hhas]
    next => rw [Option.or_none]
  · rw [putNew, if_neg (mt has_iff_mem_names.mp h), put_eq_append value h, get?_append]
    rfl

theorem foldl_put_eq_append {entries pairs : Entries α}
    (h : (names (entries ++ pairs)).Nodup) :
    pairs.foldl (fun entries (name, value) => entries.put name value) entries =
      entries ++ pairs := by
  induction pairs generalizing entries with
  | nil => exact (List.append_nil entries).symm
  | cons pair rest ih =>
    obtain ⟨n, v⟩ := pair
    have hnew : n ∉ entries.names := by
      intro hm
      rw [names, List.map_append] at h
      exact (List.nodup_append.mp h).2.2 n hm n List.mem_cons_self rfl
    rw [List.append_cons] at h
    simp only [List.foldl_cons, put_eq_append v hnew]
    rw [ih h, ← List.append_cons]

theorem ofList_eq_self {pairs : Entries α} (h : pairs.names.Nodup) : ofList pairs = pairs := by
  have hnodup : (names (([] : Entries α) ++ pairs)).Nodup := h
  exact foldl_put_eq_append hnodup

theorem get?_foldl_put (entries pairs : Entries α) (name : String) :
    Entries.get? (pairs.foldl (fun entries (name, value) => entries.put name value) entries) name =
      (Entries.get? pairs.reverse name).or (entries.get? name) := by
  induction pairs generalizing entries with
  | nil => rfl
  | cons pair rest ih =>
    obtain ⟨n, v⟩ := pair
    have hput : (entries.put n v).get? name = (Entries.get? [(n, v)] name).or (entries.get? name) := by
      by_cases hn : n = name
      · subst hn
        simp [get?]
      · simp [get?, hn, get?_put_of_ne]
    rw [List.foldl_cons, ih, hput, List.reverse_cons, get?_append, Option.or_assoc]

/-- Of several values of a name, the last counts. -/
theorem get?_ofList (pairs : Entries α) (name : String) :
    (ofList pairs).get? name = Entries.get? pairs.reverse name := by
  rw [ofList, get?_foldl_put]
  exact Option.or_none

theorem nodup_names_foldl_put {entries : Entries α} (pairs : List (String × α))
    (h : entries.names.Nodup) :
    (names (pairs.foldl (fun entries (name, value) => entries.put name value) entries)).Nodup := by
  induction pairs generalizing entries with
  | nil => exact h
  | cons pair rest ih => exact ih (nodup_names_put pair.1 pair.2 h)

theorem nodup_names_ofList (pairs : List (String × α)) : (ofList pairs).names.Nodup :=
  nodup_names_foldl_put pairs List.nodup_nil

theorem mem_of_mem_put {entries : Entries α} {name : String} {value : α} {entry : String × α}
    (h : entry ∈ entries.put name value) : entry = (name, value) ∨ entry ∈ entries := by
  induction entries with
  | nil => exact Or.inl (List.mem_singleton.mp h)
  | cons first rest ih =>
    unfold put at h
    split at h
    next hn =>
      rcases List.mem_cons.mp h with h | h
      · exact Or.inl (h.trans (by rw [hn]))
      · exact Or.inr (List.mem_cons_of_mem _ h)
    next =>
      rcases List.mem_cons.mp h with h | h
      · exact Or.inr (h ▸ List.mem_cons_self)
      · exact (ih h).imp_right (List.mem_cons_of_mem _)

theorem mem_or_mem_of_mem_foldl_put {pairs : List (String × α)} {entries : Entries α}
    {entry : String × α}
    (h : entry ∈ pairs.foldl (fun entries (name, value) => entries.put name value) entries) :
    entry ∈ entries ∨ entry ∈ pairs := by
  induction pairs generalizing entries with
  | nil => exact Or.inl h
  | cons pair rest ih =>
    rcases ih h with h | h
    · rcases mem_of_mem_put h with rfl | h
      · exact Or.inr List.mem_cons_self
      · exact Or.inl h
    · exact Or.inr (List.mem_cons_of_mem _ h)

theorem mem_of_mem_ofList {pairs : List (String × α)} {entry : String × α}
    (h : entry ∈ ofList pairs) : entry ∈ pairs :=
  (mem_or_mem_of_mem_foldl_put h).resolve_left List.not_mem_nil

theorem mem_of_get?_eq_some {entries : Entries α} {name : String} {value : α}
    (h : entries.get? name = some value) : (name, value) ∈ entries := by
  induction entries with
  | nil => cases h
  | cons first rest ih =>
    unfold get? at h
    split at h
    next hn => exact Option.some.inj h ▸ hn ▸ List.mem_cons_self
    next => exact List.mem_cons_of_mem _ (ih h)

theorem has_eq_false {entries : Entries α} {name : String}
    (h : ∀ value, (name, value) ∉ entries) : entries.has name = false := by
  unfold has
  cases hg : entries.get? name with
  | none => rfl
  | some value => exact absurd (mem_of_get?_eq_some hg) (h value)

end Entries

section Naming

variable {α : Type} (known : List α) (name : α → String)
  (other : (s : String) → s ∉ known.map name → α)

/-- The one of some known values that goes by a name, or what stands for a name that is new. -/
def ofName (s : String) : α :=
  match h : known.find? (name · == s) with
  | some a => a
  | none => other s (by simpa using h)

theorem ofName_of_not_mem {s : String} (h : s ∉ known.map name) :
    ofName known name other s = other s h := by
  unfold ofName
  split
  next a ha =>
    have hname : name a = s := by simpa using List.find?_some ha
    exact absurd (List.mem_map.mpr ⟨a, List.mem_of_find?_eq_some ha, hname⟩) h
  next => rfl

theorem name_ofName (hother : ∀ s h, name (other s h) = s) (s : String) :
    name (ofName known name other s) = s := by
  unfold ofName
  split
  next a ha => simpa using List.find?_some ha
  next => exact hother s _

end Naming

end Colloquy
