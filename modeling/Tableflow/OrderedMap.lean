/-!
Maps from names that remember the order in which the names arrived. A new name goes to the end, a
known name keeps its place and takes the new value, and no name stands twice.
-/

namespace Tableflow

universe u v

structure OrderedMap (α : Type u) where
  entries : List (String × α)
  distinct : (entries.map Prod.fst).Nodup

namespace OrderedMap

variable {α : Type u} {β : Type v}

/-! ### Entry lists -/

/-- Put `value` under `name`: in place if the name is there, at the end otherwise. -/
def place (name : String) (value : α) : List (String × α) → List (String × α)
  | [] => [(name, value)]
  | (key, old) :: rest =>
    if key = name then (key, value) :: rest else (key, old) :: place name value rest

theorem keys_place (name : String) (value : α) (entries : List (String × α)) :
    (place name value entries).map Prod.fst =
      if name ∈ entries.map Prod.fst then entries.map Prod.fst
      else entries.map Prod.fst ++ [name] := by
  induction entries with
  | nil => simp [place]
  | cons entry rest ih =>
    obtain ⟨key, old⟩ := entry
    by_cases same : key = name
    · simp [place, same]
    · have other : ¬ name = key := fun h => same h.symm
      by_cases known : name ∈ rest.map Prod.fst
      · simp only [place, same, if_false, List.map_cons, ih, known, if_true, List.mem_cons, or_true]
      · simp only [place, same, if_false, List.map_cons, ih, known, List.mem_cons, other, or_self,
          List.cons_append]

theorem nodup_keys_place (name : String) (value : α) {entries : List (String × α)}
    (distinct : (entries.map Prod.fst).Nodup) :
    ((place name value entries).map Prod.fst).Nodup := by
  rw [keys_place]
  split
  · exact distinct
  · rename_i fresh
    rw [List.nodup_append]
    refine ⟨distinct, by simp, ?_⟩
    intro key here other there same
    rw [List.mem_singleton] at there
    subst there
    subst same
    exact fresh here

/-- Take out the entry under `name` and move the last one to its place. -/
def swapOut (name : String) : List (String × α) → List (String × α)
  | [] => []
  | entry :: rest =>
    if entry.1 = name then
      match rest.getLast? with
      | some last => last :: rest.dropLast
      | none => []
    else entry :: swapOut name rest

theorem swapOut_perm (name : String) {entries : List (String × α)}
    (distinct : (entries.map Prod.fst).Nodup) :
    (swapOut name entries).Perm (entries.filter fun entry => entry.1 ≠ name) := by
  induction entries with
  | nil => exact .refl []
  | cons entry rest ih =>
    obtain ⟨fresh, distinct⟩ := List.nodup_cons.mp distinct
    by_cases same : entry.1 = name
    · have others : rest.filter (fun entry => entry.1 ≠ name) = rest := by
        rw [List.filter_eq_self]
        intro other member
        simpa using fun again : other.1 = name =>
          fresh (List.mem_map.mpr ⟨other, member, again.trans same.symm⟩)
      rw [List.filter_cons_of_neg (by simpa using same), others, swapOut, if_pos same]
      cases last : rest.getLast? with
      | none => rw [List.getLast?_eq_none_iff.mp last]
      | some final =>
        obtain ⟨front, rfl⟩ := List.getLast?_eq_some_iff.mp last
        rw [List.dropLast_concat]
        exact (List.perm_append_singleton final front).symm
    · rw [List.filter_cons_of_pos (by simpa using same), swapOut, if_neg same]
      exact (ih distinct).cons entry

theorem nodup_keys_swapOut (name : String) {entries : List (String × α)}
    (distinct : (entries.map Prod.fst).Nodup) : ((swapOut name entries).map Prod.fst).Nodup :=
  ((swapOut_perm name distinct).map Prod.fst).nodup_iff.mpr
    (distinct.sublist (List.filter_sublist.map Prod.fst))

/-! ### Operations -/

def empty : OrderedMap α := ⟨[], by simp⟩

instance : Inhabited (OrderedMap α) := ⟨empty⟩

instance [BEq α] : BEq (OrderedMap α) := ⟨fun a b => a.entries == b.entries⟩

/-- Names in order of arrival. -/
def keys (m : OrderedMap α) : List String := m.entries.map Prod.fst

def values (m : OrderedMap α) : List α := m.entries.map Prod.snd

def size (m : OrderedMap α) : Nat := m.entries.length

def get? (m : OrderedMap α) (name : String) : Option α := m.entries.lookup name

def contains (m : OrderedMap α) (name : String) : Bool := (m.get? name).isSome

def insert (m : OrderedMap α) (name : String) (value : α) : OrderedMap α :=
  ⟨place name value m.entries, nodup_keys_place name value m.distinct⟩

/-- Remove a name; the others keep their order. -/
def erase (m : OrderedMap α) (name : String) : OrderedMap α :=
  ⟨m.entries.filter (fun entry => entry.1 ≠ name),
    m.distinct.sublist (List.filter_sublist.map Prod.fst)⟩

/-- Remove a name; the last entry takes its place. -/
def swapErase (m : OrderedMap α) (name : String) : OrderedMap α :=
  ⟨swapOut name m.entries, nodup_keys_swapOut name m.distinct⟩

/-- Insert the entries one after the other, so that the last value given for a name counts. -/
def ofList (entries : List (String × α)) : OrderedMap α :=
  entries.foldl (fun m entry => m.insert entry.1 entry.2) empty

def map (f : α → β) (m : OrderedMap α) : OrderedMap β :=
  ⟨m.entries.map (fun entry => (entry.1, f entry.2)), by
    have same : (m.entries.map (fun entry => (entry.1, f entry.2))).map Prod.fst = m.keys := by
      simp [keys]
    rw [same]
    exact m.distinct⟩

/-! ### What the operations do to names and values -/

@[simp] theorem keys_empty : (empty : OrderedMap α).keys = [] := rfl

@[simp] theorem get?_empty (name : String) : (empty : OrderedMap α).get? name = none := rfl

theorem nodup_keys (m : OrderedMap α) : m.keys.Nodup := m.distinct

theorem keys_insert (m : OrderedMap α) (name : String) (value : α) :
    (m.insert name value).keys = if name ∈ m.keys then m.keys else m.keys ++ [name] :=
  keys_place name value m.entries

theorem lookup_place (name other : String) (value : α) (entries : List (String × α)) :
    (place name value entries).lookup other =
      if other = name then some value else entries.lookup other := by
  induction entries with
  | nil =>
    by_cases same : other = name
    · simp [place, same]
    · have differs : (other == name) = false := by simpa using same
      simp [place, List.lookup_cons, differs, same]
  | cons entry rest ih =>
    obtain ⟨key, old⟩ := entry
    by_cases here : key = name
    · subst here
      by_cases same : other = key
      · simp [place, same]
      · have differs : (other == key) = false := by simpa using same
        simp [place, List.lookup_cons, differs, same]
    · by_cases same : other = key
      · subst same
        simp [place, here]
      · simp only [place, here, if_false, List.lookup_cons]
        have differs : (other == key) = false := by simpa using same
        simp only [differs, ih]

theorem get?_insert (m : OrderedMap α) (name other : String) (value : α) :
    (m.insert name value).get? other = if other = name then some value else m.get? other :=
  lookup_place name other value m.entries

theorem keys_erase (m : OrderedMap α) (name : String) :
    (m.erase name).keys = m.keys.filter (fun key => key ≠ name) := by
  simp [keys, erase, List.filter_map, Function.comp_def]

@[simp] theorem keys_map (f : α → β) (m : OrderedMap α) : (m.map f).keys = m.keys := by
  simp [keys, map]

/-! ### Entries behind the lookups -/

theorem lookup_eq_some_of_mem {entries : List (String × α)} (distinct : (entries.map Prod.fst).Nodup)
    {name : String} {value : α} (here : (name, value) ∈ entries) :
    entries.lookup name = some value := by
  obtain ⟨before, after, rfl⟩ := List.append_of_mem here
  rw [List.lookup_eq_some_iff]
  refine ⟨before, after, rfl, ?_⟩
  intro entry earlier
  simp only [List.map_append, List.map_cons, List.nodup_append] at distinct
  have apart := distinct.2.2 entry.1 (List.mem_map_of_mem earlier) name List.mem_cons_self
  simpa using Ne.symm apart

theorem get?_eq_some_iff {m : OrderedMap α} {name : String} {value : α} :
    m.get? name = some value ↔ (name, value) ∈ m.entries := by
  constructor
  · intro found
    obtain ⟨before, after, same, _⟩ := List.lookup_eq_some_iff.mp found
    rw [same]
    simp
  · exact lookup_eq_some_of_mem m.distinct

theorem get?_eq_none_iff {m : OrderedMap α} {name : String} : m.get? name = none ↔ name ∉ m.keys := by
  simp only [get?, List.lookup_eq_none_iff, keys, List.mem_map, not_exists, not_and]
  constructor
  · intro absent entry here same
    have differs := absent entry here
    simp [same] at differs
  · intro absent entry here
    have differs := absent entry here
    simpa using Ne.symm differs

theorem get?_swapErase_of_ne (m : OrderedMap α) {name other : String} (apart : other ≠ name) :
    (m.swapErase name).get? other = m.get? other := by
  apply Option.ext
  intro value
  rw [get?_eq_some_iff, get?_eq_some_iff, swapErase, (swapOut_perm name m.distinct).mem_iff,
    List.mem_filter]
  exact and_iff_left (by simpa using apart)

theorem mem_keys_iff {m : OrderedMap α} {name : String} :
    name ∈ m.keys ↔ ∃ value, m.get? name = some value := by
  rw [← Option.ne_none_iff_exists', ne_eq, get?_eq_none_iff, Classical.not_not]

theorem mem_keys_of_get? {m : OrderedMap α} {name : String} {value : α}
    (found : m.get? name = some value) : name ∈ m.keys := mem_keys_iff.mpr ⟨value, found⟩

theorem entries_insert_of_fresh {m : OrderedMap α} {name : String} (value : α)
    (fresh : name ∉ m.keys) : (m.insert name value).entries = m.entries ++ [(name, value)] := by
  have placed : ∀ entries : List (String × α), name ∉ entries.map Prod.fst →
      place name value entries = entries ++ [(name, value)] := by
    intro entries
    induction entries with
    | nil => intro _; rfl
    | cons entry rest ih =>
      intro fresh
      simp only [List.map_cons, List.mem_cons, not_or] at fresh
      rw [place, if_neg (Ne.symm fresh.1), ih fresh.2, List.cons_append]
  exact placed m.entries fresh

theorem eq_of_entries {m n : OrderedMap α} (same : m.entries = n.entries) : m = n := by
  cases m
  cases n
  cases same
  rfl

theorem lookups_eq (m : OrderedMap α) :
    m.entries.map (fun entry => (entry.1, some entry.2)) = m.keys.map fun name => (name, m.get? name) := by
  rw [keys, List.map_map]
  apply List.map_congr_left
  intro entry here
  simp only [Function.comp, get?_eq_some_iff.mpr here]

/-- A map is what its names and its lookups are. -/
theorem eq_of_get? {m n : OrderedMap α} (keys : m.keys = n.keys)
    (same : ∀ name ∈ m.keys, m.get? name = n.get? name) : m = n := by
  have lookups : m.keys.map (fun name => (name, m.get? name)) =
      n.keys.map fun name => (name, n.get? name) := by
    rw [← keys]
    apply List.map_congr_left
    intro name here
    rw [same name here]
  rw [← lookups_eq, ← lookups_eq, List.map_inj_right] at lookups
  · exact eq_of_entries lookups
  · intro first second equal
    cases first
    cases second
    cases equal
    rfl

theorem get?_map (f : α → β) (m : OrderedMap α) (name : String) :
    (m.map f).get? name = (m.get? name).map f := by
  have mapped : ∀ entries : List (String × α),
      (entries.map (fun entry => (entry.1, f entry.2))).lookup name = (entries.lookup name).map f := by
    intro entries
    induction entries with
    | nil => rfl
    | cons entry rest ih =>
      obtain ⟨key, value⟩ := entry
      simp only [List.map_cons, List.lookup_cons, ih]
      split <;> rfl
  exact mapped m.entries

/-! ### Maps from lists -/

theorem mem_of_mem_place {name : String} {value : α} {entries : List (String × α)}
    {entry : String × α} (here : entry ∈ place name value entries) :
    entry = (name, value) ∨ entry ∈ entries := by
  induction entries with
  | nil => exact .inl (List.mem_singleton.mp here)
  | cons first rest ih =>
    obtain ⟨key, old⟩ := first
    rw [place] at here
    split at here
    · rename_i same
      subst same
      rcases List.mem_cons.mp here with rfl | later
      · exact .inl rfl
      · exact .inr (List.mem_cons_of_mem _ later)
    · rcases List.mem_cons.mp here with rfl | later
      · exact .inr List.mem_cons_self
      · exact (ih later).imp_right (List.mem_cons_of_mem _)

theorem mem_of_mem_ofList {entries : List (String × α)} {entry : String × α}
    (here : entry ∈ (ofList entries).entries) : entry ∈ entries := by
  have folded : ∀ (entries : List (String × α)) (m : OrderedMap α),
      entry ∈ (entries.foldl (fun m entry => m.insert entry.1 entry.2) m).entries →
      entry ∈ m.entries ∨ entry ∈ entries := by
    intro entries
    induction entries with
    | nil => exact fun _ here => .inl here
    | cons first rest ih =>
      intro m here
      rcases ih _ here with early | later
      · rcases mem_of_mem_place early with rfl | old
        · exact .inr List.mem_cons_self
        · exact .inl old
      · exact .inr (List.mem_cons_of_mem _ later)
  exact (folded entries empty here).resolve_left List.not_mem_nil

theorem ofList_entries (m : OrderedMap α) : ofList m.entries = m := by
  have folded : ∀ (entries : List (String × α)) (m : OrderedMap α),
      ((m.entries ++ entries).map Prod.fst).Nodup →
      (entries.foldl (fun m entry => m.insert entry.1 entry.2) m).entries = m.entries ++ entries := by
    intro entries
    induction entries with
    | nil => exact fun m _ => (List.append_nil m.entries).symm
    | cons first rest ih =>
      intro m distinct
      have fresh : first.1 ∉ m.keys := by
        rw [List.map_append, List.map_cons, List.nodup_append] at distinct
        exact fun here => distinct.2.2 _ here _ List.mem_cons_self rfl
      have inserted := entries_insert_of_fresh first.2 fresh
      rw [List.foldl_cons, ih, inserted, List.append_assoc, List.singleton_append]
      rwa [inserted, List.append_assoc, List.singleton_append]
  exact eq_of_entries (folded m.entries empty m.distinct)

end OrderedMap

end Tableflow
