/-!
Lists of names: the distinct names of a list, and the first name that comes a second time.
-/

namespace Tableflow.Names

/-- Each name once, where it first comes. -/
def distinct : List String → List String
  | [] => []
  | name :: rest => name :: (distinct rest).filter (fun other => other ≠ name)

/-- The first name that also stands in `seen` or earlier in the list. -/
def repeatAfter? (seen : List String) : List String → Option String
  | [] => none
  | name :: rest => if name ∈ seen then some name else repeatAfter? (name :: seen) rest

def firstRepeat? (names : List String) : Option String := repeatAfter? [] names

@[simp] theorem mem_distinct {name : String} {names : List String} :
    name ∈ distinct names ↔ name ∈ names := by
  induction names with
  | nil => simp [distinct]
  | cons head rest ih =>
    by_cases same : name = head
    · simp [distinct, same]
    · simp [distinct, same, ih]

theorem nodup_distinct (names : List String) : (distinct names).Nodup := by
  induction names with
  | nil => simp [distinct]
  | cons head rest ih =>
    rw [distinct, List.nodup_cons]
    exact ⟨by simp, ih.filter _⟩

theorem distinct_eq_self {names : List String} (unique : names.Nodup) : distinct names = names := by
  induction names with
  | nil => rfl
  | cons head rest ih =>
    obtain ⟨fresh, unique⟩ := List.nodup_cons.mp unique
    rw [distinct, ih unique, List.filter_eq_self.mpr]
    intro name member
    simpa using fun same : name = head => fresh (same ▸ member)

theorem distinct_filter (keep : String → Bool) (names : List String) :
    distinct (names.filter keep) = (distinct names).filter keep := by
  induction names with
  | nil => rfl
  | cons head rest ih =>
    by_cases kept : keep head = true
    · rw [List.filter_cons_of_pos kept, distinct, distinct, List.filter_cons_of_pos kept, ih,
        List.filter_filter, List.filter_filter]
      simp only [Bool.and_comm]
    · rw [List.filter_cons_of_neg kept, distinct, List.filter_cons_of_neg kept, ih, List.filter_filter]
      apply List.filter_congr
      intro name _
      by_cases same : name = head
      · simp [same, kept]
      · simp [same]

theorem distinct_concat (names : List String) (name : String) :
    distinct (names ++ [name]) =
      if name ∈ names then distinct names else distinct names ++ [name] := by
  induction names with
  | nil => rfl
  | cons head rest ih =>
    rw [List.cons_append, distinct, ih, distinct]
    by_cases later : name ∈ rest
    · simp [later]
    · by_cases same : name = head
      · subst same
        simp [later]
      · simp [same, later]

theorem distinct_sublist (names : List String) : (distinct names).Sublist names := by
  induction names with
  | nil => exact List.Sublist.slnil
  | cons head rest ih => exact (List.filter_sublist.trans ih).cons_cons head

theorem length_distinct_eq_iff {names : List String} :
    (distinct names).length = names.length ↔ names.Nodup := by
  constructor
  · intro full
    rw [← (distinct_sublist names).eq_of_length full]
    exact nodup_distinct names
  · intro unique
    rw [distinct_eq_self unique]

/-- The first name of a kind is the same with or without repetitions. -/
theorem find?_distinct (kind : String → Bool) (names : List String) :
    (distinct names).find? kind = names.find? kind := by
  induction names with
  | nil => rfl
  | cons head rest ih =>
    by_cases hit : kind head = true
    · rw [distinct, List.find?_cons_of_pos hit, List.find?_cons_of_pos hit]
    · rw [distinct, List.find?_cons_of_neg hit, List.find?_cons_of_neg hit, ← ih, List.find?_filter]
      congr 1
      funext name
      by_cases same : name = head
      · simp [same, hit]
      · simp [same]

theorem repeatAfter?_eq_none_iff {seen names : List String} :
    repeatAfter? seen names = none ↔ names.Nodup ∧ ∀ name ∈ names, name ∉ seen := by
  induction names generalizing seen with
  | nil => simp [repeatAfter?]
  | cons head rest ih =>
    by_cases known : head ∈ seen
    · simp [repeatAfter?, known]
    · simp only [repeatAfter?, known, if_false, ih, List.nodup_cons, List.mem_cons, not_or,
        forall_eq_or_imp, not_false_eq_true, true_and]
      constructor
      · rintro ⟨unique, apart⟩
        exact ⟨⟨fun here => (apart head here).1 rfl, unique⟩, fun name here => (apart name here).2⟩
      · rintro ⟨⟨fresh, unique⟩, apart⟩
        exact ⟨unique, fun name here => ⟨fun same => fresh (same ▸ here), apart name here⟩⟩

theorem firstRepeat?_eq_none_iff {names : List String} : firstRepeat? names = none ↔ names.Nodup := by
  simp [firstRepeat?, repeatAfter?_eq_none_iff]

end Tableflow.Names
