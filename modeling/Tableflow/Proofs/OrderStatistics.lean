import Tableflow.Proofs.Agreement
import Tableflow.Proofs.Summaries

/-!
Counts, extremes and medians of a column. They do not depend on the order of its cells, but for the
sign of a zero that is the greatest or the least. The extremes are the earliest of the values that no
other goes beyond, and the median is taken from the middle of the numbers in ascending order.
-/

namespace Tableflow

open Std (TransCmp OrientedCmp)

/-! ### Numbers by rank -/

namespace Number

variable {x y : Float}

theorem rank_injective (same : rank x = rank y) : x = y := by
  have bound : x.toBits.toNat < 2 * signWeight := x.toBits.toNat_lt
  have bound' : y.toBits.toNat < 2 * signWeight := y.toBits.toNat_lt
  rw [← Float.toBits_inj, ← UInt64.toNat_inj]
  unfold rank at same
  dsimp only at same
  split at same <;> split at same <;> omega

/-- Ascending ranks are ascending numbers. -/
theorem le_of_rank_le (number : HasOrder x) (number' : HasOrder y) (below : rank x ≤ rank y) : x ≤ y := by
  rw [le_iff number number']
  unfold rank at below
  unfold position
  dsimp only at below ⊢
  split at below <;> split at below <;> omega

end Number

/-! ### Values of one kind -/

section

variable {α : Type} {cmp : α → α → Ordering} [TransCmp cmp] {a b c : α} {wanted : Ordering}

theorem not_beyond_of_beyond (strict : wanted ≠ .eq) (beyond : cmp a b = wanted) : cmp b a ≠ wanted := by
  rw [@OrientedCmp.eq_swap _ cmp, beyond]
  revert strict
  cases wanted <;> decide

theorem beyond_of_not_beyond (strict : wanted ≠ .eq) (beyond : cmp a b = wanted) (within : cmp c b ≠ wanted) :
    cmp a c = wanted := by
  cases wanted with
  | lt =>
    exact TransCmp.lt_of_lt_of_isLE beyond
      (OrientedCmp.isGE_iff_isLE.mp (Ordering.isGE_iff_ne_lt.mpr within))
  | eq => exact absurd rfl strict
  | gt =>
    rw [OrientedCmp.gt_iff_lt] at beyond ⊢
    exact TransCmp.lt_of_isLE_of_lt (Ordering.isLE_iff_ne_gt.mpr within) beyond

end

namespace Value

variable {values others : List Value} {u v w : Value} {wanted : Ordering}

theorem compare?_eq_some_iff (strict : wanted ≠ .eq) :
    u.compare? v = some wanted ↔ Cell.compare (some u) (some v) = wanted := by
  rw [Cell.compare]
  cases u.compare? v with
  | none => simp [strict.symm]
  | some order => simp

/-- Values of one kind, none of them not-a-number. -/
structure Comparable (values : List Value) : Prop where
  ordered : ∀ v ∈ values, Cell.Numbers Number.HasOrder (some v)
  alike : ∀ v ∈ values, ∀ w ∈ values, v.kind = w.kind

namespace Comparable

theorem subset (comparable : Comparable values) (within : others ⊆ values) : Comparable others where
  ordered v here := comparable.ordered v (within here)
  alike v here w here' := comparable.alike v (within here) w (within here')

theorem transCmp (comparable : Comparable values) :
    TransCmp fun a b : { v // v ∈ values } => Cell.compare (some a.1) (some b.1) where
  eq_swap {a b} := Cell.compare_swap (comparable.ordered a a.2) (comparable.ordered b b.2)
  isLE_trans {a b c} := Cell.compare_trans (comparable.ordered a a.2) (comparable.ordered b b.2)
    (comparable.ordered c c.2) (Cell.sameKind_some (comparable.alike a a.2 b b.2))
    (Cell.sameKind_some (comparable.alike b b.2 c c.2))

section

variable (comparable : Comparable values) (strict : wanted ≠ .eq) (first : w ∈ values)
  (second : u ∈ values)

include comparable strict first second

theorem asymm (beyond : w.compare? u = some wanted) : u.compare? w ≠ some wanted := by
  have := comparable.transCmp
  rw [compare?_eq_some_iff strict] at beyond
  rw [Ne, compare?_eq_some_iff strict]
  exact @not_beyond_of_beyond _ _ this ⟨w, first⟩ ⟨u, second⟩ _ strict beyond

variable (third : v ∈ values)

include third

/-- What goes beyond a value goes beyond all that do not go beyond it themselves. -/
theorem beyond (beyond : w.compare? u = some wanted) (within : v.compare? u ≠ some wanted) :
    w.compare? v = some wanted := by
  have := comparable.transCmp
  rw [Ne, compare?_eq_some_iff strict] at within
  rw [compare?_eq_some_iff strict] at beyond ⊢
  exact @beyond_of_not_beyond _ _ this ⟨w, first⟩ ⟨u, second⟩ ⟨v, third⟩ _ strict beyond within

theorem trans (beyond : w.compare? u = some wanted) (beyond' : u.compare? v = some wanted) :
    w.compare? v = some wanted :=
  comparable.beyond strict first second third beyond (comparable.asymm strict second third beyond')

end

end Comparable

end Value

/-! ### Extremes -/

namespace Summary

variable {operation : String} {wanted : Ordering} {best v : Value} {values : List Value} {cells : List Cell}

/-- No value of the list goes beyond this one. -/
def Unsurpassed (wanted : Ordering) (values : List Value) (v : Value) : Prop :=
  ∀ u ∈ values, u.compare? v ≠ some wanted

/-- The earliest value of the list that no other goes beyond. -/
def IsExtreme (wanted : Ordering) (values : List Value) (v : Value) : Prop :=
  ∃ before after, values = before ++ v :: after ∧ Unsurpassed wanted values v ∧
    ∀ u ∈ before, ¬ Unsurpassed wanted values u

theorem exists_extreme_iff (ordered : ∀ v ∈ best :: values, Cell.Numbers Number.HasOrder (some v)) :
    (∃ v, extreme operation wanted best values = .ok v) ↔ ∀ v ∈ values, v.kind = best.kind := by
  induction values generalizing best with
  | nil => exact ⟨fun _ => List.forall_mem_nil _, fun _ => ⟨best, rfl⟩⟩
  | cons v rest ih =>
    obtain ⟨first, second, later⟩ := by simpa only [List.forall_mem_cons] using ordered
    rw [extreme, List.forall_mem_cons]
    cases compared : v.compare? best with
    | none =>
      constructor
      · rintro ⟨_, ⟨⟩⟩
      · rintro ⟨alike, -⟩
        obtain ⟨order, found⟩ := Value.exists_compare? second first alike
        rw [compared] at found
        cases found
    | some order =>
      have alike := Value.kind_eq_of_compare? compared
      have kind : (if order = wanted then v else best).kind = best.kind := by
        split
        · exact alike
        · rfl
      have next : Cell.Numbers Number.HasOrder (some (if order = wanted then v else best)) := by
        split
        · exact second
        · exact first
      dsimp only
      rw [ih (List.forall_mem_cons.mpr ⟨next, later⟩), kind]
      exact (and_iff_right alike).symm

theorem not_unsurpassed_iff :
    ¬ Unsurpassed wanted values v ↔ ∃ u ∈ values, u.compare? v = some wanted := by
  simp [Unsurpassed]

theorem IsExtreme.mem (extreme : IsExtreme wanted values v) : v ∈ values := by
  obtain ⟨before, after, rfl, -⟩ := extreme
  simp

section

variable {next : Value} {rest : List Value} (strict : wanted ≠ .eq)
  (comparable : Value.Comparable (best :: next :: rest))

include strict comparable

/-- A best value that another goes beyond does not count any more. -/
theorem IsExtreme.passed (beyond : next.compare? best = some wanted)
    (extreme : IsExtreme wanted (next :: rest) v) : IsExtreme wanted (best :: next :: rest) v := by
  have member : v ∈ best :: next :: rest := List.mem_cons_of_mem _ extreme.mem
  have second : next ∈ best :: next :: rest := List.mem_cons_of_mem _ List.mem_cons_self
  obtain ⟨before, after, shape, top, earlier⟩ := extreme
  refine ⟨best :: before, after, by rw [shape, List.cons_append], ?_, ?_⟩
  · refine List.forall_mem_cons.mpr ⟨fun beyond' => top next List.mem_cons_self ?_, top⟩
    exact comparable.trans strict second List.mem_cons_self member beyond beyond'
  · simp only [not_unsurpassed_iff, List.forall_mem_cons] at earlier ⊢
    refine ⟨⟨next, second, beyond⟩, fun u member => ?_⟩
    obtain ⟨w, member, beyond⟩ := earlier u member
    exact ⟨w, List.mem_cons_of_mem _ member, beyond⟩

/-- A value that does not go beyond the best one before it does not count. -/
theorem IsExtreme.kept (within : next.compare? best ≠ some wanted)
    (extreme : IsExtreme wanted (best :: rest) v) : IsExtreme wanted (best :: next :: rest) v := by
  have fewer : best :: rest ⊆ best :: next :: rest :=
    List.cons_subset_cons _ (List.subset_cons_self _ _)
  have first : best ∈ best :: next :: rest := List.mem_cons_self
  have second : next ∈ best :: next :: rest := List.mem_cons_of_mem _ List.mem_cons_self
  have member := fewer extreme.mem
  obtain ⟨before, after, shape, top, earlier⟩ := extreme
  have behind : next.compare? v ≠ some wanted := fun beyond =>
    within (comparable.beyond strict second member first beyond (top best List.mem_cons_self))
  have top : Unsurpassed wanted (best :: next :: rest) v := by
    obtain ⟨head, tail⟩ := List.forall_mem_cons.mp top
    exact List.forall_mem_cons.mpr ⟨head, List.forall_mem_cons.mpr ⟨behind, tail⟩⟩
  cases before with
  | nil =>
    obtain ⟨rfl, rfl⟩ := List.cons.inj shape
    exact ⟨[], next :: rest, rfl, top, List.forall_mem_nil _⟩
  | cons passed before =>
    obtain ⟨rfl, rfl⟩ := List.cons.inj shape
    simp only [not_unsurpassed_iff, List.forall_mem_cons] at earlier
    obtain ⟨⟨w, member', beyond⟩, earlier⟩ := earlier
    refine ⟨best :: next :: before, after, rfl, top, ?_⟩
    simp only [not_unsurpassed_iff, List.forall_mem_cons]
    refine ⟨⟨w, fewer member', beyond⟩, ⟨w, fewer member', ?_⟩, fun u here => ?_⟩
    · exact comparable.beyond strict (fewer member') first second beyond within
    · obtain ⟨w, member', beyond⟩ := earlier u here
      exact ⟨w, fewer member', beyond⟩

end

/-- The running best is in the end the earliest value that no other goes beyond. -/
theorem isExtreme_of_extreme (strict : wanted ≠ .eq) (comparable : Value.Comparable (best :: values))
    (found : extreme operation wanted best values = .ok v) : IsExtreme wanted (best :: values) v := by
  induction values generalizing best with
  | nil =>
    obtain rfl := Except.ok.inj found
    refine ⟨[], [], rfl, List.forall_mem_singleton.mpr fun beyond => ?_, List.forall_mem_nil _⟩
    exact comparable.asymm strict List.mem_cons_self List.mem_cons_self beyond beyond
  | cons next rest ih =>
    rw [extreme] at found
    split at found
    · cases found
    · rename_i order compared
      split at found
      · rename_i beyond
        rw [beyond] at compared
        exact (ih (comparable.subset (List.subset_cons_self _ _)) found).passed strict comparable compared
      · rename_i within
        refine (ih (comparable.subset ?_) found).kept strict comparable ?_
        · exact List.cons_subset_cons _ (List.subset_cons_self _ _)
        · rw [compared, Ne, Option.some_inj]
          exact within

/-- Extremes of the same values in two orders are equal. -/
theorem IsExtreme.equal {others : List Value} {w : Value} (strict : wanted ≠ .eq)
    (comparable : Value.Comparable values) (perm : others.Perm values)
    (extreme : IsExtreme wanted values v) (extreme' : IsExtreme wanted others w) : v.equal w = true := by
  have member := extreme.mem
  have member' := perm.mem_iff.mp extreme'.mem
  have ordered := comparable.ordered v member
  have ordered' := comparable.ordered w member'
  obtain ⟨_, _, -, top, -⟩ := extreme
  obtain ⟨_, _, -, top', -⟩ := extreme'
  have first : Cell.compare (some v) (some w) ≠ wanted := by
    rw [Ne, ← Value.compare?_eq_some_iff strict]
    exact top' v (perm.mem_iff.mpr member)
  have second : (Cell.compare (some v) (some w)).swap ≠ wanted := by
    rw [← Cell.compare_swap ordered' ordered, Ne, ← Value.compare?_eq_some_iff strict]
    exact top w member'
  obtain ⟨order, compared⟩ := Value.exists_compare? ordered ordered' (comparable.alike v member w member')
  rw [Cell.compare_of_compare? compared] at first second
  have tied : order = .eq := by
    revert strict first second
    cases wanted <;> cases order <;> decide
  rw [← Value.compare?_eq_eq_iff ordered ordered', compared, tied]

/-! ### Medians -/

variable {xs ys : List Float}

/-- The number in the middle of the list, or half the sum of the two that stand there. -/
inductive HasMiddle : List Float → Float → Prop where
  | odd {low high : List Float} {x : Float} : low.length = high.length → HasMiddle (low ++ x :: high) x
  | even {low high : List Float} {x y : Float} : low.length = high.length →
      HasMiddle (low ++ x :: y :: high) ((x + y) / 2)

theorem ascending_perm (xs : List Float) : (ascending xs).Perm xs := List.mergeSort_perm _ _

theorem pairwise_ascending (xs : List Float) :
    (ascending xs).Pairwise fun a b => Number.rank a ≤ Number.rank b := by
  refine (List.pairwise_mergeSort ?_ ?_ xs).imp of_decide_eq_true
  · intro a b c below below'
    exact decide_eq_true ((of_decide_eq_true below).trans (of_decide_eq_true below'))
  · intro a b
    rw [Bool.or_eq_true, decide_eq_true_iff, decide_eq_true_iff]
    exact le_total _ _

theorem ascending_eq_of_perm (perm : xs.Perm ys) : ascending xs = ascending ys := by
  refine List.Perm.eq_of_pairwise (fun a b _ _ below above => ?_) (pairwise_ascending xs)
    (pairwise_ascending ys) ((ascending_perm xs).trans (perm.trans (ascending_perm ys).symm))
  exact Number.rank_injective (le_antisymm below above)

theorem middle_eq_of_perm (perm : xs.Perm ys) : middle xs = middle ys := by
  rw [middle, middle, ascending_eq_of_perm perm, perm.length_eq]

theorem hasMiddle_middle (some : xs ≠ []) : HasMiddle (ascending xs) (middle xs) := by
  have positive := List.length_pos_of_ne_nil some
  unfold middle
  dsimp only
  rw [← (ascending_perm xs).length_eq] at positive ⊢
  generalize ascending xs = sorted at positive ⊢
  have inside : sorted.length / 2 < sorted.length := by omega
  rw [List.getD_eq_getElem _ _ inside]
  split
  · have before : sorted.length / 2 - 1 < sorted.length := by omega
    have next : sorted.length / 2 - 1 + 1 = sorted.length / 2 := by omega
    have shape : sorted.take (sorted.length / 2 - 1) ++
        sorted[sorted.length / 2 - 1] :: sorted[sorted.length / 2] :: sorted.drop (sorted.length / 2 + 1) =
          sorted := by
      rw [← List.drop_eq_getElem_cons inside]
      nth_rewrite 3 [← next]
      rw [← List.drop_eq_getElem_cons before, List.take_append_drop]
    rw [List.getD_eq_getElem _ _ before]
    nth_rewrite 1 [← shape]
    refine .even ?_
    rw [List.length_take, List.length_drop]
    omega
  · have shape : sorted.take (sorted.length / 2) ++
        sorted[sorted.length / 2] :: sorted.drop (sorted.length / 2 + 1) = sorted := by
      rw [← List.drop_eq_getElem_cons inside, List.take_append_drop]
    nth_rewrite 1 [← shape]
    refine .odd ?_
    rw [List.length_take, List.length_drop]
    omega

theorem numbers_eq_ok : numbers operation values = .ok xs ↔ values = xs.map .number := by
  rw [numbers, mapM_eq_ok]
  induction values generalizing xs with
  | nil => cases xs <;> simp
  | cons v rest ih =>
    cases xs with
    | nil => simp
    | cons x xs => cases v <;> simp [ih]

theorem exists_numbers_iff : (∃ xs, numbers operation values = .ok xs) ↔ ∀ v ∈ values, v.kind = .number := by
  constructor
  · rintro ⟨xs, listed⟩ v member
    rw [numbers_eq_ok.mp listed, List.mem_map] at member
    obtain ⟨x, -, rfl⟩ := member
    rfl
  · intro numeric
    refine exists_mapM fun v member => ?_
    have kind := numeric v member
    cases v with
    | number x => exact ⟨x, rfl⟩
    | _ => cases kind

/-! ### Columns -/

variable {s : Summary} {arranged : List Cell} {first : Value} {rest : List Value} {c : Cell}

/-- The values of a column from top to bottom. -/
def valuesOf (cells : List Cell) : List Value := cells.filterMap id

/-- The two summaries that look for a greatest or a least value. -/
inductive Seeks : Summary → Ordering → Prop where
  | maximum : Seeks .maximum .gt
  | minimum : Seeks .minimum .lt

/-- The summaries that are computed from the numbers of a column. -/
inductive Computes : Summary → (List Float → Float) → Prop where
  | sum : Computes .sum total
  | mean : Computes .mean average
  | median : Computes .median middle
  | variance : Computes .variance spread
  | stdDev : Computes .stdDev fun xs => (spread xs).sqrt

/-- Both fail, or both are missing, or both are values that are equal. -/
def Alike : Except Mismatch Cell → Except Mismatch Cell → Prop
  | .error _, .error _ => True
  | .ok none, .ok none => True
  | .ok (some v), .ok (some w) => v.equal w = true
  | _, _ => False

theorem numbers_valuesOf (numbers : ∀ cell ∈ cells, cell.Numbers Number.HasOrder) :
    ∀ v ∈ valuesOf cells, Cell.Numbers Number.HasOrder (some v) := by
  intro v member
  obtain ⟨cell, here, rfl⟩ := List.mem_filterMap.mp member
  exact numbers _ here

theorem alike_self (numbers : c.Numbers Number.HasOrder) : Alike (.ok c) (.ok c) := by
  cases c with
  | none => trivial
  | some v => exact (Cell.key_some_eq_iff numbers numbers).mp rfl

theorem alike_of_failures {left right : Except Mismatch Cell} (fails : ¬ ∃ c, left = .ok c)
    (fails' : ¬ ∃ c, right = .ok c) : Alike left right := by
  cases left with
  | ok c => exact absurd ⟨c, rfl⟩ fails
  | error e =>
    cases right with
    | ok c => exact absurd ⟨c, rfl⟩ fails'
    | error e' => trivial

theorem reduce_of_valuesOf_nil (s : Summary) (empty : valuesOf cells = []) : s.reduce cells = .ok none := by
  unfold valuesOf at empty
  unfold reduce
  rw [empty]

theorem Seeks.strict (seeks : s.Seeks wanted) : wanted ≠ .eq := by
  cases seeks <;> decide

theorem Seeks.reduce_eq (seeks : s.Seeks wanted) (shape : valuesOf cells = first :: rest) :
    s.reduce cells = (extreme s.name wanted first rest).map some := by
  unfold valuesOf at shape
  unfold reduce
  rw [shape]
  cases seeks <;> rfl

section

variable (numbers : ∀ cell ∈ cells, cell.Numbers Number.HasOrder) (seeks : s.Seeks wanted)
  (present : valuesOf cells ≠ [])

include numbers seeks present

theorem exists_reduce_iff_alike :
    (∃ c, s.reduce cells = .ok c) ↔ ∀ v ∈ valuesOf cells, ∀ w ∈ valuesOf cells, v.kind = w.kind := by
  obtain ⟨first, rest, shape⟩ := List.exists_cons_of_ne_nil present
  have ordered := numbers_valuesOf numbers
  rw [seeks.reduce_eq shape]
  rw [shape] at ordered ⊢
  constructor
  · rintro ⟨c, reduced⟩
    obtain ⟨v, found, -⟩ := map_eq_ok.mp reduced
    have alike := (exists_extreme_iff ordered).mp ⟨v, found⟩
    have alike : ∀ v ∈ first :: rest, v.kind = first.kind := List.forall_mem_cons.mpr ⟨rfl, alike⟩
    exact fun v here w here' => (alike v here).trans (alike w here').symm
  · intro alike
    obtain ⟨v, found⟩ := (exists_extreme_iff ordered).mpr fun v here =>
      alike v (List.mem_cons_of_mem _ here) first List.mem_cons_self
    exact ⟨some v, map_eq_ok.mpr ⟨v, found, rfl⟩⟩

theorem isExtreme_of_reduce (reduced : s.reduce cells = .ok c) :
    ∃ v, c = some v ∧ IsExtreme wanted (valuesOf cells) v := by
  have alike := (exists_reduce_iff_alike numbers seeks present).mp ⟨c, reduced⟩
  have comparable : Value.Comparable (valuesOf cells) := ⟨numbers_valuesOf numbers, alike⟩
  obtain ⟨first, rest, shape⟩ := List.exists_cons_of_ne_nil present
  rw [seeks.reduce_eq shape] at reduced
  rw [shape] at comparable ⊢
  obtain ⟨v, found, rfl⟩ := map_eq_ok.mp reduced
  exact ⟨v, rfl, isExtreme_of_extreme seeks.strict comparable found⟩

end

theorem Computes.reduce_eq {f : List Float → Float} (computes : Computes s f)
    (shape : valuesOf cells = first :: rest) :
    s.reduce cells = (Summary.numbers s.name (first :: rest)).map fun xs => Cell.finite (f xs) := by
  unfold valuesOf at shape
  unfold reduce
  rw [shape]
  cases computes <;> rfl

theorem Computes.reduce_numbers {f : List Float → Float} (computes : Computes s f)
    (shape : valuesOf cells = xs.map .number) (filled : xs ≠ []) :
    s.reduce cells = .ok (Cell.finite (f xs)) := by
  have filled : xs.map Value.number ≠ [] := mt List.map_eq_nil_iff.mp filled
  obtain ⟨first, rest, present⟩ := List.exists_cons_of_ne_nil filled
  rw [computes.reduce_eq (shape.trans present)]
  exact map_eq_ok.mpr ⟨xs, numbers_eq_ok.mpr present.symm, rfl⟩

theorem exists_median_iff :
    (∃ c, median.reduce cells = .ok c) ↔ ∀ v ∈ valuesOf cells, v.kind = .number := by
  cases shape : valuesOf cells with
  | nil => exact ⟨fun _ => List.forall_mem_nil _, fun _ => ⟨none, reduce_of_valuesOf_nil median shape⟩⟩
  | cons first rest =>
    rw [Computes.median.reduce_eq shape, ← @exists_numbers_iff median.name]
    constructor
    · rintro ⟨c, made⟩
      obtain ⟨xs, listed, -⟩ := map_eq_ok.mp made
      exact ⟨xs, listed⟩
    · rintro ⟨xs, listed⟩
      exact ⟨_, map_eq_ok.mpr ⟨xs, listed, rfl⟩⟩

/-! ### Every order of the rows -/

section

variable (numbers : ∀ cell ∈ cells, cell.Numbers Number.HasOrder) (perm : arranged.Perm cells)

include numbers perm

theorem alike_extreme (seeks : s.Seeks wanted) : Alike (s.reduce cells) (s.reduce arranged) := by
  have numbers' : ∀ cell ∈ arranged, cell.Numbers Number.HasOrder := fun cell member =>
    numbers cell (perm.mem_iff.mp member)
  have perm' : (valuesOf arranged).Perm (valuesOf cells) := perm.filterMap id
  by_cases empty : valuesOf cells = []
  · have empty' : valuesOf arranged = [] := (perm'.trans (.of_eq empty)).eq_nil
    rw [reduce_of_valuesOf_nil s empty, reduce_of_valuesOf_nil s empty']
    trivial
  have present' : valuesOf arranged ≠ [] := fun empty' => empty (perm'.symm.trans (.of_eq empty')).eq_nil
  have exists_iff := exists_reduce_iff_alike numbers seeks empty
  have exists_iff' := exists_reduce_iff_alike numbers' seeks present'
  simp only [perm'.mem_iff] at exists_iff'
  by_cases alike : ∀ v ∈ valuesOf cells, ∀ w ∈ valuesOf cells, v.kind = w.kind
  · obtain ⟨c, reduced⟩ := exists_iff.mpr alike
    obtain ⟨c', reduced'⟩ := exists_iff'.mpr alike
    obtain ⟨v, rfl, extreme⟩ := isExtreme_of_reduce numbers seeks empty reduced
    obtain ⟨w, rfl, extreme'⟩ := isExtreme_of_reduce numbers' seeks present' reduced'
    rw [reduced, reduced']
    exact extreme.equal seeks.strict ⟨numbers_valuesOf numbers, alike⟩ perm' extreme'
  · exact alike_of_failures (mt exists_iff.mp alike) (mt exists_iff'.mp alike)

omit numbers in
theorem alike_count : Alike (count.reduce cells) (count.reduce arranged) := by
  rw [reduce_count, reduce_count, perm.countP_eq]
  refine alike_self ?_
  unfold Cell.ofCount
  split
  · trivial
  · exact Number.nearest_ne_nan

omit numbers in
theorem alike_median : Alike (median.reduce cells) (median.reduce arranged) := by
  have perm' : (valuesOf arranged).Perm (valuesOf cells) := perm.filterMap id
  by_cases numeric : ∀ v ∈ valuesOf cells, v.kind = .number
  · obtain ⟨xs, listed⟩ := (@exists_numbers_iff median.name _).mpr numeric
    obtain ⟨ys, listed'⟩ := (@exists_numbers_iff median.name (valuesOf arranged)).mpr fun v member =>
      numeric v (perm'.mem_iff.mp member)
    rw [numbers_eq_ok] at listed listed'
    rw [listed, listed', List.map_perm_map_iff fun _ _ => Value.number.inj] at perm'
    by_cases empty : xs = []
    · subst empty
      obtain rfl := perm'.eq_nil
      rw [reduce_of_valuesOf_nil median listed, reduce_of_valuesOf_nil median listed']
      trivial
    · have filled : ys ≠ [] := fun empty' => empty (perm'.symm.trans (.of_eq empty')).eq_nil
      rw [Computes.median.reduce_numbers listed empty, Computes.median.reduce_numbers listed' filled,
        middle_eq_of_perm perm']
      exact alike_self ((Cell.isFinite_finite _).numbers fun _ => Number.hasOrder_of_isFinite)
  · refine alike_of_failures (mt exists_median_iff.mp numeric) (mt exists_median_iff.mp ?_)
    simpa only [perm'.mem_iff] using numeric

end

/-- Counts, extremes and medians do not depend on the order of the cells: an extreme is the earliest
value that no other goes beyond, and exists where all values are of one kind; a median stands in the
middle of the numbers in ascending order, and exists where all values are numbers. -/
theorem order_statistics (numbers : ∀ cell ∈ cells, cell.Numbers Number.HasOrder) :
    (∀ s ∈ [count, maximum, minimum, median], ∀ arranged : List Cell, arranged.Perm cells →
      Alike (s.reduce cells) (s.reduce arranged)) ∧
    (valuesOf cells ≠ [] → ∀ s wanted, Seeks s wanted →
      ((∃ c, s.reduce cells = .ok c) ↔
        ∀ v ∈ valuesOf cells, ∀ w ∈ valuesOf cells, v.kind = w.kind) ∧
      ∀ c, s.reduce cells = .ok c → ∃ v, c = some v ∧ IsExtreme wanted (valuesOf cells) v) ∧
    ((∃ c, median.reduce cells = .ok c) ↔ ∀ v ∈ valuesOf cells, v.kind = .number) ∧
    ∀ xs : List Float, valuesOf cells = xs.map .number → xs ≠ [] →
      ∃ sorted x, sorted.Perm xs ∧ sorted.Pairwise (· ≤ ·) ∧ HasMiddle sorted x ∧
        median.reduce cells = .ok (Cell.finite x) := by
  refine ⟨fun s member arranged perm => ?_, fun present s wanted seeks => ⟨?_, fun c reduced => ?_⟩,
    exists_median_iff, fun xs shape filled => ?_⟩
  · simp only [List.mem_cons, List.not_mem_nil, or_false] at member
    obtain rfl | rfl | rfl | rfl := member
    · exact alike_count perm
    · exact alike_extreme numbers perm .maximum
    · exact alike_extreme numbers perm .minimum
    · exact alike_median perm
  · exact exists_reduce_iff_alike numbers seeks present
  · exact isExtreme_of_reduce numbers seeks present reduced
  · refine ⟨ascending xs, middle xs, ascending_perm xs, ?_, hasMiddle_middle filled,
      Computes.median.reduce_numbers shape filled⟩
    have ordered : ∀ x ∈ ascending xs, Number.HasOrder x := by
      intro x member
      refine numbers_valuesOf numbers (.number x) ?_
      rw [shape]
      exact List.mem_map_of_mem ((ascending_perm xs).mem_iff.mp member)
    exact (pairwise_ascending xs).imp_of_mem fun here here' below =>
      Number.le_of_rank_le (ordered _ here) (ordered _ here') below

/-- Zeros of both signs around a lesser number, below a missing cell. -/
def zeros : List Cell := [none, some (.number 0), some (.number (-2.5)), some (.number (-0))]

theorem order_statistics_zeros :
    maximum.reduce zeros = .ok (some (.number 0)) ∧ maximum.reduce zeros.reverse = .ok (some (.number (-0))) ∧
    Alike (maximum.reduce zeros) (maximum.reduce zeros.reverse) := by
  refine ⟨rfl, rfl, ?_⟩
  exact (order_statistics (by decide)).1 maximum (by decide) _ (List.reverse_perm zeros)

end Summary

end Tableflow
