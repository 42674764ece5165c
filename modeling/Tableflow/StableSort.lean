/-!
Stable sorting by insertion. Items are taken from first to last, and each goes behind the last item
that it does not come before. Items that have no order, as numbers and not-a-number have none, stay
as they stand to each other, so the result is fixed for every relation.
-/

namespace Tableflow

variable {α : Type}

/-- Insert an item into a list that runs backwards, from the last item to the first. -/
def insertBehind (before : α → α → Bool) (item : α) : List α → List α
  | [] => [item]
  | last :: rest =>
    if before item last then last :: insertBehind before item rest else item :: last :: rest

/-- The items in order, where `before a b` says that `a` has to stand before `b`. -/
def stableSort (before : α → α → Bool) (items : List α) : List α :=
  (items.foldl (fun sorted item => insertBehind before item sorted) []).reverse

theorem insertBehind_perm (before : α → α → Bool) (item : α) (sorted : List α) :
    (insertBehind before item sorted).Perm (item :: sorted) := by
  fun_induction insertBehind before item sorted with
  | case1 => rfl
  | case2 last rest _ ih => exact (ih.cons last).trans (List.Perm.swap item last rest)
  | case3 => rfl

theorem foldl_insertBehind_perm (before : α → α → Bool) (items sorted : List α) :
    (items.foldl (fun sorted item => insertBehind before item sorted) sorted).Perm
      (items.reverse ++ sorted) := by
  induction items generalizing sorted with
  | nil => rfl
  | cons item rest ih =>
    refine (ih _).trans ?_
    simpa using (insertBehind_perm before item sorted).append_left rest.reverse

theorem stableSort_perm (before : α → α → Bool) (items : List α) :
    (stableSort before items).Perm items := by
  refine (List.reverse_perm _).trans ((foldl_insertBehind_perm before items []).trans ?_)
  rw [List.append_nil]
  exact List.reverse_perm items

end Tableflow
