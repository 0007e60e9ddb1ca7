/-! Sums of whole numbers. -/

namespace DiceTower.Number

def sum (ns : List Int) : Int := ns.foldr (fun n total => n + total) 0

theorem sum_nil : sum [] = 0 := rfl

theorem sum_cons (n : Int) (ns : List Int) : sum (n :: ns) = n + sum ns := rfl

theorem sum_append (ms ns : List Int) : sum (ms ++ ns) = sum ms + sum ns := by
  induction ms with
  | nil => rw [List.nil_append, sum_nil, Int.zero_add]
  | cons m ms ih => rw [List.cons_append, sum_cons, sum_cons, ih, Int.add_assoc]

theorem sum_eq_of_perm {ms ns : List Int} (h : ms.Perm ns) : sum ms = sum ns := by
  induction h with
  | nil => rfl
  | cons n _ ih => rw [sum_cons, sum_cons, ih]
  | swap m n ns => simp only [sum_cons]; omega
  | trans _ _ ih₁ ih₂ => exact ih₁.trans ih₂

end DiceTower.Number
