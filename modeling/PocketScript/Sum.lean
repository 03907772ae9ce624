/-!
# Sums over lists

The sum of a quantity over the items of a list.
-/

namespace PocketScript

variable {α : Type}

/-- The sum of a quantity over a list. -/
def sumOver (amount : α → Nat) : List α → Nat
  | [] => 0
  | item :: rest => amount item + sumOver amount rest

@[simp]
theorem sumOver_nil (amount : α → Nat) : sumOver amount [] = 0 := rfl

@[simp]
theorem sumOver_cons (amount : α → Nat) (item : α) (rest : List α) :
    sumOver amount (item :: rest) = amount item + sumOver amount rest := rfl

@[simp]
theorem sumOver_append (amount : α → Nat) (left right : List α) :
    sumOver amount (left ++ right) = sumOver amount left + sumOver amount right := by
  induction left with
  | nil => simp
  | cons item rest ih => simp [ih, Nat.add_assoc]

end PocketScript
