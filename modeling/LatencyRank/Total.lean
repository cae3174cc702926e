/-!
Totals over lists.
-/

namespace LatencyRank

def totalOf {α : Type} (measure : α → Nat) : List α → Nat
  | [] => 0
  | item :: rest => measure item + totalOf measure rest

section Lists

variable {α : Type} (measure : α → Nat)

theorem totalOf_append (front back : List α) :
    totalOf measure (front ++ back) = totalOf measure front + totalOf measure back := by
  induction front with
  | nil => simp only [List.nil_append, totalOf, Nat.zero_add]
  | cons item rest ih => simp only [List.cons_append, totalOf, ih, Nat.add_assoc]

theorem totalOf_set {items : List α} {place : Nat} {old : α} (here : items[place]? = some old)
    (new : α) :
    totalOf measure (items.set place new) + measure old = totalOf measure items + measure new := by
  induction items generalizing place with
  | nil => simp at here
  | cons first rest ih =>
    cases place with
    | zero =>
      simp only [List.getElem?_cons_zero, Option.some.injEq] at here
      subst here
      simp only [List.set_cons_zero, totalOf]
      omega
    | succ place =>
      have tail := ih (by simpa using here)
      simp only [List.set_cons_succ, totalOf]
      omega

theorem le_totalOf {item : α} {items : List α} (h : item ∈ items) :
    measure item ≤ totalOf measure items := by
  induction items with
  | nil => exact absurd h List.not_mem_nil
  | cons first rest ih =>
    rcases List.mem_cons.mp h with rfl | later
    · exact Nat.le_add_right _ _
    · exact Nat.le_trans (ih later) (Nat.le_add_left _ _)

end Lists

end LatencyRank
