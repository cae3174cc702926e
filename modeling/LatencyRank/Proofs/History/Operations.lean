import Mathlib
import LatencyRank.Proofs.History.Weight

/-!
A book from one operation to the next. An entry changes the record of its address and no other, a
clearing forgets them all; so a property that every entry about an address keeps, and that a blank
record has, holds of its record whatever else is done to the book.
-/

namespace LatencyRank

namespace HistoryBook

inductive Operation where
  | note (entry : Entry)
  | clear

def perform (b : HistoryBook) : Operation → HistoryBook
  | .note entry => b.note entry
  | .clear => b.clear

def after (b : HistoryBook) (operations : List Operation) : HistoryBook := operations.foldl perform b

/-- What was entered since the book was last cleared. -/
def sinceCleared (operations : List Operation) : List Entry :=
  operations.foldl (fun entries operation => match operation with
    | .note entry => entries ++ [entry]
    | .clear => []) []

def about (ip : String) (entries : List Entry) : List Entry := entries.filter fun entry => entry.ip = ip

section Runs

variable {b : HistoryBook} {ip : String}

theorem after_append (b : HistoryBook) (front back : List Operation) :
    b.after (front ++ back) = (b.after front).after back :=
  List.foldl_append

theorem cap_after (b : HistoryBook) (operations : List Operation) : (b.after operations).cap = b.cap := by
  induction operations generalizing b with
  | nil => rfl
  | cons operation rest ih =>
    refine (ih (b.perform operation)).trans ?_
    cases operation with
    | note entry => exact cap_note b entry
    | clear => rfl

theorem sinceCleared_note (front : List Operation) (entry : Entry) :
    sinceCleared (front ++ [.note entry]) = sinceCleared front ++ [entry] :=
  List.foldl_concat ..

theorem sinceCleared_clear (front : List Operation) : sinceCleared (front ++ [.clear]) = [] :=
  List.foldl_concat ..

theorem about_concat (ip : String) (entries : List Entry) (entry : Entry) :
    about ip (entries ++ [entry]) =
      if entry.ip = ip then about ip entries ++ [entry] else about ip entries := by
  unfold about
  rw [List.filter_append]
  split
  · rename_i same
    rw [List.filter_cons_of_pos (by simpa using same), List.filter_nil]
  · rename_i other
    rw [List.filter_cons_of_neg (by simpa using other), List.filter_nil, List.append_nil]

/-- What is known of a record before anything is entered about its address, and what every such entry
adds to it, is known of it whatever else is done to the book. -/
theorem record_after {P : List Entry → FailureRecord → Prop} (blank : P [] { ip })
    (step : ∀ (entries : List Entry) (entry : Entry) r, entry.ip = ip → P entries r →
      P (entries ++ [entry]) (entry.change b.cap r))
    (start : P [] (b.record ip)) (operations : List Operation) :
    P (about ip (sinceCleared operations)) ((b.after operations).record ip) := by
  -- on the end of the operations: the last one meets the book that the others lead to
  induction operations using List.reverseRecOn with
  | nil => exact start
  | append_singleton front operation ih =>
    rw [after_append]
    cases operation with
    | note entry =>
      change P _ (((b.after front).note entry).record ip)
      rw [sinceCleared_note, about_concat, record_note, cap_after]
      by_cases same : entry.ip = ip
      · rw [if_pos same, if_pos same.symm]
        exact step _ entry _ same ih
      · rw [if_neg same, if_neg fun asked => same asked.symm]
        exact ih
    | clear =>
      rw [sinceCleared_clear]
      exact blank

theorem record_after_of_mem {P : FailureRecord → Prop} {operation : Operation}
    {operations : List Operation} (blank : P { ip })
    (keeps : ∀ (entry : Entry) r, P r → P (entry.change b.cap r))
    (brings : ∀ b' : HistoryBook, b'.cap = b.cap → P ((b'.perform operation).record ip))
    (member : operation ∈ operations) : P ((b.after operations).record ip) := by
  obtain ⟨front, back, rfl⟩ := List.append_of_mem member
  have done : (b.after (front ++ [operation])).cap = b.cap := cap_after b _
  rw [List.append_cons, after_append]
  refine record_after (P := fun _ => P) blank (fun _ entry r _ kept => ?_) ?_ back
  · rw [done]
    exact keeps entry r kept
  · rw [after_append]
    exact brings (b.after front) (cap_after b front)

theorem find?_after (window : Int) (cap : Nat) (operations : List Operation) (ip : String) :
    ((inMemory window cap).after operations).records.find? ip =
      if about ip (sinceCleared operations) = [] then none
      else some (((inMemory window cap).after operations).record ip) := by
  induction operations using List.reverseRecOn with
  | nil => rfl
  | append_singleton front operation ih =>
    rw [after_append]
    cases operation with
    | note entry =>
      change (HistoryBook.note _ entry).records.find? ip = if _ then none else
        some ((HistoryBook.note _ entry).record ip)
      rw [find?_note, record_note, sinceCleared_note, about_concat]
      by_cases same : entry.ip = ip
      · subst same
        rw [if_pos rfl, if_pos rfl, if_pos rfl, if_neg (by simp)]
      · have other : ¬ip = entry.ip := fun asked => same asked.symm
        rw [if_neg other, if_neg other, if_neg same]
        exact ih
    | clear =>
      rw [sinceCleared_clear]
      rfl

end Runs

end HistoryBook

end LatencyRank
