import Mathlib
import LatencyRank.Total

/-!
Items that are known by their places in a list. Giving the same change to several places changes
each of them once, however often it is named, if the change is one that can be repeated.
-/

namespace LatencyRank

variable {α : Type}

def modifyAll (change : α → α) (places : List Nat) (items : List α) : List α :=
  places.foldl (fun items place => items.modify place change) items

theorem length_modifyAll (change : α → α) (places : List Nat) (items : List α) :
    (modifyAll change places items).length = items.length := by
  unfold modifyAll
  induction places generalizing items with
  | nil => rfl
  | cons place rest ih => rw [List.foldl_cons, ih, List.length_modify]

theorem getElem?_modifyAll (change : α → α) (repeatable : ∀ item, change (change item) = change item)
    (places : List Nat) (items : List α) (m : Nat) :
    (modifyAll change places items)[m]? =
      if m ∈ places then items[m]?.map change else items[m]? := by
  unfold modifyAll
  induction places generalizing items with
  | nil => simp
  | cons place rest ih =>
      rw [List.foldl_cons, ih, List.getElem?_modify]
      by_cases here : place = m
      · subst here
        cases items[place]? <;> simp [repeatable]
      · have different : ¬m = place := fun same => here same.symm
        simp [here, different]

theorem modify_of_getElem? {items : List α} {place : Nat} {old : α}
    (here : items[place]? = some old) (change : α → α) :
    items.modify place change = items.set place (change old) := by
  apply List.ext_getElem?
  intro m
  rw [List.getElem?_modify, List.getElem?_set]
  by_cases same : place = m
  · subst same
    rw [if_pos rfl, if_pos (List.getElem?_eq_some_iff.mp here).1, here]
    simp
  · simp [same]

theorem getElem?_modified {items : List α} {place m : Nat} {change : α → α} {item : α}
    (known : (items.modify place change)[m]? = some item) :
    ∃ old, items[m]? = some old ∧ ((place = m ∧ item = change old) ∨ (place ≠ m ∧ item = old)) := by
  rw [List.getElem?_modify] at known
  obtain ⟨old, before, rfl⟩ := Option.map_eq_some_iff.mp known
  refine ⟨old, before, ?_⟩
  by_cases here : place = m
  · exact Or.inl ⟨here, if_pos here⟩
  · exact Or.inr ⟨here, if_neg here⟩

theorem getElem?_of_set {items : List α} {place m : Nat} {new item : α}
    (known : (items.set place new)[m]? = some item) :
    (m = place ∧ item = new) ∨ (m ≠ place ∧ items[m]? = some item) := by
  rw [List.getElem?_set] at known
  by_cases here : place = m
  · rw [if_pos here] at known
    split at known
    · exact Or.inl ⟨here.symm, (Option.some.inj known).symm⟩
    · cases known
  · rw [if_neg here] at known
    exact Or.inr ⟨Ne.symm here, known⟩

theorem map_modify_of_same {β : Type} {view : α → β} (change : α → α)
    (same : ∀ item, view (change item) = view item) (items : List α) (place : Nat) :
    (items.modify place change).map view = items.map view := by
  apply List.ext_getElem?
  intro m
  rw [List.getElem?_map, List.getElem?_map, List.getElem?_modify]
  by_cases here : place = m
  · cases items[m]? <;> simp [here, same]
  · cases items[m]? <;> simp [here]

theorem map_modifyAll_of_same {β : Type} {view : α → β} (change : α → α)
    (same : ∀ item, view (change item) = view item) (places : List Nat) (items : List α) :
    (modifyAll change places items).map view = items.map view := by
  unfold modifyAll
  induction places generalizing items with
  | nil => rfl
  | cons place rest ih => rw [List.foldl_cons, ih, map_modify_of_same change same]

theorem modify_split {items : List α} {place : Nat} {old : α} (here : items[place]? = some old) :
    ∃ front back, items = front ++ old :: back ∧
      ∀ change, items.modify place change = front ++ change old :: back := by
  obtain ⟨inside, mine⟩ := List.getElem?_eq_some_iff.mp here
  have changed (change : α → α) :
      items.modify place change = items.take place ++ change old :: items.drop (place + 1) := by
    rw [List.modify_eq_take_cons_drop inside, mine]
  have same : items.modify place id = items := List.modify_id place items
  exact ⟨items.take place, items.drop (place + 1), same.symm.trans (changed id), changed⟩

theorem filterMap_of_map {β : Type} {view : α → Option β} {items items' : List α}
    (same : items'.map view = items.map view) : items'.filterMap view = items.filterMap view := by
  have whole (items : List α) : items.filterMap view = (items.map view).filterMap id := by
    rw [List.filterMap_map]
    rfl
  rw [whole, whole, same]

theorem totalOf_eq_sum (measure : α → Nat) (items : List α) :
    totalOf measure items = (items.map measure).sum := by
  induction items with
  | nil => rfl
  | cons item rest ih => rw [totalOf, ih, List.map_cons, List.sum_cons]

theorem totalOf_eq_mul {measure : α → Nat} {items : List α} {cost : Nat}
    (same : ∀ item ∈ items, measure item = cost) : totalOf measure items = cost * items.length := by
  rw [totalOf_eq_sum, List.sum_eq_card_nsmul _ cost (List.forall_mem_map.mpr same), List.length_map,
    smul_eq_mul, Nat.mul_comm]

theorem totalOf_eq_zero {measure : α → Nat} {items : List α}
    (zero : ∀ item ∈ items, measure item = 0) : totalOf measure items = 0 :=
  (totalOf_eq_mul zero).trans (Nat.zero_mul _)

theorem totalOf_le_mul {measure measure' : α → Nat} {items : List α} {factor : Nat}
    (less : ∀ item ∈ items, measure item ≤ factor * measure' item) :
    totalOf measure items ≤ factor * totalOf measure' items := by
  rw [totalOf_eq_sum, totalOf_eq_sum, ← List.sum_map_mul_left]
  exact List.sum_le_sum less

theorem totalOf_modify (measure : α → Nat) {items : List α} {place : Nat} {old : α}
    (here : items[place]? = some old) (change : α → α) :
    totalOf measure (items.modify place change) + measure old =
      totalOf measure items + measure (change old) := by
  rw [modify_of_getElem? here]
  exact totalOf_set measure here (change old)

/-- Changes that leave the measures leave the total. -/
theorem totalOf_modifyAll_of_same {measure : α → Nat} (change : α → α)
    (repeatable : ∀ item, change (change item) = change item) {places : List Nat} {items : List α}
    (same : ∀ place ∈ places, ∀ item, items[place]? = some item → measure (change item) = measure item) :
    totalOf measure (modifyAll change places items) = totalOf measure items := by
  unfold modifyAll
  induction places generalizing items with
  | nil => rfl
  | cons place rest ih =>
      rw [List.foldl_cons, ih]
      · cases here : items[place]? with
        | none => rw [List.modify_eq_self (List.getElem?_eq_none_iff.mp here)]
        | some old =>
            have total := totalOf_modify measure here change
            rw [same place List.mem_cons_self old here] at total
            omega
      · intro other member item at'
        rw [List.getElem?_modify] at at'
        obtain ⟨before, known, rfl⟩ := Option.map_eq_some_iff.mp at'
        have kept := same other (List.mem_cons_of_mem _ member) before known
        by_cases here : place = other
        · simp only [here, ↓reduceIte, repeatable]
        · simpa only [here, ↓reduceIte, id_eq] using kept

/-- Changes that each lower the measure of another item lower the total as often. -/
theorem totalOf_modifyAll_le {measure : α → Nat} {change : α → α} {cost : Nat} {places : List Nat}
    {items : List α} (apart : places.Nodup)
    (less : ∀ place ∈ places, ∃ item, items[place]? = some item ∧
      measure (change item) + cost ≤ measure item) :
    totalOf measure (modifyAll change places items) + cost * places.length ≤ totalOf measure items := by
  unfold modifyAll
  induction places generalizing items with
  | nil => exact Nat.le_refl _
  | cons place rest ih =>
      obtain ⟨absent, apart'⟩ := List.nodup_cons.mp apart
      obtain ⟨old, here, lower⟩ := less place List.mem_cons_self
      have total := totalOf_modify measure here change
      have tail := @ih (items.modify place change) apart' (by
        intro other member
        obtain ⟨item, known, lower⟩ := less other (List.mem_cons_of_mem _ member)
        have different : place ≠ other := fun same => absent (same ▸ member)
        exact ⟨item, by rw [List.getElem?_modify_ne _ _ different, known], lower⟩)
      rw [List.foldl_cons, List.length_cons, Nat.mul_succ]
      omega

theorem mem_modify {items : List α} {place : Nat} {change : α → α} {item : α}
    (member : item ∈ items.modify place change) : ∃ old ∈ items, item = old ∨ item = change old := by
  obtain ⟨m, inside, rfl⟩ := List.mem_iff_getElem.mp member
  rw [List.getElem_modify]
  rw [List.length_modify] at inside
  split
  · exact ⟨_, List.getElem_mem inside, Or.inr rfl⟩
  · exact ⟨_, List.getElem_mem inside, Or.inl rfl⟩

end LatencyRank
