import Mathlib
import LatencyRank.Schedule.Flights

/-!
Who is aboard. A flight is found by its key, so each operation is described by what it does to the
flight of one key; the flights of other keys stay as they are. From that follow the two relations
that the machines keep in step with their callers: who runs a key's work, and who awaits it.
-/

namespace LatencyRank.Flights

variable (f : Flights) (key : String) (caller : Nat)

section Lookup

theorem find?_revise (change : Flight → Flight) (keeps : ∀ flight, (change flight).key = flight.key)
    (other : String) :
    (f.revise key change).find? other =
      if other = key then (f.find? key).map change else f.find? other := by
  unfold revise find?
  induction f.aloft with
  | nil => simp
  | cons flight rest ih =>
      by_cases mine : flight.key = key
      · by_cases asked : other = key
        · subst asked
          simp [mine, keeps]
        · have missed : ¬key = other := fun h => asked h.symm
          simpa [mine, keeps, missed, asked] using ih
      · by_cases asked : other = key
        · subst asked
          simpa [mine] using ih
        · by_cases hit : flight.key = other
          · simp [asked, hit]
          · simpa [mine, asked, hit] using ih

def boarded (number : Nat) : Option Flight → Flight
  | none => { number, key, runner := some caller, waiting := [] }
  | some flight =>
    match flight.runner with
    | none => { flight with runner := some caller }
    | some _ => { flight with waiting := flight.waiting ++ [caller] }

theorem manned_boarded (number : Nat) (old : Option Flight) :
    (boarded key caller number old).runner ≠ none := by
  cases old with
  | none => simp [boarded]
  | some flight => cases manned : flight.runner <;> simp [boarded, manned]

theorem boarded_perm (number : Nat) (flight : Flight) :
    let after := boarded key caller number (some flight)
    (after.runner.toList ++ after.waiting).Perm (caller :: (flight.runner.toList ++ flight.waiting)) := by
  cases manned : flight.runner with
  | none => simp [boarded, manned]
  | some runner =>
      simp only [boarded, manned, Option.toList_some, List.singleton_append, ← List.cons_append]
      exact List.perm_append_singleton caller (runner :: flight.waiting)

theorem number_boarded (number : Nat) (flight : Flight) :
    (boarded key caller number (some flight)).number = flight.number := by
  cases manned : flight.runner <;> simp [boarded, manned]

theorem find?_join (other : String) :
    (f.join key caller).1.find? other =
      if other = key then some (boarded key caller f.next (f.find? key)) else f.find? other := by
  unfold join
  cases found : f.find? key with
  | none =>
      by_cases asked : other = key
      · subst asked
        have missed : f.aloft.find? (fun flight => decide (flight.key = other)) = none := found
        simp [find?, boarded, List.find?_append, missed]
      · have missed : ¬key = other := fun h => asked h.symm
        simp [find?, asked, List.find?_append, missed]
  | some flight =>
      cases manned : flight.runner with
      | none =>
          simp only [manned]
          rw [find?_revise f key (fun flight => { flight with runner := some caller }) (fun _ => rfl)]
          simp [found, boarded, manned]
      | some runner =>
          simp only [manned]
          rw [find?_revise f key (fun flight => { flight with waiting := flight.waiting ++ [caller] })
            (fun _ => rfl)]
          simp [found, boarded, manned]

theorem open_of_join {other : String} {flight : Flight}
    (found : (f.join key caller).1.find? other = some flight) :
    (other = key ∧ flight = boarded key caller f.next (f.find? key)) ∨
      (other ≠ key ∧ f.find? other = some flight) := by
  rw [find?_join] at found
  split at found
  · rename_i mine
    exact Or.inl ⟨mine, (Option.some.inj found).symm⟩
  · rename_i different
    exact Or.inr ⟨different, found⟩

theorem join_runs :
    (f.join key caller).2.runs = true ↔ (f.find? key).bind Flight.runner = none := by
  unfold join
  cases found : f.find? key with
  | none => simp
  | some flight => cases manned : flight.runner <;> simp [manned]

theorem join_flight :
    (f.join key caller).2.flight = (boarded key caller f.next (f.find? key)).number := by
  unfold join
  cases found : f.find? key with
  | none => rfl
  | some flight =>
      rw [number_boarded]
      cases manned : flight.runner <;> simp [manned]

theorem next_join :
    (f.join key caller).1.next = if f.find? key = none then f.next + 1 else f.next := by
  unfold join
  cases found : f.find? key with
  | none => simp
  | some flight => cases manned : flight.runner <;> simp [manned, revise]

theorem find?_land (other : String) :
    (f.land key).1.find? other = if other = key then none else f.find? other := by
  unfold land
  cases found : f.find? key with
  | none =>
      by_cases asked : other = key
      · subst asked
        simpa using found
      · simp [asked]
  | some flight =>
      by_cases asked : other = key
      · subst asked
        simp [find?]
      · simp only [find?, asked, ↓reduceIte, List.find?_filter]
        congr 1
        funext candidate
        by_cases hit : candidate.key = other
        · simp [hit, asked]
        · simp [hit]

theorem open_of_land {other : String} {flight : Flight}
    (found : (f.land key).1.find? other = some flight) :
    other ≠ key ∧ f.find? other = some flight := by
  rw [find?_land] at found
  split at found
  · cases found
  · rename_i different
    exact ⟨different, found⟩

theorem land_waiting : (f.land key).2 = ((f.find? key).map Flight.waiting).getD [] := by
  unfold land
  cases f.find? key <;> rfl

theorem next_land : (f.land key).1.next = f.next := by
  unfold land
  cases f.find? key <;> rfl

/-- A flight without one of its callers: the longest waiting takes the runner's place. -/
def without (flight : Flight) : Flight :=
  if flight.runner = some caller then
    { flight with runner := flight.waiting.head?, waiting := flight.waiting.tail }
  else { flight with waiting := flight.waiting.filter (· ≠ caller) }

theorem find?_leave (other : String) :
    (f.leave key caller).1.find? other =
      if other = key then (f.find? key).map (without caller) else f.find? other := by
  unfold leave
  cases found : f.find? key with
  | none =>
      by_cases asked : other = key
      · subst asked
        simpa using found
      · simp [asked]
  | some flight =>
      by_cases runs : flight.runner = some caller
      · simp only [runs, ↓reduceIte]
        rw [find?_revise f key (fun flight =>
          { flight with runner := flight.waiting.head?, waiting := flight.waiting.tail })
          (fun _ => rfl)]
        simp [found, without, runs]
      · simp only [runs, ↓reduceIte]
        rw [find?_revise f key (fun flight =>
          { flight with waiting := flight.waiting.filter (· ≠ caller) }) (fun _ => rfl)]
        simp [found, without, runs]

/-- A flight after a caller left is what was there before, with fewer that wait and perhaps another
runner, who waited. -/
theorem open_of_leave {other : String} {flight : Flight}
    (found : (f.leave key caller).1.find? other = some flight) :
    ∃ old, f.find? other = some old ∧ old.number = flight.number ∧
      flight.waiting.Sublist old.waiting ∧
      ∀ m, flight.runner = some m → old.runner = some m ∨ m ∈ old.waiting := by
  rw [find?_leave] at found
  split at found
  · rename_i asked
    subst asked
    obtain ⟨old, found', rfl⟩ := Option.map_eq_some_iff.mp found
    refine ⟨old, found', ?_⟩
    unfold without
    split
    · exact ⟨rfl, List.tail_sublist _, fun m head => Or.inr (List.mem_of_head? head)⟩
    · exact ⟨rfl, List.filter_sublist, fun m runner => Or.inl runner⟩
  · exact ⟨flight, found, rfl, List.Sublist.refl _, fun m runner => Or.inl runner⟩

theorem leave_successor :
    (f.leave key caller).2 =
      (f.find? key).bind fun flight =>
        if flight.runner = some caller then flight.waiting.head? else none := by
  unfold leave
  cases found : f.find? key with
  | none => rfl
  | some flight => by_cases runs : flight.runner = some caller <;> simp [runs]

theorem next_leave : (f.leave key caller).1.next = f.next := by
  unfold leave
  cases found : f.find? key with
  | none => rfl
  | some flight => by_cases runs : flight.runner = some caller <;> simp [runs, revise]

end Lookup

section Aboard

/-- The caller runs the work of the key, or is about to. -/
def Runs : Prop := ∃ flight, f.find? key = some flight ∧ flight.runner = some caller

def Awaits : Prop := ∃ flight, f.find? key = some flight ∧ caller ∈ flight.waiting

theorem runs_unique {f : Flights} {key : String} {m n : Nat} (left : f.Runs key m)
    (right : f.Runs key n) : m = n := by
  obtain ⟨flight, found, runner⟩ := left
  obtain ⟨other, found', runner'⟩ := right
  rw [found] at found'
  cases found'
  rw [runner] at runner'
  exact Option.some.inj runner'

theorem no_runner_iff :
    (f.find? key).bind Flight.runner = none ↔ ∀ n, ¬f.Runs key n := by
  constructor
  · rintro nobody n ⟨flight, found, runner⟩
    simp [found, runner] at nobody
  · intro nobody
    cases found : f.find? key with
    | none => rfl
    | some flight =>
        cases manned : flight.runner with
        | none => simpa using manned
        | some n => exact absurd ⟨flight, found, manned⟩ (nobody n)

theorem join_runs_iff : (f.join key caller).2.runs = true ↔ ∀ n, ¬f.Runs key n :=
  (join_runs f key caller).trans (no_runner_iff f key)

theorem runs_join (other : String) (n : Nat) :
    (f.join key caller).1.Runs other n ↔
      f.Runs other n ∨ (other = key ∧ n = caller ∧ (f.join key caller).2.runs = true) := by
  unfold Runs
  rw [join_runs]
  simp only [find?_join]
  by_cases asked : other = key
  · subst asked
    cases found : f.find? other with
    | none => simp [boarded, eq_comm]
    | some flight => cases manned : flight.runner <;> simp [boarded, manned, eq_comm]
  · simp [asked]

theorem awaits_join (other : String) (n : Nat) :
    (f.join key caller).1.Awaits other n ↔
      f.Awaits other n ∨ (other = key ∧ n = caller ∧ (f.join key caller).2.runs ≠ true) := by
  unfold Awaits
  rw [Ne, join_runs]
  simp only [find?_join]
  by_cases asked : other = key
  · subst asked
    cases found : f.find? other with
    | none => simp [boarded]
    | some flight => cases manned : flight.runner <;> simp [boarded, manned]
  · simp [asked]

theorem runs_land (other : String) (n : Nat) :
    (f.land key).1.Runs other n ↔ other ≠ key ∧ f.Runs other n := by
  unfold Runs
  simp only [find?_land]
  by_cases asked : other = key <;> simp [asked]

theorem awaits_land (other : String) (n : Nat) :
    (f.land key).1.Awaits other n ↔ other ≠ key ∧ f.Awaits other n := by
  unfold Awaits
  simp only [find?_land]
  by_cases asked : other = key <;> simp [asked]

theorem mem_land_waiting (n : Nat) : n ∈ (f.land key).2 ↔ f.Awaits key n := by
  unfold Awaits
  rw [land_waiting]
  cases f.find? key <;> simp

theorem awaits_of_heir {f : Flights} {key : String} {m n : Nat}
    (heir : (f.leave key n).2 = some m) : f.Runs key n ∧ f.Awaits key m := by
  rw [leave_successor] at heir
  obtain ⟨flight, found, head⟩ := Option.bind_eq_some_iff.mp heir
  split at head
  · rename_i runner
    exact ⟨⟨flight, found, runner⟩, flight, found, List.mem_of_head? head⟩
  · cases head

theorem runs_leave (other : String) (n : Nat) :
    (f.leave key caller).1.Runs other n ↔
      (other = key ∧ f.Runs key caller ∧ (f.leave key caller).2 = some n) ∨
        (f.Runs other n ∧ ¬(other = key ∧ n = caller)) := by
  unfold Runs
  rw [leave_successor]
  simp only [find?_leave]
  by_cases asked : other = key
  · subst asked
    cases found : f.find? other with
    | none => simp
    | some flight =>
        by_cases runs : flight.runner = some caller
        · simp only [Option.map_some, without, runs, ↓reduceIte, Option.some.injEq, true_and,
            Option.bind_some, exists_eq_left']
          constructor
          · exact fun head => Or.inl head
          · rintro (head | ⟨same, differs⟩)
            · exact head
            · exact absurd same.symm differs
        · simp only [Option.map_some, without, runs, ↓reduceIte, Option.some.injEq, true_and,
            exists_eq_left', false_and, false_or]
          constructor
          · intro mine
            exact ⟨mine, fun same => runs (same ▸ mine)⟩
          · exact fun both => both.1
  · simp [asked]

theorem awaits_leave (distinct : ∀ flight, f.find? key = some flight →
      (flight.runner.toList ++ flight.waiting).Nodup) (other : String) (n : Nat) :
    (f.leave key caller).1.Awaits other n ↔
      f.Awaits other n ∧ ¬(other = key ∧ (n = caller ∨ (f.leave key caller).2 = some n)) := by
  unfold Awaits
  rw [leave_successor]
  simp only [find?_leave]
  by_cases asked : other = key
  · subst asked
    cases found : f.find? other with
    | none => simp
    | some flight =>
        have apart := distinct flight found
        by_cases runs : flight.runner = some caller
        -- The runner leaves, and the first of those that wait runs instead of it.
        · rw [runs] at apart
          have absent : caller ∉ flight.waiting := by simpa using (List.nodup_cons.mp apart).1
          have single := (List.nodup_cons.mp apart).2
          simp only [Option.map_some, without, runs, ↓reduceIte, Option.some.injEq, true_and,
            Option.bind_some, exists_eq_left']
          cases shape : flight.waiting with
          | nil => simp
          | cons first rest =>
              rw [shape] at single absent
              have firstOnce := (List.nodup_cons.mp single).1
              simp only [List.tail_cons, List.mem_cons, List.head?_cons, Option.some.injEq]
              constructor
              · intro later
                refine ⟨Or.inr later, ?_⟩
                rintro (rfl | rfl)
                · exact absent (List.mem_cons_of_mem _ later)
                · exact firstOnce later
              · rintro ⟨rfl | later, others⟩
                · exact absurd (Or.inr rfl) others
                · exact later
        · simp [without, runs]
  · simp [asked]

end Aboard

section Others

variable {f : Flights} {key other : String} {caller m n : Nat}

theorem runs_join_of_ne (different : n ≠ caller) :
    (f.join key caller).1.Runs other n ↔ f.Runs other n := by
  rw [runs_join]
  exact ⟨fun runs => runs.resolve_right fun new => different new.2.1, Or.inl⟩

theorem awaits_join_of_ne (different : n ≠ caller) :
    (f.join key caller).1.Awaits other n ↔ f.Awaits other n := by
  rw [awaits_join]
  exact ⟨fun awaits => awaits.resolve_right fun new => different new.2.1, Or.inl⟩

theorem aboard_of_join
    (aboard : (f.join key caller).1.Runs other n ∨ (f.join key caller).1.Awaits other n) :
    (f.Runs other n ∨ f.Awaits other n) ∨ (other = key ∧ n = caller) := by
  rcases aboard with runs | awaits
  · rcases (runs_join _ _ _ _ _).mp runs with old | ⟨mine, same, -⟩
    · exact Or.inl (Or.inl old)
    · exact Or.inr ⟨mine, same⟩
  · rcases (awaits_join _ _ _ _ _).mp awaits with old | ⟨mine, same, -⟩
    · exact Or.inl (Or.inr old)
    · exact Or.inr ⟨mine, same⟩

theorem ashore_landed (f : Flights) (key : String) (n : Nat) :
    ¬(f.land key).1.Runs key n ∧ ¬(f.land key).1.Awaits key n :=
  ⟨fun runs => ((runs_land _ _ _ _).mp runs).1 rfl,
    fun awaits => ((awaits_land _ _ _ _).mp awaits).1 rfl⟩

theorem runs_land_of_ne (runs : f.Runs key n) (different : m ≠ n) :
    (f.land key).1.Runs other m ↔ f.Runs other m := by
  rw [runs_land]
  refine ⟨And.right, fun old => ⟨?_, old⟩⟩
  rintro rfl
  exact different (runs_unique old runs)

theorem awaits_land_of_not_mem (untold : m ∉ (f.land key).2) :
    (f.land key).1.Awaits other m ↔ f.Awaits other m := by
  rw [awaits_land]
  refine ⟨And.right, fun old => ⟨?_, old⟩⟩
  rintro rfl
  exact untold ((mem_land_waiting _ _ _).mpr old)

theorem aboard_of_land (aboard : (f.land key).1.Runs other n ∨ (f.land key).1.Awaits other n) :
    f.Runs other n ∨ f.Awaits other n :=
  aboard.imp (fun runs => ((runs_land _ _ _ _).mp runs).2)
    (fun awaits => ((awaits_land _ _ _ _).mp awaits).2)

end Others

end LatencyRank.Flights
