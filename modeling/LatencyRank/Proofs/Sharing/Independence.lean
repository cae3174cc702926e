import Mathlib
import LatencyRank.Proofs.Sharing.Asides

/-!
Keys do not show in one another. The callers of a key get the same outcomes at the same times whatever
other callers there are, the log says the same of them, and the key is in flight at the same times: the
machine that has these callers alone mirrors every machine that has them among others. Since others may
keep the full machine busy longer, the clock of the mirror can be late, though never while one of its
own callers is due.
-/

namespace LatencyRank.Sharing

section Limits

def isOver (s : Sharing) (time : Nat) : Bool :=
  s.agenda.ready.isEmpty && s.agenda.nextWaking.all fun next => decide (time < next)

/-- A step that does not lead past a time, if there is a limit. -/
def stepWithin? (limit : Option Nat) (s : Sharing) : Option Sharing :=
  if limit.any s.isOver then none else s.step?

def runWithin (limit : Option Nat) : Nat → Sharing → Sharing
  | 0, s => s
  | fuel + 1, s =>
    match s.stepWithin? limit with
    | some s => runWithin limit fuel s
    | none => s

/-- How things stand when all that is due by a time is over. -/
def asOf (time : Nat) (s : Sharing) : Sharing := runWithin (some time) s.work s

variable {limit : Option Nat} {s s' : Sharing}

theorem step?_of_within (stepped : s.stepWithin? limit = some s') : s.step? = some s' := by
  unfold stepWithin? at stepped
  split at stepped
  · cases stepped
  · exact stepped

theorem runWithin_of_step (stepped : s.stepWithin? limit = some s') (fuel : Nat) :
    s.runWithin limit (fuel + 1) = s'.runWithin limit fuel := by
  rw [runWithin, stepped]

theorem runWithin_of_settled (settled : s.stepWithin? limit = none) (fuel : Nat) :
    s.runWithin limit fuel = s := by
  cases fuel with
  | zero => rfl
  | succ fuel => rw [runWithin, settled]

theorem runWithin_add (s : Sharing) (m n : Nat) :
    s.runWithin limit (m + n) = (s.runWithin limit m).runWithin limit n := by
  induction m generalizing s with
  | zero =>
    rw [Nat.zero_add]
    rfl
  | succ m ih =>
    rw [Nat.succ_add]
    cases stepped : s.stepWithin? limit with
    | none => simp only [runWithin_of_settled stepped]
    | some s' => rw [runWithin_of_step stepped, runWithin_of_step stepped, ih]

theorem runWithin_settles (coherent : Coherent s) (fuel : Nat) (enough : s.work ≤ fuel) :
    (s.runWithin limit fuel).stepWithin? limit = none := by
  induction fuel generalizing s with
  | zero =>
    unfold runWithin
    cases stepped : s.stepWithin? limit with
    | none => rfl
    | some s' =>
      have less := work_step coherent (step?_of_within stepped)
      omega
  | succ fuel ih =>
    unfold runWithin
    cases stepped : s.stepWithin? limit with
    | none => exact stepped
    | some s' =>
      have less := work_step coherent (step?_of_within stepped)
      exact ih (coherent_step coherent (step?_of_within stepped)) (by omega)

theorem runWithin_none (fuel : Nat) (s : Sharing) : s.runWithin none fuel = s.runFor fuel := by
  induction fuel generalizing s with
  | zero => rfl
  | succ fuel ih =>
    have same : s.stepWithin? none = s.step? := rfl
    rw [runWithin, runFor, same]
    cases s.step? with
    | none => rfl
    | some s' => exact ih s'

theorem runFor_of_within (limit : Option Nat) (fuel : Nat) (s : Sharing) :
    ∃ steps, s.runWithin limit fuel = s.runFor steps := by
  induction fuel generalizing s with
  | zero => exact ⟨0, rfl⟩
  | succ fuel ih =>
    unfold runWithin
    cases stepped : s.stepWithin? limit with
    | none => exact ⟨0, rfl⟩
    | some s' =>
      obtain ⟨steps, same⟩ := ih s'
      exact ⟨steps + 1, same.trans (runFor_of_step (step?_of_within stepped) steps).symm⟩

end Limits

/-- The mirror shows the machine, but its clock may be late while none of its callers is due. -/
structure Shadows (key : String) (place : Nat → Option Nat) (s o : Sharing) : Prop where
  mirrors : Mirrors key place s { o with agenda := { o.agenda with now := s.now } }
  late : o.now ≤ s.now
  punctual : o.agenda.ready ≠ [] → o.now = s.now

section Steps

variable {key : String} {place : Nat → Option Nat} {s s' o : Sharing} {limit : Option Nat}

theorem Mirrors.shadows (mirrors : Mirrors key place s o) : Shadows key place s o := by
  have now := mirrors.now
  refine ⟨?_, Nat.le_of_eq now, fun _ => now⟩
  rw [← now]
  exact mirrors

theorem Shadows.ready (shadows : Shadows key place s o) :
    o.agenda.ready = s.agenda.ready.filterMap (Alarm.renumber place) :=
  congrArg Agenda.ready shadows.mirrors.agenda

theorem Shadows.sleeping (shadows : Shadows key place s o) :
    o.agenda.sleeping = s.agenda.sleeping.filterMap fun waking =>
      (waking.2.renumber place).map (waking.1, ·) :=
  congrArg Agenda.sleeping shadows.mirrors.agenda

theorem Shadows.beside (shadows : Shadows key place s o) (beside : Beside key place s s') :
    Shadows key place s' o := by
  have now := beside.now
  obtain ⟨mirrors, late, punctual⟩ := shadows
  refine ⟨?_, now ▸ late, now ▸ punctual⟩
  rw [now]
  exact {
    placing := beside.callers.symm ▸ mirrors.placing
    stages := fun n m at' => (mirrors.stages n m at').trans (beside.stages n m at').symm
    crew := by
      rw [beside.flight]
      exact mirrors.crew
    log := mirrors.log.trans beside.log.symm
    agenda := mirrors.agenda.trans beside.agenda.symm }

theorem Shadows.whole (shadows : Shadows key place s o) (due : o.agenda.ready ≠ []) :
    Mirrors key place s o := by
  have mirrors := shadows.mirrors
  rw [← shadows.punctual due] at mirrors
  exact mirrors

theorem Shadows.turn (shadows : Shadows key place s o) (coherent : Coherent s)
    (orderly : s.agenda.Orderly) {alarm : Alarm} {agenda : Agenda Alarm}
    (popped : s.agenda.pop? = some (alarm, agenda)) :
    Shadows key place (Sharing.handle { s with agenda } alarm) o ∨
      ∃ image rest, o.agenda.pop? = some (image, rest) ∧
        Shadows key place (Sharing.handle { s with agenda } alarm)
          (Sharing.handle { o with agenda := rest } image) := by
  have placing := shadows.mirrors.placing
  cases seen : alarm.renumber place with
  | none =>
    have off : Beside key place s { s with agenda } :=
      ⟨rfl, fun _ _ _ => rfl, rfl, rfl, Agenda.excerpt_pop_of_none popped seen⟩
    exact .inl (shadows.beside (off.trans (beside_handle coherent placing popped seen)))
  | some image =>
    have popped' := Agenda.pop?_excerpt popped seen
    have due : o.agenda.ready ≠ [] := by
      obtain ⟨shape, -, -⟩ := Agenda.pop?_eq_some popped
      rw [shadows.ready, shape, List.filterMap_cons_some seen]
      exact List.cons_ne_nil _ _
    have mirrors := shadows.whole due
    have off : Mirrors key place { s with agenda }
        { o with agenda := agenda.excerpt (Alarm.renumber place) } :=
      ⟨placing, mirrors.stages, mirrors.crew, mirrors.log, rfl⟩
    rw [← mirrors.agenda] at popped'
    exact .inr ⟨image, _, popped', (off.handle (orderly.pop popped) seen).shadows⟩

theorem Shadows.tick (shadows : Shadows key place s o) (orderly : s.agenda.Orderly)
    (idle : s.agenda.ready = []) {time : Nat} {alarm : Alarm} {rest : List (Nat × Alarm)}
    (shape : s.agenda.sleeping = (time, alarm) :: rest) {later : Agenda Alarm}
    (ticked : s.agenda.tick? = some later) :
    Shadows key place { s with agenda := later } o ∨
      ∃ image later', o.agenda.sleeping.head? = some (time, image) ∧
        o.agenda.tick? = some later' ∧
        Shadows key place { s with agenda := later } { o with agenda := later' } := by
  have mirrors := shadows.mirrors
  have tells := mirrors.placing.tells
  rw [Agenda.tick?_of_sleeping shape] at ticked
  cases ticked
  cases seen : alarm.renumber place with
  | none =>
    have excerpt := Agenda.excerpt_tick_of_none tells shape seen
    refine .inl ⟨?_, ?_, fun due => ?_⟩
    · refine ⟨mirrors.placing, mirrors.stages, mirrors.crew, mirrors.log, ?_⟩
      rw [excerpt, ← mirrors.agenda, Sharing.now, Agenda.now_wake]
    · have late := shadows.late
      simp only [Sharing.now, Agenda.now_wake] at late ⊢
      exact late.trans (Nat.le_max_left _ _)
    · rw [shadows.ready, idle] at due
      exact absurd rfl due
  | some image =>
    have own : o.agenda = { s.agenda.excerpt (Alarm.renumber place) with now := o.now } := by
      rw [← mirrors.agenda]
      rfl
    have ticked := Agenda.tick?_excerpt tells orderly shape seen shadows.late
    rw [← own] at ticked
    refine .inr ⟨image, _, ?_, ticked, Mirrors.shadows ?_⟩
    · rw [shadows.sleeping, shape, List.filterMap_cons_some (by rw [seen]; rfl)]
      rfl
    · exact ⟨mirrors.placing, mirrors.stages, mirrors.crew, mirrors.log, rfl⟩

theorem stepWithin?_of_pop {alarm : Alarm} {agenda : Agenda Alarm} (limit : Option Nat)
    (popped : s.agenda.pop? = some (alarm, agenda)) :
    s.stepWithin? limit = some (Sharing.handle { s with agenda } alarm) := by
  have busy (time : Nat) : s.isOver time = false := by
    obtain ⟨shape, -, -⟩ := Agenda.pop?_eq_some popped
    rw [isOver, shape]
    rfl
  cases limit <;> simp [stepWithin?, busy, step_of_pop popped]

theorem stepWithin?_of_tick {time : Nat} {alarm : Alarm} {later : Agenda Alarm} (limit : Option Nat)
    (idle : s.agenda.ready = []) (next : s.agenda.sleeping.head? = some (time, alarm))
    (ticked : s.agenda.tick? = some later) :
    s.stepWithin? limit =
      if limit.any fun last => decide (last < time) then none else some { s with agenda := later } := by
  have past (last : Nat) : s.isOver last = decide (last < time) := by
    rw [isOver, Agenda.nextWaking, next, idle]
    rfl
  have stepped : s.step? = some { s with agenda := later } := by
    rw [step?, Agenda.pop?_eq_none.mpr idle, ticked]
    rfl
  cases limit <;> simp [stepWithin?, past, stepped]

theorem stepWithin?_of_idle (limit : Option Nat) (idle : s.agenda.ready = [])
    (nobody : s.agenda.sleeping = []) : s.stepWithin? limit = none := by
  have stepped : s.step? = none := by
    rw [step?, Agenda.pop?_eq_none.mpr idle, Agenda.tick?_eq_none.mpr nobody]
    rfl
  rw [stepWithin?, stepped, ite_self]

theorem within_cases (stepped : s.stepWithin? limit = some s') :
    (∃ alarm agenda, s.agenda.pop? = some (alarm, agenda) ∧
      s' = Sharing.handle { s with agenda } alarm) ∨
    ∃ time alarm rest later, s.agenda.ready = [] ∧ s.agenda.sleeping = (time, alarm) :: rest ∧
      s.agenda.tick? = some later ∧ (¬limit.any fun last => decide (last < time)) ∧
      s' = { s with agenda := later } := by
  rcases step_cases (step?_of_within stepped) with ⟨later, idle, ticked, rfl⟩ | turn
  · obtain ⟨time, alarm, rest, shape, -⟩ := Agenda.tick?_eq_some ticked
    rw [stepWithin?_of_tick limit idle (by rw [shape]; rfl) ticked] at stepped
    refine Or.inr ⟨time, alarm, rest, later, idle, shape, ticked, fun past => ?_, rfl⟩
    rw [if_pos past] at stepped
    cases stepped
  · exact Or.inl turn

/-- A step of the machine is mirrored by none or by one of the mirror. -/
theorem Shadows.step (shadows : Shadows key place s o) (coherent : Coherent s)
    (orderly : s.agenda.Orderly) (stepped : s.stepWithin? limit = some s') :
    Shadows key place s' o ∨ ∃ o', o.stepWithin? limit = some o' ∧ Shadows key place s' o' := by
  rcases within_cases stepped with
    ⟨alarm, agenda, popped, rfl⟩ | ⟨time, alarm, rest, later, idle, shape, ticked, within, rfl⟩
  · rcases shadows.turn coherent orderly popped with still | ⟨image, rest, popped', moved⟩
    · exact .inl still
    · exact .inr ⟨_, stepWithin?_of_pop limit popped', moved⟩
  · rcases shadows.tick orderly idle shape ticked with still | ⟨image, later', next, ticked', moved⟩
    · exact .inl still
    · have idle' : o.agenda.ready = [] := by
        rw [shadows.ready, idle]
        rfl
      refine .inr ⟨_, ?_, moved⟩
      rw [stepWithin?_of_tick limit idle' next ticked', if_neg within]

/-- Where the machine rests, the mirror does: whatever sleeps in the mirror sleeps in the machine. -/
theorem Shadows.settled (shadows : Shadows key place s o) (orderly : s.agenda.Orderly)
    (settled : s.stepWithin? limit = none) : o.stepWithin? limit = none := by
  cases popped : s.agenda.pop? with
  | some next =>
    rw [stepWithin?_of_pop limit popped] at settled
    cases settled
  | none =>
    have idle := Agenda.pop?_eq_none.mp popped
    have idle' : o.agenda.ready = [] := by
      rw [shadows.ready, idle]
      rfl
    have asleep := shadows.sleeping
    cases shape' : o.agenda.sleeping with
    | nil => exact stepWithin?_of_idle limit idle' shape'
    | cons waking' rest' =>
      obtain ⟨time', image⟩ := waking'
      -- somebody sleeps, so the first of all sleepers wakes no later, yet past the limit
      have member : (time', image) ∈ o.agenda.sleeping := shape' ▸ List.mem_cons_self
      rw [asleep] at member
      obtain ⟨source, listed, same⟩ := List.mem_filterMap.mp member
      obtain ⟨_, -, same⟩ := Option.map_eq_some_iff.mp same
      have first : time' = source.1 := (congrArg Prod.fst same).symm
      cases shape : s.agenda.sleeping with
      | nil =>
        rw [shape] at listed
        cases listed
      | cons waking rest =>
        have sorted := orderly.sorted
        rw [shape] at sorted listed
        have le : waking.1 ≤ time' := by
          rw [first]
          rcases List.mem_cons.mp listed with rfl | listed
          · exact Nat.le_refl _
          · exact (List.pairwise_cons.mp sorted).1 source listed
        rw [stepWithin?_of_tick limit idle (by rw [shape]; rfl) (Agenda.tick?_of_sleeping shape)] at settled
        rw [stepWithin?_of_tick limit idle' (by rw [shape']; rfl) (Agenda.tick?_of_sleeping shape')]
        cases limit with
        | none => cases settled
        | some last =>
          have past : last < waking.1 := by simpa using settled
          have past' : last < time' := past.trans_le le
          simp [past']

/-- The run of the machine within a limit is mirrored by the run of the mirror within it. -/
theorem Shadows.run (shadows : Shadows key place s o) (coherent : Coherent s)
    (orderly : s.agenda.Orderly) (limit : Option Nat) (fuel : Nat) :
    ∃ steps, Shadows key place (s.runWithin limit fuel) (o.runWithin limit steps) := by
  induction fuel generalizing s o with
  | zero => exact ⟨0, shadows⟩
  | succ fuel ih =>
    cases stepped : s.stepWithin? limit with
    | none =>
      rw [runWithin_of_settled stepped]
      exact ⟨0, shadows⟩
    | some s' =>
      rw [runWithin_of_step stepped]
      have coherent' := coherent_step coherent (step?_of_within stepped)
      have orderly' := orderly_step orderly (step?_of_within stepped)
      obtain still | ⟨o', stepped', moved⟩ := shadows.step coherent orderly stepped
      · exact ih still coherent' orderly'
      · obtain ⟨steps, mirrored⟩ := ih moved coherent' orderly'
        exact ⟨steps + 1, (runWithin_of_step stepped' steps).symm ▸ mirrored⟩

theorem Shadows.rest (shadows : Shadows key place s o) (coherent : Coherent s) (coherent' : Coherent o)
    (orderly : s.agenda.Orderly) (limit : Option Nat) :
    Shadows key place (s.runWithin limit s.work) (o.runWithin limit o.work) := by
  obtain ⟨steps, mirrored⟩ := shadows.run coherent orderly limit s.work
  have orderly' : (s.runWithin limit s.work).agenda.Orderly := by
    obtain ⟨taken, same⟩ := runFor_of_within limit s.work s
    rw [same]
    exact runFor_induction (motive := fun s => s.agenda.Orderly)
      (fun orderly stepped => orderly_step orderly stepped) taken orderly
  have settled := mirrored.settled orderly' (runWithin_settles coherent _ (Nat.le_refl _))
  have settled' : (o.runWithin limit o.work).stepWithin? limit = none :=
    runWithin_settles coherent' _ (Nat.le_refl _)
  -- both runs of the mirror have come to where it rests, which is one place
  have same : o.runWithin limit steps = o.runWithin limit o.work := by
    rw [← runWithin_of_settled settled o.work, ← runWithin_add, Nat.add_comm, runWithin_add,
      runWithin_of_settled settled']
  exact same ▸ mirrored

end Steps

section Instants

variable {s : Sharing}

theorem now_stepWithin {s' : Sharing} (coherent : Coherent s) {last : Nat} (early : s.now ≤ last)
    (stepped : s.stepWithin? (some last) = some s') : s'.now ≤ last := by
  rcases within_cases stepped with
    ⟨alarm, agenda, popped, rfl⟩ | ⟨time, alarm, rest, later, idle, shape, ticked, within, rfl⟩
  · obtain ⟨-, -, still⟩ := Agenda.pop?_eq_some popped
    rw [(follows_handle coherent popped).now]
    exact (Nat.le_of_eq still).trans early
  · have due : time ≤ last := by simpa using within
    rw [Agenda.tick?_of_sleeping shape] at ticked
    cases ticked
    simp only [Sharing.now, Agenda.now_wake] at early ⊢
    exact max_le early due

/-- What stands as of a time is a state of the run, no later than that, and nothing else is due by then. -/
theorem asOf_spec (coherent : Coherent s) {time : Nat} (early : s.now ≤ time) :
    (∃ steps, s.asOf time = s.runFor steps) ∧ (s.asOf time).now ≤ time ∧
      (s.asOf time).isOver time = true := by
  refine ⟨runFor_of_within _ _ s, ?_, ?_⟩
  · unfold asOf
    generalize s.work = fuel
    induction fuel generalizing s with
    | zero => exact early
    | succ fuel ih =>
      unfold runWithin
      cases stepped : s.stepWithin? (some time) with
      | none => exact early
      | some s' =>
        exact ih (coherent_step coherent (step?_of_within stepped)) (now_stepWithin coherent early stepped)
  · have settled : (s.asOf time).stepWithin? (some time) = none :=
      runWithin_settles coherent _ (Nat.le_refl _)
    unfold stepWithin? at settled
    split at settled
    · assumption
    · obtain ⟨idle, nobody⟩ := idle_of_settled settled
      rw [isOver, Agenda.nextWaking, idle, nobody]
      rfl

end Instants

section Places

variable (key : String) (callers : List Caller)

def callersOf (key : String) (callers : List Caller) : List Caller :=
  callers.filter fun caller => caller.key = key

/-- The place of a caller among the callers of its key; callers of other keys have none. -/
def placeOf (key : String) (callers : List Caller) (n : Nat) : Option Nat :=
  callers[n]?.bind fun caller =>
    if caller.key = key then some (callersOf key (callers.take n)).length else none

variable {key callers} {n m : Nat} {caller : Caller}

theorem placeOf_eq_some : placeOf key callers n = some m ↔
    ∃ caller, callers[n]? = some caller ∧ caller.key = key ∧
      m = (callersOf key (callers.take n)).length := by
  unfold placeOf
  rw [Option.bind_eq_some_iff]
  refine exists_congr fun caller => and_congr_right fun _ => ?_
  split
  · rename_i mine
    simp [mine, eq_comm]
  · rename_i other
    simp [other]

theorem getElem?_callersOf (known : callers[n]? = some caller) (mine : caller.key = key) :
    (callersOf key callers)[(callersOf key (callers.take n)).length]? = some caller := by
  obtain ⟨inside, here⟩ := List.getElem?_eq_some_iff.mp known
  have parts : callersOf key callers =
      callersOf key (callers.take n) ++ caller :: callersOf key (callers.drop (n + 1)) := by
    conv_lhs => rw [← List.take_append_drop n callers, List.drop_eq_getElem_cons inside, here]
    rw [callersOf, List.filter_append, List.filter_cons_of_pos (by simpa using mine)]
    rfl
  rw [parts]
  exact List.getElem?_append_right (Nat.le_refl _) |>.trans (by simp)

theorem place_lt {n' : Nat} (known : callers[n]? = some caller) (mine : caller.key = key)
    (later : n < n') :
    (callersOf key (callers.take n)).length < (callersOf key (callers.take n')).length := by
  have known' : (callers.take n')[n]? = some caller := by rwa [List.getElem?_take_of_lt later]
  have here := getElem?_callersOf known' mine
  rw [List.take_take, Nat.min_eq_left (Nat.le_of_lt later)] at here
  exact (List.getElem?_eq_some_iff.mp here).1

theorem placing_placeOf (key : String) (callers : List Caller) :
    Placing key callers (callersOf key callers) (placeOf key callers) where
  caller := by
    intro n m at'
    obtain ⟨caller, known, mine, rfl⟩ := placeOf_eq_some.mp at'
    exact ⟨caller, known, getElem?_callersOf known mine, mine⟩
  mine := fun n caller known mine => ⟨_, placeOf_eq_some.mpr ⟨caller, known, mine, rfl⟩⟩
  apart := by
    intro n n' m at' at''
    obtain ⟨caller, known, mine, rfl⟩ := placeOf_eq_some.mp at'
    obtain ⟨caller', known', mine', same⟩ := placeOf_eq_some.mp at''
    rcases Nat.lt_trichotomy n n' with less | same' | less
    · exact absurd same (Nat.ne_of_lt (place_lt known mine less))
    · exact same'
    · exact absurd same.symm (Nat.ne_of_lt (place_lt known' mine' less))

theorem placeOf_concat_of_lt (last : Caller) (inside : n < callers.length) :
    placeOf key (callers ++ [last]) n = placeOf key callers n := by
  rw [placeOf, placeOf, List.getElem?_append_left inside, List.take_append_of_le_length
    (Nat.le_of_lt inside)]

theorem placeOf_concat (callers : List Caller) (last : Caller) :
    placeOf key (callers ++ [last]) callers.length =
      if last.key = key then some (callersOf key callers).length else none := by
  rw [placeOf, List.getElem?_concat_length, List.take_left]
  rfl

theorem filterMap_mapIdx_callersOf {β γ : Type} {list : Nat → Caller → β} {look : β → Option γ}
    {list' : Nat → Caller → Option γ}
    (shown : ∀ n caller, callers[n]? = some caller →
      look (list n caller) = (placeOf key callers n).bind (list' · caller)) :
    (callers.mapIdx list).filterMap look = ((callersOf key callers).mapIdx list').filterMap id := by
  induction callers using List.reverseRecOn with
  | nil => rfl
  | append_singleton callers last ih =>
    have front := ih fun n caller known => by
      obtain ⟨inside, -⟩ := List.getElem?_eq_some_iff.mp known
      rw [← placeOf_concat_of_lt last inside]
      exact shown n caller (by rwa [List.getElem?_append_left inside])
    have back := shown callers.length last (List.getElem?_concat_length ..)
    rw [placeOf_concat] at back
    rw [List.mapIdx_concat, List.filterMap_append, front]
    by_cases mine : last.key = key
    · have own : callersOf key (callers ++ [last]) = callersOf key callers ++ [last] := by
        rw [callersOf, List.filter_append, List.filter_cons_of_pos (by simpa using mine)]
        rfl
      rw [if_pos mine, Option.bind_some] at back
      rw [own, List.mapIdx_concat, List.filterMap_append, List.filterMap_cons, List.filterMap_cons, back]
      rfl
    · have own : callersOf key (callers ++ [last]) = callersOf key callers := by
        rw [callersOf, List.filter_append, List.filter_cons_of_neg (by simpa using mine)]
        exact List.append_nil _
      rw [if_neg mine, Option.bind_none] at back
      rw [own, List.filterMap_cons_none back, List.filterMap_nil, List.append_nil]

end Places

section Start

variable (key : String) (callers : List Caller) (countAt : List Nat)

/-- Of the alarms set at the start a key's callers see those that they would set alone. -/
theorem alarms_callersOf :
    (alarms callers countAt).filterMap
        (fun alarm => (alarm.2.renumber (placeOf key callers)).map (alarm.1, ·)) =
      alarms (callersOf key callers) [] := by
  have counts : ((seenAt 0 countAt).mapIdx fun n time => (time, Alarm.count n)).filterMap
      (fun alarm => (alarm.2.renumber (placeOf key callers)).map (alarm.1, ·)) = [] := by
    rw [List.filterMap_eq_nil_iff]
    intro alarm member
    obtain ⟨n, inside, rfl⟩ := List.mem_mapIdx.mp member
    rfl
  have arrivals : (callers.mapIdx fun n caller => (caller.arrival, Alarm.resume n)).filterMap
      (fun alarm => (alarm.2.renumber (placeOf key callers)).map (alarm.1, ·)) =
        (callersOf key callers).mapIdx fun n caller => (caller.arrival, Alarm.resume n) := by
    have alone : ((callersOf key callers).mapIdx fun n caller => (caller.arrival, Alarm.resume n)) =
        ((callersOf key callers).mapIdx fun n caller =>
          some (caller.arrival, Alarm.resume n)).filterMap id := by
      rw [List.mapIdx_eq_zipIdx_map, List.mapIdx_eq_zipIdx_map, List.filterMap_map]
      exact (congrFun List.filterMap_eq_map' _).symm
    rw [alone]
    refine filterMap_mapIdx_callersOf fun n caller _ => ?_
    cases at' : placeOf key callers n <;> simp [Alarm.renumber, at']
  have endings : ((callers.mapIdx fun n caller =>
      caller.calledOff.map fun time => (time, Alarm.callOff n)).filterMap id).filterMap
      (fun alarm => (alarm.2.renumber (placeOf key callers)).map (alarm.1, ·)) =
        ((callersOf key callers).mapIdx fun n caller =>
          caller.calledOff.map fun time => (time, Alarm.callOff n)).filterMap id := by
    rw [List.filterMap_filterMap]
    refine filterMap_mapIdx_callersOf fun n caller _ => ?_
    cases at' : placeOf key callers n <;> cases caller.calledOff <;> simp [Alarm.renumber, at']
  -- The three kinds of alarms are told apart. The counts are nobody's, and the others keep their order.
  have none' : alarms (callersOf key callers) [] =
      ((callersOf key callers).mapIdx fun n caller => (caller.arrival, Alarm.resume n)) ++
        ((callersOf key callers).mapIdx fun n caller =>
          caller.calledOff.map fun time => (time, Alarm.callOff n)).filterMap id := rfl
  rw [none', alarms, List.filterMap_append, List.filterMap_append, counts, arrivals, endings,
    List.nil_append]

theorem orderly_start : (start callers countAt).agenda.Orderly :=
  Agenda.orderly_empty.enter _

theorem mirrors_start :
    Mirrors key (placeOf key callers) (start callers countAt) (start (callersOf key callers) []) := by
  have placing := placing_placeOf key callers
  rw [start_eq, start_eq]
  refine ⟨placing, fun n m at' => ?_, rfl, rfl, ?_⟩
  · obtain ⟨caller, known, known', -⟩ := placing.caller n m at'
    simp only [List.getElem?_map, known, known', Option.map_some]
  · have entered := Agenda.excerpt_enter placing.tells Agenda.orderly_empty (alarms callers countAt)
    rw [alarms_callersOf] at entered
    exact entered.symm

/-- However far the runs go, the run of the callers of a key alone mirrors the run of all. -/
theorem shadows_run (limit : Option Nat) :
    Shadows key (placeOf key callers)
      ((start callers countAt).runWithin limit (start callers countAt).work)
      ((start (callersOf key callers) []).runWithin limit (start (callersOf key callers) []).work) :=
  (mirrors_start key callers countAt).shadows.rest (coherent_start _ _) (coherent_start _ _)
    (orderly_start _ _) limit

end Start

section Independence

variable {key : String} {callers : List Caller}

def logOf (key : String) (s : Sharing) : List SharingEvent :=
  s.log.filterMap (SharingEvent.renumber (placeOf key s.callers))

def isAloft (key : String) (s : Sharing) : Bool := (s.flights.find? key).isSome

theorem callersOf_callersOf (key : String) (callers : List Caller) :
    callersOf key (callersOf key callers) = callersOf key callers := by
  rw [callersOf, callersOf, List.filter_filter]
  simp

theorem placeOf_callersOf {n m : Nat} (at' : placeOf key callers n = some m) :
    placeOf key (callersOf key callers) m = some m := by
  obtain ⟨caller, -, known, mine⟩ := (placing_placeOf key callers).caller n m at'
  rw [placeOf_eq_some]
  refine ⟨caller, known, mine, ?_⟩
  have all : callersOf key ((callersOf key callers).take m) = (callersOf key callers).take m := by
    rw [callersOf, List.filter_eq_self]
    intro other member
    exact (List.mem_filter.mp (List.mem_of_mem_take member)).2
  rw [all, List.length_take_of_le (Nat.le_of_lt (List.getElem?_eq_some_iff.mp known).1)]

theorem Shadows.isAloft {place : Nat → Option Nat} {s o : Sharing} (shadows : Shadows key place s o) :
    o.isAloft key = s.isAloft key := by
  have same := congrArg Option.isSome shadows.mirrors.crew
  rw [Option.isSome_map, Option.isSome_map] at same
  exact same

/-- Without the callers of all other keys, and whenever the flights are counted, the callers of a key
come to the same outcomes at the same times or are called off alike, the log says the same of them, the
key is in flight as of the same times, and it is left in flight alike. -/
theorem keys_apart (callers : List Caller) (key : String) (countAt countAt' : List Nat) :
    let own := callersOf key callers
    let all := start callers countAt
    let alone := start own countAt'
    (∀ n caller, callers[n]? = some caller → caller.key = key →
      ∃ m, placeOf key callers n = some m ∧ own[m]? = some caller ∧
        alone.run.stages[m]? = all.run.stages[n]?) ∧
    logOf key alone.run = logOf key all.run ∧
    (∀ time, (alone.asOf time).isAloft key = (all.asOf time).isAloft key) ∧
    alone.run.isAloft key = all.run.isAloft key := by
  intro own all alone
  -- both runs are mirrored by the run of these callers in which nothing is counted
  have mirrored (limit : Option Nat) := shadows_run key callers countAt limit
  have mirrored' (limit : Option Nat) := shadows_run key own countAt' limit
  rw [callersOf_callersOf] at mirrored'
  have whole := mirrored none
  have whole' := mirrored' none
  rw [runWithin_none, runWithin_none] at whole whole'
  refine ⟨fun n caller known mine => ?_, ?_, fun time => ?_, ?_⟩
  · obtain ⟨m, at'⟩ := (placing_placeOf key callers).mine n caller known mine
    obtain ⟨caller', known', here, -⟩ := (placing_placeOf key callers).caller n m at'
    rw [known] at known'
    cases known'
    have stage := whole.mirrors.stages n m at'
    have stage' := whole'.mirrors.stages m m (placeOf_callersOf at')
    exact ⟨m, at', here, stage'.symm.trans stage⟩
  · have same : all.run.callers = callers := callers_runFor _ _
    have same' : alone.run.callers = own := callers_runFor _ _
    rw [logOf, logOf, same, same']
    exact whole'.mirrors.log.symm.trans whole.mirrors.log
  · exact (mirrored' (some time)).isAloft.symm.trans (mirrored (some time)).isAloft
  · exact whole'.isAloft.symm.trans whole.isAloft

def interlude : List Caller :=
  [⟨"a", 0, 5, 10, none⟩, ⟨"b", 1, 9, 20, some 2⟩, ⟨"a", 3, 4, 30, none⟩]

theorem keys_apart_interlude :
    ∃ m, placeOf "a" interlude 2 = some m ∧
      (start (callersOf "a" interlude) [4]).run.stages[m]? = (start interlude []).run.stages[2]? := by
  obtain ⟨m, at', -, same⟩ := (keys_apart interlude "a" [] [4]).1 2 ⟨"a", 3, 4, 30, none⟩ rfl rfl
  exact ⟨m, at', same⟩

end Independence

end LatencyRank.Sharing
