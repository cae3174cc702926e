import Mathlib
import LatencyRank.Proofs.Sharing.Mirroring

/-!
The turns of the other callers. They concern the flights of other keys only, so that nothing of what a
mirror shows is changed by them.
-/

namespace LatencyRank.Sharing

open Flights

/-- What the mirror shows is in both states the same. -/
structure Beside (key : String) (place : Nat → Option Nat) (s s' : Sharing) : Prop where
  callers : s'.callers = s.callers
  stages : ∀ n m, place n = some m → s'.stages[n]? = s.stages[n]?
  flight : s'.flights.find? key = s.flights.find? key
  log : s'.log.filterMap (SharingEvent.renumber place) = s.log.filterMap (SharingEvent.renumber place)
  agenda : s'.agenda.excerpt (Alarm.renumber place) = s.agenda.excerpt (Alarm.renumber place)

section Others

variable {key : String} {place : Nat → Option Nat} {s s' s'' : Sharing} {n : Nat} {caller : Caller}

theorem Beside.refl (key : String) (place : Nat → Option Nat) (s : Sharing) : Beside key place s s :=
  ⟨rfl, fun _ _ _ => rfl, rfl, rfl, rfl⟩

theorem Beside.trans (first : Beside key place s s') (second : Beside key place s' s'') :
    Beside key place s s'' where
  callers := second.callers.trans first.callers
  stages n m at' := (second.stages n m at').trans (first.stages n m at')
  flight := second.flight.trans first.flight
  log := second.log.trans first.log
  agenda := second.agenda.trans first.agenda

theorem Beside.now (beside : Beside key place s s') : s'.now = s.now := by
  have same := congrArg Agenda.now beside.agenda
  exact same

theorem beside_note (s : Sharing) {event : SharingEvent} (unseen : event.renumber place = none) :
    Beside key place s (s.note event) :=
  ⟨rfl, fun _ _ _ => rfl, rfl, List.filterMap_cons_none unseen, rfl⟩

theorem ne_of_place (away : place n = none) {n' m : Nat} (at' : place n' = some m) : n ≠ n' := by
  rintro rfl
  rw [away] at at'
  cases at'

theorem beside_setStage (s : Sharing) (away : place n = none) (stage : CallerStage) :
    Beside key place s (s.setStage n stage) :=
  ⟨rfl, fun _ _ at' => List.getElem?_set_ne (ne_of_place away at'), rfl, rfl, rfl⟩

theorem beside_answer (s : Sharing) (away : place n = none) (outcome : Measurement) :
    Beside key place s (s.answer n outcome) :=
  (beside_setStage s away _).trans (beside_note _ (by simp [SharingEvent.renumber, away]))

theorem renumber_resumes_of_none {waiting : List Nat} (away : ∀ m ∈ waiting, place m = none) :
    (waiting.map Alarm.resume).filterMap (Alarm.renumber place) = [] := by
  rw [List.filterMap_eq_nil_iff]
  intro alarm member
  obtain ⟨m, inside, rfl⟩ := List.mem_map.mp member
  rw [Alarm.renumber, away m inside]
  rfl

variable (tells : Agenda.Tells (Alarm.renumber place)) (away : place n = none) (other : caller.key ≠ key)

include tells away other

theorem beside_finish (s : Sharing)
    (aboard : ∀ m, s.flights.Awaits caller.key m → place m = none) :
    Beside key place s (s.finish n caller) := by
  have told : ∀ m ∈ (s.flights.land caller.key).2, place m = none := fun m member =>
    aboard m ((mem_land_waiting _ _ _).mp member)
  rw [finish_eq]
  constructor
  case callers => exact rfl
  case stages =>
    intro n' m at'
    have untold : n' ∉ (s.flights.land caller.key).2 := fun member =>
      ne_of_place (told n' member) at' rfl
    rw [List.getElem?_set_ne (ne_of_place away at'),
      getElem?_modifyAll (fun _ => CallerStage.told caller.probe) fun _ => rfl, if_neg untold]
  case flight => rw [find?_land, if_neg other.symm]
  case log => simp only [List.filterMap_cons, SharingEvent.renumber, away, Option.map_none]
  case agenda =>
    rw [Agenda.excerpt_wakeAll tells, renumber_resumes_of_none told]
    rfl

theorem beside_probe (s : Sharing)
    (aboard : ∀ m, s.flights.Awaits caller.key m → place m = none) :
    Beside key place s (s.probe n caller) := by
  have noted : Beside key place s (s.note (.started n s.now)) :=
    beside_note s (by simp [SharingEvent.renumber, away])
  unfold Sharing.probe
  by_cases instant : caller.duration = 0
  · simp only [instant, ↓reduceIte]
    exact noted.trans (beside_finish tells away other _ aboard)
  · simp only [instant, ↓reduceIte]
    have probing := noted.trans (beside_setStage (s.note (.started n s.now)) away .probing)
    have unseen : Alarm.renumber place (.resume n) = none := by
      rw [Alarm.renumber, away]
      rfl
    have later := Agenda.excerpt_wakeAfter_of_none tells s.agenda caller.duration unseen
    exact ⟨probing.callers, probing.stages, probing.flight, probing.log, later⟩

theorem beside_arrive (s : Sharing)
    (aboard : ∀ m, s.flights.Awaits caller.key m → place m = none) :
    Beside key place s (s.arrive n caller) := by
  have unseen (flight time : Nat) : (SharingEvent.joined n flight time).renumber place = none := by
    rw [SharingEvent.renumber, away]
    rfl
  have elsewhere : (s.flights.join caller.key n).1.find? key = s.flights.find? key := by
    rw [find?_join, if_neg other.symm]
  have joined : Beside key place s
      (Sharing.note { s with flights := (s.flights.join caller.key n).1 }
        (.joined n (s.flights.join caller.key n).2.flight s.now)) :=
    ⟨rfl, fun _ _ _ => rfl, elsewhere, List.filterMap_cons_none (unseen _ _), rfl⟩
  have aboard' : ∀ m, (s.flights.join caller.key n).1.Awaits caller.key m → place m = none := by
    intro m awaits
    obtain before | ⟨-, rfl, -⟩ := (awaits_join _ _ _ _ _).mp awaits
    · exact aboard m before
    · exact away
  unfold Sharing.arrive
  simp only
  split
  · exact joined.trans (beside_probe tells away other _ aboard')
  · exact joined.trans (beside_setStage _ away .waiting)

end Others

section Turns

variable {key : String} {place : Nat → Option Nat} {s : Sharing} {own : List Caller} {n : Nat}
  {caller : Caller}

theorem Placing.key_ne (placing : Placing key s.callers own place) (away : place n = none)
    (known : s.callers[n]? = some caller) : caller.key ≠ key := by
  intro same
  obtain ⟨m, at'⟩ := placing.mine n caller known same
  exact ne_of_place away at' rfl

theorem away_of_aboard (coherent : Coherent s) (placing : Placing key s.callers own place)
    {other : String} (different : other ≠ key) {m : Nat} (awaits : s.flights.Awaits other m) :
    place m = none := by
  obtain ⟨caller, known, its⟩ := coherent.aboard other m (.inr awaits)
  rw [Option.eq_none_iff_forall_ne_some]
  intro m' at'
  obtain ⟨caller', known', -, mine⟩ := placing.caller m m' at'
  rw [known] at known'
  cases known'
  exact different (its.symm.trans mine)

theorem beside_resume (coherent : Coherent s) (placing : Placing key s.callers own place)
    (away : place n = none) {agenda : Agenda Alarm} :
    Beside key place { s with agenda } (Sharing.resume { s with agenda } n) := by
  have aboard {caller : Caller} (known : s.callers[n]? = some caller) (m : Nat)
      (awaits : s.flights.Awaits caller.key m) : place m = none :=
    away_of_aboard coherent placing (placing.key_ne away known) awaits
  apply resume_cases
  case spared => exact fun _ => .refl key place _
  case expected =>
    exact fun caller known _ =>
      beside_arrive placing.tells away (placing.key_ne away known) _ (aboard known)
  case waiting =>
    exact fun caller known _ =>
      beside_probe placing.tells away (placing.key_ne away known) _ (aboard known)
  case probing =>
    exact fun caller known _ =>
      beside_finish placing.tells away (placing.key_ne away known) _ (aboard known)
  case told => exact fun _ outcome _ _ => beside_answer _ away outcome

theorem beside_callOff (coherent : Coherent s) (placing : Placing key s.callers own place)
    (away : place n = none) : Beside key place s (s.callOff n) := by
  rcases callOff_cases s n with ⟨same, -⟩ | ⟨caller, stage, known, at', busy⟩
  · exact same.symm ▸ Beside.refl key place s
  rw [callOff_eq s n known at' busy]
  have other := placing.key_ne away known
  have unseen : Alarm.renumber place (.resume n) = none := by
    rw [Alarm.renumber, away]
    rfl
  have heirs : ∀ m ∈ (s.flights.leave caller.key n).2.toList, place m = none := fun m member =>
    away_of_aboard coherent placing other (awaits_of_heir (Option.mem_toList.mp member)).2
  constructor
  case callers => exact rfl
  case stages => exact fun n' m at'' => List.getElem?_set_ne (ne_of_place away at'')
  case flight => rw [find?_leave, if_neg other.symm]
  case log => simp only [List.filterMap_cons, SharingEvent.renumber, away, Option.map_none]
  case agenda =>
    rw [Agenda.excerpt_wakeAll placing.tells, renumber_resumes_of_none heirs,
      Agenda.excerpt_forget_of_none _ unseen]
    rfl

theorem beside_handle (coherent : Coherent s) (placing : Placing key s.callers own place)
    {alarm : Alarm} {agenda : Agenda Alarm} (popped : s.agenda.pop? = some (alarm, agenda))
    (unseen : alarm.renumber place = none) :
    Beside key place { s with agenda } (Sharing.handle { s with agenda } alarm) := by
  cases alarm with
  | resume n => exact beside_resume coherent placing (Option.map_eq_none_iff.mp unseen)
  | callOff n =>
    have coherent' := coherent_pop coherent popped fun m => by simp
    exact beside_callOff coherent' placing (Option.map_eq_none_iff.mp unseen)
  | count number => exact ⟨rfl, fun _ _ _ => rfl, rfl, rfl, rfl⟩

end Turns

section Order

variable {s : Sharing} (orderly : s.agenda.Orderly) (n : Nat) (caller : Caller)

include orderly

theorem orderly_finish : (s.finish n caller).agenda.Orderly := by
  rw [finish_eq]
  exact orderly.wakeAll _

theorem orderly_probe : (s.probe n caller).agenda.Orderly := by
  unfold probe
  split
  · exact orderly_finish (s := s.note (.started n s.now)) orderly n caller
  · exact orderly.wakeAfter _ _

theorem orderly_arrive : (s.arrive n caller).agenda.Orderly := by
  unfold arrive
  simp only
  split
  · exact orderly_probe (s := Sharing.note { s with flights := _ } _) orderly n caller
  · exact orderly

theorem orderly_resume : (s.resume n).agenda.Orderly := by
  apply resume_cases (motive := fun s' => s'.agenda.Orderly)
  case spared => exact fun _ => orderly
  case expected => exact fun caller _ _ => orderly_arrive orderly n caller
  case waiting => exact fun caller _ _ => orderly_probe orderly n caller
  case probing => exact fun caller _ _ => orderly_finish orderly n caller
  case told => exact fun _ _ _ _ => orderly

theorem orderly_callOff : (s.callOff n).agenda.Orderly := by
  rcases callOff_cases s n with ⟨same, -⟩ | ⟨caller, stage, known, at', busy⟩
  · exact same.symm ▸ orderly
  · rw [callOff_eq s n known at' busy]
    exact (orderly.forget _).wakeAll _

theorem orderly_step {s' : Sharing} (stepped : s.step? = some s') : s'.agenda.Orderly := by
  rcases step_cases stepped with ⟨later, -, ticked, rfl⟩ | ⟨alarm, agenda, popped, rfl⟩
  · exact orderly.tick ticked
  · have rest := orderly.pop popped
    cases alarm with
    | resume n => exact orderly_resume (s := { s with agenda }) rest n
    | callOff n => exact orderly_callOff (s := { s with agenda }) rest n
    | count number => exact rest

end Order

end LatencyRank.Sharing
