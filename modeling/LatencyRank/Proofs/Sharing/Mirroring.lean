import Mathlib
import LatencyRank.Proofs.Schedule.Excerpt
import LatencyRank.Proofs.Sharing.Timetable
import LatencyRank.Proofs.Sharing.Succession

/-!
A machine that has the callers of one key only mirrors a machine that has others as well: it shows each
of them at the same stage, the key's flight with the same crew, their alarms in the same order and what
the log says of them. A turn of one of them is mirrored by the same turn in the mirror; a turn of
anybody else leaves the mirror image as it is.
-/

namespace LatencyRank

def Alarm.renumber (place : Nat → Option Nat) : Alarm → Option Alarm
  | resume n => (place n).map resume
  | callOff n => (place n).map callOff
  | count _ => none

/-- The event of a caller that has a place, with the place for the caller. Flights are numbered
through all keys, so that their numbers are left out. -/
def SharingEvent.renumber (place : Nat → Option Nat) : SharingEvent → Option SharingEvent
  | joined n _ time => (place n).map (joined · 0 time)
  | started n time => (place n).map (started · time)
  | ended n time => (place n).map (ended · time)
  | calledOff n time => (place n).map (calledOff · time)
  | answered n time => (place n).map (answered · time)

def Flight.crew (place : Nat → Option Nat) (flight : Flight) : Option (Option Nat) × List (Option Nat) :=
  (flight.runner.map place, flight.waiting.map place)

namespace Sharing

open Flights

/-- The callers of a key have places among themselves, each its own. -/
structure Placing (key : String) (callers own : List Caller) (place : Nat → Option Nat) : Prop where
  caller : ∀ n m, place n = some m →
    ∃ caller, callers[n]? = some caller ∧ own[m]? = some caller ∧ caller.key = key
  mine : ∀ n caller, callers[n]? = some caller → caller.key = key → ∃ m, place n = some m
  apart : ∀ n n' m, place n = some m → place n' = some m → n = n'

structure Mirrors (key : String) (place : Nat → Option Nat) (s o : Sharing) : Prop where
  placing : Placing key s.callers o.callers place
  stages : ∀ n m, place n = some m → o.stages[m]? = s.stages[n]?
  crew : (o.flights.find? key).map (Flight.crew some) = (s.flights.find? key).map (Flight.crew place)
  log : o.log.filterMap (SharingEvent.renumber some) = s.log.filterMap (SharingEvent.renumber place)
  agenda : o.agenda = s.agenda.excerpt (Alarm.renumber place)

section Places

variable {place : Nat → Option Nat} {key : String} {callers own : List Caller} {n m : Nat}

theorem Placing.tells (placing : Placing key callers own place) :
    Agenda.Tells (Alarm.renumber place) := by
  have same {n n' m m' : Nat} (at' : place n = some m) (at'' : place n' = some m') (image : m = m') :
      n = n' := placing.apart n n' m' (image ▸ at') at''
  intro alarm other image shown shown'
  cases alarm with
  | resume n =>
    obtain ⟨m, at', rfl⟩ := Option.map_eq_some_iff.mp shown
    cases other with
    | resume n' =>
      obtain ⟨m', at'', image⟩ := Option.map_eq_some_iff.mp shown'
      rw [same at' at'' (Alarm.resume.inj image.symm)]
    | callOff n' =>
      obtain ⟨m', -, image⟩ := Option.map_eq_some_iff.mp shown'
      cases image
    | count number => cases shown'
  | callOff n =>
    obtain ⟨m, at', rfl⟩ := Option.map_eq_some_iff.mp shown
    cases other with
    | resume n' =>
      obtain ⟨m', -, image⟩ := Option.map_eq_some_iff.mp shown'
      cases image
    | callOff n' =>
      obtain ⟨m', at'', image⟩ := Option.map_eq_some_iff.mp shown'
      rw [same at' at'' (Alarm.callOff.inj image.symm)]
    | count number => cases shown'
  | count number => cases shown

theorem Placing.eq_iff (placing : Placing key callers own place) (at' : place n = some m)
    {n' m' : Nat} (at'' : place n' = some m') : m = m' ↔ n = n' := by
  constructor
  · rintro rfl
    exact placing.apart n n' m at' at''
  · rintro rfl
    exact Option.some.inj (at'.symm.trans at'')

theorem mem_of_places (placing : Placing key callers own place) (at' : place n = some m)
    {there here : List Nat} (same : there.map some = here.map place) : m ∈ there ↔ n ∈ here := by
  have image : some m ∈ there.map some ↔ some m ∈ here.map place := by rw [same]
  rw [List.mem_map_of_injective (Option.some_injective _)] at image
  rw [image, List.mem_map]
  constructor
  · rintro ⟨n', member, at''⟩
    exact placing.apart n' n m at'' at' ▸ member
  · intro member
    exact ⟨n, member, at'⟩

theorem renumber_resumes {there here : List Nat} (same : there.map some = here.map place) :
    (here.map Alarm.resume).filterMap (Alarm.renumber place) = there.map Alarm.resume := by
  have shown : (here.map Alarm.resume).filterMap (Alarm.renumber place) =
      (here.map place).filterMap (Option.map Alarm.resume) := by
    rw [List.filterMap_map, List.filterMap_map]
    rfl
  rw [shown, ← same, List.filterMap_map]
  exact congrFun List.filterMap_eq_map' there

end Places

section Crews

variable {place : Nat → Option Nat} {key : String} {callers own : List Caller} {n m : Nat}
  {f g : Flights}

theorem runner_of_crew {flight image : Flight} (same : image.crew some = flight.crew place) :
    image.runner.map some = flight.runner.map place := congrArg Prod.fst same

theorem waiting_of_crew {flight image : Flight} (same : image.crew some = flight.crew place) :
    image.waiting.map some = flight.waiting.map place := congrArg Prod.snd same

/-- A flight is open in both machines or in neither, and then with the same crew. -/
theorem crew_cases
    (same : (g.find? key).map (Flight.crew some) = (f.find? key).map (Flight.crew place)) :
    (f.find? key = none ∧ g.find? key = none) ∨
      ∃ flight image, f.find? key = some flight ∧ g.find? key = some image ∧
        image.crew some = flight.crew place := by
  cases found : f.find? key <;> cases found' : g.find? key <;> rw [found, found'] at same
  · exact .inl ⟨rfl, rfl⟩
  · cases same
  · cases same
  · exact .inr ⟨_, _, rfl, rfl, Option.some.inj same⟩

theorem crew_join (at' : place n = some m)
    (same : (g.find? key).map (Flight.crew some) = (f.find? key).map (Flight.crew place)) :
    ((g.join key m).1.find? key).map (Flight.crew some) =
      ((f.join key n).1.find? key).map (Flight.crew place) := by
  rw [find?_join, find?_join, if_pos rfl, if_pos rfl, Option.map_some, Option.map_some]
  obtain ⟨nobody, nobody'⟩ | ⟨flight, image, found, found', crew⟩ := crew_cases same
  · rw [nobody, nobody']
    simp [boarded, Flight.crew, at']
  · have runner := runner_of_crew crew
    have waiting := waiting_of_crew crew
    rw [found, found']
    cases manned : flight.runner with
    | none =>
      rw [manned, Option.map_none, Option.map_eq_none_iff] at runner
      simp [boarded, Flight.crew, manned, runner, at', waiting]
    | some r =>
      rw [manned, Option.map_some, Option.map_eq_some_iff] at runner
      obtain ⟨r', manned', seat⟩ := runner
      simp [boarded, Flight.crew, manned, manned', seat.symm, at', waiting]

theorem runs_of_crew
    (same : (g.find? key).map (Flight.crew some) = (f.find? key).map (Flight.crew place)) (n m : Nat) :
    (g.join key m).2.runs = (f.join key n).2.runs := by
  rw [Bool.eq_iff_iff, join_runs, join_runs]
  obtain ⟨nobody, nobody'⟩ | ⟨flight, image, found, found', crew⟩ := crew_cases same
  · rw [nobody, nobody']
  · rw [found, found', Option.bind_some, Option.bind_some, ← Option.map_eq_none_iff (f := some),
      runner_of_crew crew, Option.map_eq_none_iff]

theorem waiting_of_land
    (same : (g.find? key).map (Flight.crew some) = (f.find? key).map (Flight.crew place)) :
    (g.land key).2.map some = (f.land key).2.map place := by
  rw [land_waiting, land_waiting]
  obtain ⟨nobody, nobody'⟩ | ⟨flight, image, found, found', crew⟩ := crew_cases same
  · rw [nobody, nobody']
    rfl
  · rw [found, found']
    exact waiting_of_crew crew

theorem runner_iff (placing : Placing key callers own place) (at' : place n = some m)
    {flight image : Flight} (crew : image.crew some = flight.crew place) :
    image.runner = some m ↔ flight.runner = some n := by
  have runner := runner_of_crew crew
  constructor
  · intro manned
    rw [manned, Option.map_some, eq_comm, Option.map_eq_some_iff] at runner
    obtain ⟨n', manned', at''⟩ := runner
    rw [manned', placing.apart n' n m at'' at']
  · intro manned
    rw [manned, Option.map_some, at', Option.map_eq_some_iff] at runner
    obtain ⟨m', manned', same⟩ := runner
    cases same
    exact manned'

theorem crew_leave (placing : Placing key callers own place) (at' : place n = some m)
    (same : (g.find? key).map (Flight.crew some) = (f.find? key).map (Flight.crew place)) :
    ((g.leave key m).1.find? key).map (Flight.crew some) =
      ((f.leave key n).1.find? key).map (Flight.crew place) := by
  rw [find?_leave, find?_leave, if_pos rfl, if_pos rfl]
  obtain ⟨nobody, nobody'⟩ | ⟨flight, image, found, found', crew⟩ := crew_cases same
  · rw [nobody, nobody']
    rfl
  · rw [found, found', Option.map_some, Option.map_some, Option.map_some, Option.map_some,
      Option.some.injEq]
    have waiting := waiting_of_crew crew
    unfold without
    by_cases runs : flight.runner = some n
    · rw [if_pos runs, if_pos ((runner_iff placing at' crew).mpr runs)]
      simp only [Flight.crew, ← List.head?_map, List.map_tail, waiting]
    · rw [if_neg runs, if_neg ((runner_iff placing at' crew).not.mpr runs)]
      have others (items : List Nat) (view : Nat → Option Nat) (who : Nat)
          (shown : ∀ n', view n' = some m ↔ n' = who) :
          (items.filter fun n' => n' ≠ who).map view = (items.map view).filter (· ≠ some m) := by
        rw [List.filter_map]
        congr 1
        refine List.filter_congr fun n' _ => ?_
        simp [shown]
      have here := others flight.waiting place n fun n' =>
        ⟨fun at'' => placing.apart n' n m at'' at', fun who => who ▸ at'⟩
      have there := others image.waiting some m fun n' => Option.some_inj
      have runner := runner_of_crew crew
      exact Prod.ext runner (by rw [Flight.crew, Flight.crew, there, here, waiting])

theorem successor_of_crew (placing : Placing key callers own place) (at' : place n = some m)
    (same : (g.find? key).map (Flight.crew some) = (f.find? key).map (Flight.crew place)) :
    (g.leave key m).2.toList.map some = (f.leave key n).2.toList.map place := by
  rw [leave_successor, leave_successor]
  obtain ⟨nobody, nobody'⟩ | ⟨flight, image, found, found', crew⟩ := crew_cases same
  · rw [nobody, nobody']
    rfl
  · have waiting := waiting_of_crew crew
    rw [found, found', Option.bind_some, Option.bind_some]
    by_cases runs : flight.runner = some n
    · rw [if_pos runs, if_pos ((runner_iff placing at' crew).mpr runs), ← Option.toList_map,
        ← Option.toList_map, ← List.head?_map, ← List.head?_map, waiting]
    · rw [if_neg runs, if_neg ((runner_iff placing at' crew).not.mpr runs)]
      rfl

end Crews

section Own

variable {key : String} {place : Nat → Option Nat} {s o : Sharing} {n m : Nat} {caller : Caller}

theorem Mirrors.now (mirrors : Mirrors key place s o) : o.now = s.now := by
  rw [Sharing.now, mirrors.agenda]
  rfl

theorem Mirrors.note (mirrors : Mirrors key place s o) {event event' : SharingEvent}
    (same : event'.renumber some = event.renumber place) :
    Mirrors key place (s.note event) (o.note event') where
  placing := mirrors.placing
  stages := mirrors.stages
  crew := mirrors.crew
  log := by simp only [Sharing.note, List.filterMap_cons, same, mirrors.log]
  agenda := mirrors.agenda

theorem Placing.set {callers own : List Caller} (placing : Placing key callers own place)
    (at' : place n = some m) {stages stages' : List CallerStage}
    (same : ∀ n m, place n = some m → stages'[m]? = stages[n]?) (stage : CallerStage) :
    ∀ n' m', place n' = some m' → (stages'.set m stage)[m']? = (stages.set n stage)[n']? := by
  intro n' m' at''
  rw [List.getElem?_set', List.getElem?_set', same n' m' at'']
  by_cases who : n = n'
  · rw [if_pos who, if_pos ((placing.eq_iff at' at'').mpr who)]
  · rw [if_neg who, if_neg ((placing.eq_iff at' at'').not.mpr who)]

theorem Mirrors.setStage (mirrors : Mirrors key place s o) (at' : place n = some m)
    (stage : CallerStage) : Mirrors key place (s.setStage n stage) (o.setStage m stage) where
  placing := mirrors.placing
  stages := mirrors.placing.set at' mirrors.stages stage
  crew := mirrors.crew
  log := mirrors.log
  agenda := mirrors.agenda

theorem Mirrors.answer (mirrors : Mirrors key place s o) (at' : place n = some m)
    (outcome : Measurement) : Mirrors key place (s.answer n outcome) (o.answer m outcome) := by
  unfold Sharing.answer
  rw [mirrors.now]
  refine (mirrors.setStage at' _).note ?_
  simp [SharingEvent.renumber, at']

theorem Mirrors.finish (mirrors : Mirrors key place s o) (at' : place n = some m)
    (own : caller.key = key) : Mirrors key place (s.finish n caller) (o.finish m caller) := by
  subst own
  -- the crews are the same, so the same callers are told in both machines
  have waiting := waiting_of_land mirrors.crew
  rw [finish_eq, finish_eq]
  constructor
  case placing => exact mirrors.placing
  case stages =>
    rw [mirrors.now]
    refine mirrors.placing.set at' (fun n' m' at'' => ?_) _
    rw [getElem?_modifyAll (fun _ => CallerStage.told caller.probe) fun _ => rfl,
      getElem?_modifyAll (fun _ => CallerStage.told caller.probe) fun _ => rfl,
      mirrors.stages n' m' at'', if_congr (mem_of_places mirrors.placing at'' waiting) rfl rfl]
  case crew =>
    rw [find?_land, find?_land, if_pos rfl, if_pos rfl]
    rfl
  case log =>
    have log := mirrors.log
    simp only [List.filterMap_cons, SharingEvent.renumber, at', Option.map_some, mirrors.now, log]
  case agenda =>
    rw [Agenda.excerpt_wakeAll mirrors.placing.tells, renumber_resumes waiting, mirrors.agenda]

theorem Mirrors.probe (mirrors : Mirrors key place s o) (orderly : s.agenda.Orderly)
    (at' : place n = some m) (own : caller.key = key) :
    Mirrors key place (s.probe n caller) (o.probe m caller) := by
  have noted : Mirrors key place (s.note (.started n s.now)) (o.note (.started m o.now)) := by
    rw [mirrors.now]
    exact mirrors.note (by simp [SharingEvent.renumber, at'])
  unfold Sharing.probe
  by_cases instant : caller.duration = 0
  · simp only [instant, ↓reduceIte]
    exact noted.finish at' own
  · simp only [instant, ↓reduceIte]
    have probing := noted.setStage at' .probing
    refine ⟨probing.placing, probing.stages, probing.crew, probing.log, ?_⟩
    have resumes : Alarm.renumber place (.resume n) = some (.resume m) := by
      rw [Alarm.renumber, at']
      rfl
    have later := Agenda.excerpt_wakeAfter mirrors.placing.tells orderly caller.duration resumes
    exact (congrArg (Agenda.wakeAfter · caller.duration (.resume m)) mirrors.agenda).trans later.symm

theorem Mirrors.join (mirrors : Mirrors key place s o) (at' : place n = some m)
    (own : caller.key = key) :
    Mirrors key place { s with flights := (s.flights.join caller.key n).1 }
      { o with flights := (o.flights.join caller.key m).1 } where
  placing := mirrors.placing
  stages := mirrors.stages
  crew := by
    subst own
    exact crew_join at' mirrors.crew
  log := mirrors.log
  agenda := mirrors.agenda

theorem Mirrors.arrive (mirrors : Mirrors key place s o) (orderly : s.agenda.Orderly)
    (at' : place n = some m) (own : caller.key = key) :
    Mirrors key place (s.arrive n caller) (o.arrive m caller) := by
  have joined : Mirrors key place
      (Sharing.note { s with flights := (s.flights.join caller.key n).1 }
        (.joined n (s.flights.join caller.key n).2.flight s.now))
      (Sharing.note { o with flights := (o.flights.join caller.key m).1 }
        (.joined m (o.flights.join caller.key m).2.flight o.now)) := by
    refine (mirrors.join at' own).note ?_
    rw [mirrors.now]
    simp [SharingEvent.renumber, at']
  have runs : (o.flights.join caller.key m).2.runs = (s.flights.join caller.key n).2.runs := by
    subst own
    exact runs_of_crew mirrors.crew n m
  unfold Sharing.arrive
  simp only [runs]
  split
  · exact joined.probe orderly at' own
  · exact joined.setStage at' .waiting

theorem Mirrors.resume (mirrors : Mirrors key place s o) (orderly : s.agenda.Orderly)
    (at' : place n = some m) : Mirrors key place (s.resume n) (o.resume m) := by
  obtain ⟨caller, known, known', own⟩ := mirrors.placing.caller n m at'
  unfold Sharing.resume
  rw [known, known', mirrors.stages n m at']
  cases s.stages[n]? with
  | none => exact mirrors
  | some stage =>
    cases stage with
    | expected => exact mirrors.arrive orderly at' own
    | waiting => exact mirrors.probe orderly at' own
    | probing => exact mirrors.finish at' own
    | told outcome => exact mirrors.answer at' outcome
    | done outcome time => exact mirrors
    | calledOff => exact mirrors

theorem Mirrors.callOff (mirrors : Mirrors key place s o) (at' : place n = some m) :
    Mirrors key place (s.callOff n) (o.callOff m) := by
  obtain ⟨caller, known, known', own⟩ := mirrors.placing.caller n m at'
  have same := mirrors.stages n m at'
  rcases callOff_cases s n with ⟨unchanged, ended⟩ | ⟨it, stage, itself, here, busy⟩
  · rw [unchanged, callOff_of_over o m fun _ stage _ there => ended caller stage known (same ▸ there)]
    exact mirrors
  cases known.symm.trans itself
  rw [callOff_eq s n known here busy, callOff_eq o m known' (same.trans here) busy]
  subst own
  have heirs := successor_of_crew mirrors.placing at' mirrors.crew
  refine ⟨mirrors.placing, mirrors.placing.set at' mirrors.stages _,
    crew_leave mirrors.placing at' mirrors.crew, ?_, ?_⟩
  · have log := mirrors.log
    simp only [List.filterMap_cons, SharingEvent.renumber, at', Option.map_some, mirrors.now, log]
  · have resumes : Alarm.renumber place (.resume n) = some (.resume m) := by
      rw [Alarm.renumber, at']
      rfl
    rw [Agenda.excerpt_wakeAll mirrors.placing.tells, renumber_resumes heirs,
      Agenda.excerpt_forget mirrors.placing.tells _ resumes, mirrors.agenda]

/-- The turn of a caller that has a place is mirrored by the turn at its place. -/
theorem Mirrors.handle (mirrors : Mirrors key place s o) (orderly : s.agenda.Orderly)
    {alarm image : Alarm} (shown : alarm.renumber place = some image) :
    Mirrors key place (s.handle alarm) (o.handle image) := by
  cases alarm with
  | resume n =>
    obtain ⟨m, at', rfl⟩ := Option.map_eq_some_iff.mp shown
    exact mirrors.resume orderly at'
  | callOff n =>
    obtain ⟨m, at', rfl⟩ := Option.map_eq_some_iff.mp shown
    exact mirrors.callOff at'
  | count number => cases shown

end Own

end Sharing

end LatencyRank
