import Mathlib
import LatencyRank.Proofs.Sharing.Manifest
import LatencyRank.Proofs.Sharing.Timetable

/-!
Where outcomes come from. The log records every flight as the flights have it, and each outcome that
a caller has or was told is that of a probe which ended on the caller's flight after it joined.
-/

namespace LatencyRank.Sharing

open Flights

section Outcomes

/-- Both callers joined the flight, and then the probe of the second one ended. -/
def Served (log : List SharingEvent) (flight n m : Nat) : Prop :=
  ∃ later ended earlier came since, log = later ++ .ended m ended :: earlier ∧
    .joined n flight came ∈ earlier ∧ .joined m flight since ∈ earlier ∧ came ≤ ended

/-- The outcome is what a caller of the same key found on the flight that this caller joined. -/
def Fresh (callers : List Caller) (log : List SharingEvent) (n : Nat) (outcome : Measurement) :
    Prop :=
  ∃ flight m caller runner, callers[n]? = some caller ∧ callers[m]? = some runner ∧
    runner.key = caller.key ∧ outcome = runner.probe ∧ Served log flight n m

theorem served_mono {log log' : List SharingEvent} {flight n m : Nat} (longer : log <:+ log')
    (served : Served log flight n m) : Served log' flight n m := by
  obtain ⟨new, rfl⟩ := longer
  obtain ⟨later, ended, earlier, came, since, rfl, rest⟩ := served
  exact ⟨new ++ later, ended, earlier, came, since, by simp, rest⟩

theorem fresh_mono {callers : List Caller} {log log' : List SharingEvent} {n : Nat}
    {outcome : Measurement} (longer : log <:+ log') (fresh : Fresh callers log n outcome) :
    Fresh callers log' n outcome := by
  obtain ⟨flight, m, caller, runner, known, known', same, found, served⟩ := fresh
  exact ⟨flight, m, caller, runner, known, known', same, found, served_mono longer served⟩

theorem served_aboard {log : List SharingEvent} {flight n m : Nat}
    (served : Served log flight n m) :
    n ∈ passengers log flight ∧ m ∈ completions log flight := by
  obtain ⟨later, ended, earlier, came, since, rfl, joined, joined', -⟩ := served
  have logged : ∀ {event}, event ∈ earlier → event ∈ later ++ .ended m ended :: earlier :=
    fun member => List.mem_append_right _ (List.mem_cons_of_mem _ member)
  refine ⟨mem_passengers.mpr ⟨came, logged joined⟩, List.mem_filter.mpr ⟨?_, ?_⟩⟩
  · exact mem_endings.mpr ⟨ended, List.mem_append_right _ List.mem_cons_self⟩
  · exact decide_eq_true (mem_passengers.mpr ⟨since, logged joined'⟩)

end Outcomes

/-- Flights, stages and log agree, but for a caller in whose turn they do not yet. -/
structure RecordedBut (except : Nat → Prop) (s : Sharing) : Prop where
  manifest : Manifest s.flights s.callers s.log
  unjoined : ∀ n flight, ¬except n → s.stages[n]? = some .expected → n ∉ passengers s.log flight
  outcomes : ∀ (n : Nat) outcome, (s.stages[n]? = some (.told outcome) ∨
    ∃ time, s.stages[n]? = some (.done outcome time)) → Fresh s.callers s.log n outcome
  punctual : ∀ (n : Nat) (caller : Caller) flight time, .joined n flight time ∈ s.log →
    s.callers[n]? = some caller → caller.arrival ≤ time
  past : ∀ n flight time, .joined n flight time ∈ s.log → time ≤ s.now

def Recorded (s : Sharing) : Prop := RecordedBut (fun _ => False) s

namespace RecordedBut

variable {s : Sharing} {n : Nat} {caller : Caller} {except : Nat → Prop}

theorem note (recorded : RecordedBut except s) (event : SharingEvent) (neutral : Neutral event) :
    RecordedBut except (s.note event) := by
  have same : ∀ flight, passengers (event :: s.log) flight = passengers s.log flight := by
    intro flight
    unfold passengers
    rw [joins_neutral neutral]
  have joined : ∀ {m flight time}, .joined m flight time ∈ event :: s.log →
      .joined m flight time ∈ s.log := by
    intro m flight time logged
    exact (List.mem_cons.mp logged).resolve_left fun h => neutral.1 m flight time h.symm
  constructor
  case manifest => exact recorded.manifest.neutral neutral
  case unjoined =>
    intro m flight included at' aboard
    exact recorded.unjoined m flight included at' (same flight ▸ aboard)
  case outcomes =>
    exact fun m outcome at' => fresh_mono (List.suffix_cons _ _) (recorded.outcomes m outcome at')
  case punctual =>
    exact fun m it flight time logged => recorded.punctual m it flight time (joined logged)
  case past => exact fun m flight time logged => recorded.past m flight time (joined logged)

theorem setStage (recorded : RecordedBut (· = n) s) (stage : CallerStage)
    (came : stage ≠ .expected) (noOutcome : ∀ outcome, stage ≠ .told outcome ∧
      ∀ time, stage ≠ .done outcome time) : Recorded (s.setStage n stage) := by
  refine ⟨recorded.manifest, ?_, ?_, recorded.punctual, recorded.past⟩
  · intro m flight _ at'
    rcases getElem?_of_set at' with ⟨-, same⟩ | ⟨different, before⟩
    · exact absurd same.symm came
    · exact recorded.unjoined m flight different before
  · rintro m outcome (at' | ⟨time, at'⟩)
    · rcases getElem?_of_set at' with ⟨-, same⟩ | ⟨-, before⟩
      · exact absurd same.symm (noOutcome outcome).1
      · exact recorded.outcomes m outcome (Or.inl before)
    · rcases getElem?_of_set at' with ⟨-, same⟩ | ⟨-, before⟩
      · exact absurd same.symm ((noOutcome outcome).2 time)
      · exact recorded.outcomes m outcome (Or.inr ⟨time, before⟩)

theorem aside (recorded : Recorded s) (n : Nat) : RecordedBut (· = n) s where
  manifest := recorded.manifest
  unjoined := fun m flight _ => recorded.unjoined m flight id
  outcomes := recorded.outcomes
  punctual := recorded.punctual
  past := recorded.past

theorem log_finish (s : Sharing) (n : Nat) (caller : Caller) :
    (s.finish n caller).log = .answered n s.now :: .ended n s.now :: s.log := by
  rw [finish_eq]

/-- Whoever is aboard the flight of a probe that ends is served by it. -/
theorem fresh_finish (recorded : RecordedBut (· = n) s) (known : s.callers[n]? = some caller)
    {flight : Nat} (own : n ∈ passengers s.log flight) {m : Nat}
    (aboard : m ∈ passengers s.log flight) :
    Fresh s.callers (s.finish n caller).log m caller.probe := by
  obtain ⟨it, known'⟩ := recorded.manifest.known m flight aboard
  obtain ⟨came, logged⟩ := mem_passengers.mp aboard
  obtain ⟨since, logged'⟩ := mem_passengers.mp own
  refine ⟨flight, n, it, caller, known', known, ?_, rfl, ?_⟩
  · exact recorded.manifest.together n m caller it flight own aboard known known'
  · rw [log_finish]
    exact ⟨[.answered n s.now], s.now, s.log, came, since, rfl, logged, logged',
      recorded.past m flight came logged⟩

theorem finish (recorded : RecordedBut (· = n) s) (known : s.callers[n]? = some caller)
    (runs : s.flights.Runs caller.key n) : Recorded (s.finish n caller) := by
  obtain ⟨flight, found, runner⟩ := runs
  have own := recorded.manifest.running caller.key flight n found runner
  have now : (s.finish n caller).now = s.now := by
    rw [finish_eq]
    exact Agenda.now_wakeAll _ _
  have joined : ∀ {m number time}, .joined m number time ∈ (s.finish n caller).log →
      .joined m number time ∈ s.log := by
    intro m number time logged
    simpa [log_finish] using logged
  refine RecordedBut.mk ?manifest ?unjoined ?outcomes ?punctual ?past
  case manifest =>
    have landed := (recorded.manifest.land known ⟨flight, found, runner⟩ s.now).neutral
      (neutral_answered n s.now)
    rw [finish_eq]
    exact landed
  case unjoined =>
    intro m number _ at' aboard
    rcases stage_finish s n caller at' with ⟨-, other⟩ | ⟨-, -, other⟩ | ⟨different, -, before⟩
    · cases other
    · cases other
    · obtain ⟨time, logged⟩ := mem_passengers.mp aboard
      exact recorded.unjoined m number different before (mem_passengers.mpr ⟨time, joined logged⟩)
  case outcomes =>
    intro m outcome at'
    rw [callers_finish]
    have waited : m ∈ (s.flights.land caller.key).2 → m ∈ passengers s.log flight.number := by
      intro told
      rw [land_waiting, found] at told
      exact (recorded.manifest.queued caller.key flight found).subset told
    -- an outcome that somebody has already stays as fresh as it was
    have old : ∀ {stage}, s.stages[m]? = some stage → (stage = .told outcome ∨
        ∃ time, stage = .done outcome time) → Fresh s.callers (s.finish n caller).log m outcome := by
      rintro stage before (rfl | ⟨time, rfl⟩)
      · exact fresh_mono (follows_finish s n caller).log
          (recorded.outcomes m outcome (Or.inl before))
      · exact fresh_mono (follows_finish s n caller).log
          (recorded.outcomes m outcome (Or.inr ⟨time, before⟩))
    rcases at' with at' | ⟨time, at'⟩
    · rcases stage_finish s n caller at' with ⟨-, other⟩ | ⟨-, told, same⟩ | ⟨-, -, before⟩
      · cases other
      · cases same
        exact fresh_finish recorded known own (waited told)
      · exact old before (Or.inl rfl)
    · rcases stage_finish s n caller at' with ⟨rfl, same⟩ | ⟨-, -, other⟩ | ⟨-, -, before⟩
      · cases same
        exact fresh_finish recorded known own own
      · cases other
      · exact old before (Or.inr ⟨time, rfl⟩)
  case punctual =>
    intro m it number time logged known'
    rw [callers_finish] at known'
    exact recorded.punctual m it number time (joined logged) known'
  case past =>
    intro m number time logged
    rw [now]
    exact recorded.past m number time (joined logged)

theorem probe (recorded : RecordedBut (· = n) s) (known : s.callers[n]? = some caller)
    (runs : s.flights.Runs caller.key n) : Recorded (s.probe n caller) := by
  have noted := recorded.note _ (neutral_started n s.now)
  unfold Sharing.probe
  by_cases instant : caller.duration = 0
  · simp only [instant, ↓reduceIte]
    exact noted.finish known runs
  · simp only [instant, ↓reduceIte]
    have set := noted.setStage .probing (by simp) (by simp)
    refine ⟨set.manifest, set.unjoined, set.outcomes, set.punctual, ?_⟩
    intro m flight time logged
    exact (set.past m flight time logged).trans (Nat.le_of_eq (Agenda.now_wakeAfter _ _ _).symm)

theorem arrive (recorded : RecordedBut (· = n) s) (known : s.callers[n]? = some caller)
    (unjoined : ∀ flight, n ∉ passengers s.log flight) (due : caller.arrival ≤ s.now) :
    Recorded (s.arrive n caller) := by
  have boarded : RecordedBut (· = n)
      (Sharing.note { s with flights := (s.flights.join caller.key n).1 }
        (.joined n (s.flights.join caller.key n).2.flight s.now)) := by
    have grows := passengers_joined s.log n (s.flights.join caller.key n).2.flight s.now
    constructor
    case manifest => exact recorded.manifest.join known unjoined s.now
    case unjoined =>
      intro m flight different at' aboard
      rw [Sharing.note, grows] at aboard
      have before := recorded.unjoined m flight different at'
      split at aboard
      · rcases List.mem_append.mp aboard with old | new
        · exact before old
        · exact different (List.mem_singleton.mp new)
      · exact before aboard
    case outcomes =>
      intro m outcome at'
      exact fresh_mono (List.suffix_cons _ _) (recorded.outcomes m outcome at')
    case punctual =>
      intro m it flight time logged known'
      rcases List.mem_cons.mp logged with new | old
      · cases new
        have same : it = caller := Option.some.inj (known'.symm.trans known)
        exact same ▸ due
      · exact recorded.punctual m it flight time old known'
    case past =>
      intro m flight time logged
      rcases List.mem_cons.mp logged with new | old
      · cases new
        exact Nat.le_refl _
      · exact recorded.past m flight time old
  unfold Sharing.arrive
  by_cases runs : (s.flights.join caller.key n).2.runs = true
  · simp only [runs, ↓reduceIte]
    exact boarded.probe known ((runs_join _ _ _ _ _).mpr (Or.inr ⟨rfl, rfl, runs⟩))
  · simp only [runs, Bool.false_eq_true, ↓reduceIte]
    exact boarded.setStage .waiting (by simp) (by simp)

end RecordedBut

section Turns

variable {s s' : Sharing}

theorem recorded_agenda (recorded : Recorded s) {agenda : Agenda Alarm}
    (later : s.now ≤ agenda.now) : Recorded { s with agenda } where
  manifest := recorded.manifest
  unjoined := recorded.unjoined
  outcomes := recorded.outcomes
  punctual := recorded.punctual
  past := fun n flight time logged => (recorded.past n flight time logged).trans later

theorem recorded_resume (coherent : Coherent s) (timetable : Timetable s) (recorded : Recorded s)
    {agenda : Agenda Alarm} {n : Nat} (popped : s.agenda.pop? = some (.resume n, agenda)) :
    Recorded (Sharing.resume { s with agenda } n) := by
  obtain ⟨shape, -, still⟩ := Agenda.pop?_eq_some popped
  have queued : .resume n ∈ s.agenda.ready := shape ▸ List.mem_cons_self
  have rest : Recorded { s with agenda } := recorded_agenda recorded (Nat.le_of_eq still.symm)
  have others := RecordedBut.aside rest n
  apply resume_cases
  case spared => exact fun _ => rest
  case expected =>
    intro caller known at'
    refine others.arrive known (fun flight => recorded.unjoined n flight id at') ?_
    exact (timetable.due n caller known at' queued).trans (Nat.le_of_eq still.symm)
  case waiting =>
    intro caller known at'
    rcases coherent.placed n caller _ id known at' with ⟨runs, -, -, -⟩ | ⟨-, -, absent⟩
    · exact others.probe known runs
    · exact absurd queued (Agenda.not_mem_ready absent)
  case probing =>
    intro caller known at'
    exact others.finish known (coherent.placed n caller _ id known at').1
  case told =>
    -- the outcome stays, so it is as fresh as it was
    intro caller outcome known at'
    have noted := rest.note _ (neutral_answered n agenda.now)
    refine ⟨noted.manifest, ?_, ?_, noted.punctual, noted.past⟩
    · intro m flight _ at''
      rcases getElem?_of_set at'' with ⟨-, same⟩ | ⟨-, before⟩
      · cases same
      · exact noted.unjoined m flight id before
    · rintro m found (at'' | ⟨time, at''⟩)
      · rcases getElem?_of_set at'' with ⟨-, same⟩ | ⟨-, before⟩
        · cases same
        · exact noted.outcomes m found (Or.inl before)
      · rcases getElem?_of_set at'' with ⟨rfl, same⟩ | ⟨-, before⟩
        · cases same
          exact noted.outcomes m outcome (Or.inl at')
        · exact noted.outcomes m found (Or.inr ⟨time, before⟩)

theorem recorded_callOff (recorded : Recorded s) (n : Nat) : Recorded (s.callOff n) := by
  rcases callOff_cases s n with ⟨same, -⟩ | ⟨caller, stage, known, at', busy⟩
  · exact same.symm ▸ recorded
  · rw [callOff_eq s n known at' busy]
    have off := (RecordedBut.aside recorded n).setStage .calledOff (by simp) (by simp)
    have noted := off.note _ (neutral_calledOff n s.now)
    refine ⟨noted.manifest.leave caller.key n, noted.unjoined, noted.outcomes, noted.punctual, ?_⟩
    intro m flight time logged
    have still := Agenda.now_wakeAll (s.agenda.forget (.resume n))
      ((s.flights.leave caller.key n).2.toList.map .resume)
    exact (noted.past m flight time logged).trans (Nat.le_of_eq still.symm)

theorem recorded_step (coherent : Coherent s) (timetable : Timetable s) (recorded : Recorded s)
    (stepped : s.step? = some s') : Recorded s' := by
  rcases step_cases stepped with ⟨later, -, ticked, rfl⟩ | ⟨alarm, agenda, popped, rfl⟩
  · exact recorded_agenda recorded (Agenda.now_tick ticked)
  · obtain ⟨-, -, still⟩ := Agenda.pop?_eq_some popped
    have rest : Recorded { s with agenda } := recorded_agenda recorded (Nat.le_of_eq still.symm)
    cases alarm with
    | resume n => exact recorded_resume coherent timetable recorded popped
    | callOff n => exact recorded_callOff rest n
    | count number =>
        exact ⟨rest.manifest, rest.unjoined, rest.outcomes, rest.punctual, rest.past⟩

theorem recorded_start (callers : List Caller) (countAt : List Nat) :
    Recorded (start callers countAt) := by
  rw [start_eq]
  refine RecordedBut.mk ?manifest ?unjoined ?outcomes ?punctual ?past
  case manifest => exact Manifest.empty callers
  case unjoined =>
    intro n flight _ _ aboard
    cases aboard
  case outcomes =>
    rintro n outcome (at' | ⟨time, at'⟩)
    all_goals
      rw [List.getElem?_map] at at'
      obtain ⟨caller, -, same⟩ := Option.map_eq_some_iff.mp at'
      cases same
  case punctual => exact fun n caller flight time logged => nomatch logged
  case past => exact fun n flight time logged => nomatch logged

end Turns

/-- What holds in every state that a run passes. -/
structure Sound (s : Sharing) : Prop where
  coherent : Coherent s
  timetable : Timetable s
  recorded : Recorded s

theorem sound_step {s s' : Sharing} (sound : Sound s) (stepped : s.step? = some s') : Sound s' where
  coherent := coherent_step sound.coherent stepped
  timetable := timetable_step sound.coherent sound.timetable stepped
  recorded := recorded_step sound.coherent sound.timetable sound.recorded stepped

theorem sound_runFor (callers : List Caller) (countAt : List Nat) (steps : Nat) :
    Sound ((start callers countAt).runFor steps) :=
  runFor_induction sound_step steps
    ⟨coherent_start callers countAt, timetable_start callers countAt,
      recorded_start callers countAt⟩

end LatencyRank.Sharing
