import Mathlib
import LatencyRank.Proofs.Sharing.Termination

/-!
The agenda over a run. A turn puts nobody on the agenda but callers that have come, so a caller that
is expected is summoned at its arrival and not before, nobody is called off who did not ask for it,
and once time has moved a call-off has its instant to itself.
-/

namespace LatencyRank.Sharing

open Flights

section Turn

/-- What the turn of an alarm leaves as it was, and how far it may change the rest. -/
structure Follows (alarm : Alarm) (s s' : Sharing) : Prop where
  callers : s'.callers = s.callers
  now : s'.now = s.now
  log : s.log <:+ s'.log
  ready : ∀ other ∈ s'.agenda.ready, other ∈ s.agenda.ready ∨
    ∃ m, other = .resume m ∧ s'.stages[m]? ≠ some .expected
  sleeping : ∀ waking ∈ s'.agenda.sleeping, waking ∈ s.agenda.sleeping ∨
    ∃ m, waking.2 = .resume m ∧ s'.stages[m]? ≠ some .expected
  expected : ∀ m : Nat, s'.stages[m]? = some .expected → s.stages[m]? = some .expected
  off : ∀ m : Nat, s'.stages[m]? = some .calledOff →
    s.stages[m]? = some .calledOff ∨ alarm = .callOff m
  awaits : ∀ key m, alarm ≠ .resume m → s'.flights.Awaits key m → s.flights.Awaits key m
  kept : ∀ m : Nat, alarm ≠ .resume m → alarm ≠ .callOff m →
    s'.stages[m]? = s.stages[m]? ∨ ∃ key, s.flights.Awaits key m

namespace Follows

variable {alarm : Alarm} {s s' s'' : Sharing}

theorem refl (alarm : Alarm) (s : Sharing) : Follows alarm s s where
  callers := rfl
  now := rfl
  log := List.suffix_rfl
  ready := fun _ queued => Or.inl queued
  sleeping := fun _ asleep => Or.inl asleep
  expected := fun _ at' => at'
  off := fun _ at' => Or.inl at'
  awaits := fun _ _ _ waits => waits
  kept := fun _ _ _ => Or.inl rfl

theorem trans (first : Follows alarm s s') (second : Follows alarm s' s'') :
    Follows alarm s s'' where
  callers := second.callers.trans first.callers
  now := second.now.trans first.now
  log := first.log.trans second.log
  ready := by
    intro other queued
    rcases second.ready other queued with before | new
    · rcases first.ready other before with old | ⟨m, rfl, came⟩
      · exact Or.inl old
      · exact Or.inr ⟨m, rfl, fun at' => came (second.expected m at')⟩
    · exact Or.inr new
  sleeping := by
    intro waking asleep
    rcases second.sleeping waking asleep with before | new
    · rcases first.sleeping waking before with old | ⟨m, mine, came⟩
      · exact Or.inl old
      · exact Or.inr ⟨m, mine, fun at' => came (second.expected m at')⟩
    · exact Or.inr new
  expected := fun m at' => first.expected m (second.expected m at')
  off := by
    intro m at'
    rcases second.off m at' with before | mine
    · exact first.off m before
    · exact Or.inr mine
  awaits := fun key m other waits => first.awaits key m other (second.awaits key m other waits)
  kept := by
    intro m resumes leaves
    rcases second.kept m resumes leaves with same | ⟨key, waits⟩
    · rw [same]
      exact first.kept m resumes leaves
    · exact Or.inr ⟨key, first.awaits key m resumes waits⟩

end Follows

variable (s : Sharing) (n : Nat) (caller : Caller)

theorem follows_setStage {alarm : Alarm} (own : alarm = .resume n ∨ alarm = .callOff n)
    (stage : CallerStage) (event : SharingEvent) (came : stage ≠ .expected)
    (stays : stage = .calledOff → alarm = .callOff n) :
    Follows alarm s ((s.setStage n stage).note event) where
  callers := rfl
  now := rfl
  log := List.suffix_cons _ _
  ready := fun _ queued => Or.inl queued
  sleeping := fun _ asleep => Or.inl asleep
  expected := by
    intro m at'
    rcases getElem?_of_set at' with ⟨-, same⟩ | ⟨-, before⟩
    · exact absurd same.symm came
    · exact before
  off := by
    intro m at'
    rcases getElem?_of_set at' with ⟨rfl, same⟩ | ⟨-, before⟩
    · exact Or.inr (stays same.symm)
    · exact Or.inl before
  awaits := fun _ _ _ waits => waits
  kept := by
    intro m resumes leaves
    refine Or.inl (List.getElem?_set_ne ?_)
    rintro rfl
    exact own.elim resumes leaves

theorem follows_note (alarm : Alarm) (event : SharingEvent) : Follows alarm s (s.note event) :=
  have same := Follows.refl alarm s
  ⟨rfl, rfl, List.suffix_cons _ _, same.ready, same.sleeping, same.expected, same.off, same.awaits,
    same.kept⟩

theorem follows_finish : Follows (.resume n) s (s.finish n caller) where
  callers := callers_finish s n caller
  now := by
    rw [finish_eq]
    exact Agenda.now_wakeAll _ _
  log := by
    rw [finish_eq]
    exact (List.suffix_cons _ _).trans (List.suffix_cons _ _)
  ready := by
    intro other queued
    have shape : (s.finish n caller).agenda =
        s.agenda.wakeAll ((s.flights.land caller.key).2.map .resume) := by rw [finish_eq]
    rw [shape, Agenda.mem_ready_wakeAll] at queued
    rcases queued with old | told
    · exact Or.inl old
    · obtain ⟨m, listed, rfl⟩ := List.mem_map.mp told
      refine Or.inr ⟨m, rfl, fun at' => ?_⟩
      rcases stage_finish s n caller at' with ⟨-, other⟩ | ⟨-, -, other⟩ | ⟨-, notTold, -⟩
      · cases other
      · cases other
      · exact notTold listed
  sleeping := by
    intro waking asleep
    rw [finish_eq] at asleep
    exact Or.inl (by simpa using asleep)
  expected := by
    intro m at'
    rcases stage_finish s n caller at' with ⟨-, other⟩ | ⟨-, -, other⟩ | ⟨-, -, before⟩
    · cases other
    · cases other
    · exact before
  off := by
    intro m at'
    rcases stage_finish s n caller at' with ⟨-, other⟩ | ⟨-, -, other⟩ | ⟨-, -, before⟩
    · cases other
    · cases other
    · exact Or.inl before
  awaits := by
    intro key m _ waits
    rw [finish_eq] at waits
    exact ((awaits_land _ _ _ _).mp waits).2
  kept := by
    intro m resumes _
    have different : n ≠ m := fun same => resumes (same ▸ rfl)
    by_cases told : m ∈ (s.flights.land caller.key).2
    · exact Or.inr ⟨caller.key, (mem_land_waiting _ _ _).mp told⟩
    · refine Or.inl ?_
      rw [finish_eq]
      rw [List.getElem?_set_ne different,
        getElem?_modifyAll (fun _ => CallerStage.told caller.probe) fun _ => rfl, if_neg told]

theorem follows_probe : Follows (.resume n) s (s.probe n caller) := by
  unfold probe
  by_cases instant : caller.duration = 0
  · simp only [instant, ↓reduceIte]
    exact (follows_note s (.resume n) _).trans (follows_finish _ n caller)
  · have positive : 0 < caller.duration := Nat.pos_of_ne_zero instant
    simp only [instant, ↓reduceIte]
    have before := follows_setStage s n (Or.inl rfl) .probing (.started n s.now) (by simp) (by simp)
    -- The one new waking is its own, and it is probing by then.
    refine ⟨rfl, Agenda.now_wakeAfter _ _ _, before.log, ?_, ?_, before.expected, before.off,
      before.awaits, before.kept⟩
    · intro other queued
      simp only [Agenda.ready_wakeAfter _ _ positive] at queued
      exact Or.inl queued
    · intro waking asleep
      simp only [note, Agenda.mem_sleeping_wakeAfter _ _ positive] at asleep
      rcases asleep with old | rfl
      · exact Or.inl old
      · refine Or.inr ⟨n, rfl, ?_⟩
        simp only [setStage, note, List.getElem?_set_self']
        cases s.stages[n]? <;> simp

theorem follows_arrive : Follows (.resume n) s (s.arrive n caller) := by
  unfold arrive
  have awaits : ∀ key m, Alarm.resume n ≠ .resume m →
      (s.flights.join caller.key n).1.Awaits key m → s.flights.Awaits key m := by
    intro key m resumes waits
    rcases (awaits_join _ _ _ _ _).mp waits with old | ⟨-, same, -⟩
    · exact old
    · exact absurd (congrArg Alarm.resume same.symm) resumes
  have boarded : Follows (.resume n) s
      (Sharing.note { s with flights := (s.flights.join caller.key n).1 }
        (.joined n (s.flights.join caller.key n).2.flight s.now)) :=
    have same := Follows.refl (.resume n) s
    ⟨rfl, rfl, List.suffix_cons _ _, same.ready, same.sleeping, same.expected, same.off, awaits,
      same.kept⟩
  by_cases runs : (s.flights.join caller.key n).2.runs = true
  · simp only [runs, ↓reduceIte]
    exact boarded.trans (follows_probe _ n caller)
  · simp only [runs, Bool.false_eq_true, ↓reduceIte]
    have waits := follows_setStage s n (Or.inl rfl) .waiting
      (.joined n (s.flights.join caller.key n).2.flight s.now) (by simp) (by simp)
    exact ⟨waits.callers, waits.now, waits.log, waits.ready, waits.sleeping, waits.expected,
      waits.off, awaits, waits.kept⟩

theorem follows_resume : Follows (.resume n) s (s.resume n) := by
  apply resume_cases
  case spared => exact fun _ => Follows.refl _ s
  case expected => exact fun caller _ _ => follows_arrive s n caller
  case waiting => exact fun caller _ _ => follows_probe s n caller
  case probing => exact fun caller _ _ => follows_finish s n caller
  case told =>
    intro caller outcome _ _
    exact follows_setStage s n (Or.inl rfl) (.done outcome s.now) (.answered n s.now) (by simp)
      (by simp)

theorem follows_callOff {s : Sharing} (coherent : Coherent s) (n : Nat) :
    Follows (.callOff n) s (s.callOff n) := by
  rcases callOff_cases s n with ⟨same, -⟩ | ⟨caller, stage, known, at', busy⟩
  · exact same.symm ▸ Follows.refl (.callOff n) s
  rw [callOff_eq s n known at' busy]
  have off := follows_setStage s n (Or.inr rfl) .calledOff (.calledOff n s.now) (by simp)
    (fun _ => rfl)
  constructor
  case callers => exact rfl
  case now => exact Agenda.now_wakeAll _ _
  case log => exact off.log
  case ready =>
    intro other queued
    rw [Agenda.mem_ready_wakeAll, Agenda.mem_ready_forget] at queued
    rcases queued with old | heirs
    · exact Or.inl old.1
    · -- the heir waited, so it had come
      obtain ⟨m, heir, rfl⟩ := List.mem_map.mp heirs
      have waits := (awaits_of_heir (Option.mem_toList.mp heir)).2
      refine Or.inr ⟨m, rfl, fun expected => ?_⟩
      obtain ⟨-, -, -, waiting, -⟩ := coherent.waiting_of_awaits id waits
      cases waiting.symm.trans (off.expected m expected)
  case sleeping =>
    intro waking asleep
    rw [Agenda.sleeping_wakeAll] at asleep
    exact Or.inl (List.mem_filter.mp asleep).1
  case expected => exact off.expected
  case off => exact off.off
  case awaits =>
    intro key m _ waits
    exact ((awaits_leave _ _ _ (coherent.distinct caller.key) _ _).mp waits).1
  case kept => exact off.kept

theorem follows_handle {s : Sharing} (coherent : Coherent s) {alarm : Alarm} {agenda : Agenda Alarm}
    (popped : s.agenda.pop? = some (alarm, agenda)) :
    Follows alarm { s with agenda } (Sharing.handle { s with agenda } alarm) := by
  cases alarm with
  | resume n => exact follows_resume { s with agenda } n
  | callOff n => exact follows_callOff (coherent_pop coherent popped fun m => by simp) n
  | count number =>
      have same := Follows.refl (.count number) { s with agenda }
      exact ⟨rfl, rfl, same.log, same.ready, same.sleeping, same.expected, same.off, same.awaits,
        same.kept⟩

end Turn

/-- Who is on the agenda, and when. -/
structure Timetable (s : Sharing) : Prop where
  asleep : ∀ (n : Nat) (caller : Caller) (time : Nat), s.callers[n]? = some caller →
    s.stages[n]? = some .expected → (time, .resume n) ∈ s.agenda.sleeping → caller.arrival ≤ time
  due : ∀ (n : Nat) (caller : Caller), s.callers[n]? = some caller →
    s.stages[n]? = some .expected → .resume n ∈ s.agenda.ready → caller.arrival ≤ s.now
  withdrawals : ∀ n, .callOff n ∈ s.agenda.summons →
    ∃ caller : Caller, s.callers[n]? = some caller ∧ caller.calledOff ≠ none
  willing : ∀ n : Nat, s.stages[n]? = some .calledOff →
    ∃ caller : Caller, s.callers[n]? = some caller ∧ caller.calledOff ≠ none
  alone : 0 < s.now → ∀ n, .callOff n ∈ s.agenda.ready → s.agenda.ready = [.callOff n]

section Timetables

variable {s s' : Sharing}

theorem timetable_turn (coherent : Coherent s) (timetable : Timetable s) {alarm : Alarm}
    {agenda : Agenda Alarm} (popped : s.agenda.pop? = some (alarm, agenda)) :
    Timetable (Sharing.handle { s with agenda } alarm) := by
  have follows := follows_handle coherent popped
  obtain ⟨shape, sleeping, now⟩ := Agenda.pop?_eq_some popped
  generalize Sharing.handle { s with agenda } alarm = s' at follows
  have kept : ∀ other ∈ agenda.ready, other ∈ s.agenda.ready := by
    intro other queued
    rw [shape]
    exact List.mem_cons_of_mem _ queued
  constructor
  case asleep =>
    intro n caller time known expected asleep
    rw [follows.callers] at known
    rcases follows.sleeping _ asleep with old | ⟨m, same, came⟩
    · exact timetable.asleep n caller time known (follows.expected n expected) (sleeping ▸ old)
    · cases same
      exact absurd expected came
  case due =>
    intro n caller known expected queued
    rw [follows.callers] at known
    rcases follows.ready _ queued with old | ⟨m, same, came⟩
    · have early := timetable.due n caller known (follows.expected n expected) (kept _ old)
      rw [follows.now]
      exact early.trans (Nat.le_of_eq now.symm)
    · cases same
      exact absurd expected came
  case withdrawals =>
    intro n summoned
    rw [follows.callers]
    refine timetable.withdrawals n ?_
    rcases List.mem_append.mp summoned with queued | asleep
    · rcases follows.ready _ queued with old | ⟨m, same, -⟩
      · exact List.mem_append_left _ (kept _ old)
      · cases same
    · obtain ⟨waking, member, mine⟩ := List.mem_map.mp asleep
      rcases follows.sleeping _ member with old | ⟨m, same, -⟩
      · exact List.mem_append_right _ (List.mem_map.mpr ⟨waking, sleeping ▸ old, mine⟩)
      · rw [mine] at same
        cases same
  case willing =>
    intro n off
    rw [follows.callers]
    rcases follows.off n off with old | rfl
    · exact timetable.willing n old
    · exact timetable.withdrawals n (List.mem_append_left _ (shape ▸ List.mem_cons_self))
  case alone =>
    intro later n queued
    rw [follows.now] at later
    rcases follows.ready _ queued with old | ⟨m, same, -⟩
    · -- the queue held the call-off alone, and that one was taken
      have single := timetable.alone (Nat.lt_of_lt_of_eq later now) n (kept _ old)
      rw [shape] at single
      rw [(List.cons.inj single).2] at old
      cases old
    · cases same

theorem timetable_tick (timetable : Timetable s) {agenda : Agenda Alarm}
    (idle : s.agenda.ready = []) (ticked : s.agenda.tick? = some agenda) :
    Timetable { s with agenda } := by
  obtain ⟨time, task, rest, shape, rfl⟩ := Agenda.tick?_eq_some ticked
  -- the queue was empty, so the task that time has come for is all there is
  have awake : ∀ other, other ∈ (({ s.agenda with now := max s.agenda.now time, sleeping := rest } :
      Agenda Alarm).wake task).ready → other = task := by
    intro other queued
    rw [Agenda.mem_ready_wake, idle] at queued
    simpa using queued
  constructor
  case asleep =>
    intro n caller moment known expected asleep
    simp only [Agenda.sleeping_wake] at asleep
    exact timetable.asleep n caller moment known expected (shape ▸ List.mem_cons_of_mem _ asleep)
  case due =>
    intro n caller known expected queued
    have mine := awake _ queued
    have early := timetable.asleep n caller time known expected
      (shape ▸ mine ▸ List.mem_cons_self)
    simp only [now, Agenda.now_wake]
    exact early.trans (Nat.le_max_right _ _)
  case withdrawals =>
    intro n summoned
    refine timetable.withdrawals n ?_
    simp only [Agenda.summons, Agenda.sleeping_wake, List.mem_append, shape, List.map_cons,
      List.mem_cons] at summoned ⊢
    rcases summoned with queued | asleep
    · exact Or.inr (Or.inl (awake _ queued))
    · exact Or.inr (Or.inr asleep)
  case willing => exact timetable.willing
  case alone =>
    intro _ n queued
    rw [awake _ queued]
    simp [Agenda.wake, idle]

theorem timetable_step (coherent : Coherent s) (timetable : Timetable s)
    (stepped : s.step? = some s') : Timetable s' := by
  rcases step_cases stepped with ⟨later, idle, ticked, rfl⟩ | ⟨alarm, agenda, popped, rfl⟩
  · exact timetable_tick timetable idle ticked
  · exact timetable_turn coherent timetable popped

theorem callOff_of_listed {callers : List Caller} {countAt : List Nat} {n time : Nat}
    (listed : (time, .callOff n) ∈ alarms callers countAt) :
    ∃ caller : Caller, callers[n]? = some caller ∧ caller.calledOff ≠ none := by
  rcases mem_alarms callers countAt listed with ⟨k, same⟩ | ⟨k, it, -, same, -⟩ |
    ⟨k, it, known, same, off⟩
  · cases same
  · cases same
  · cases same
    exact ⟨it, known, by simp [off]⟩

theorem arrival_of_listed {callers : List Caller} {countAt : List Nat} {n time : Nat} {caller : Caller}
    (known : callers[n]? = some caller) (listed : (time, .resume n) ∈ alarms callers countAt) :
    time = caller.arrival := by
  rcases mem_alarms callers countAt listed with ⟨k, same⟩ | ⟨k, it, known', same, time⟩ |
    ⟨k, it, -, same, -⟩
  · cases same
  · cases same
    rw [known] at known'
    cases known'
    exact time
  · cases same

theorem timetable_start (callers : List Caller) (countAt : List Nat) :
    Timetable (start callers countAt) := by
  rw [start_eq]
  have never : ∀ n : Nat, (callers.map fun _ => CallerStage.expected)[n]? ≠ some .calledOff := by
    intro n off
    rw [List.getElem?_map] at off
    obtain ⟨caller, -, same⟩ := Option.map_eq_some_iff.mp off
    cases same
  constructor
  case asleep =>
    intro n caller time known _ asleep
    rcases Agenda.mem_sleeping_enter asleep with old | ⟨delay, listed, moment⟩
    · cases old
    · have early := arrival_of_listed known listed
      simp only at moment
      omega
  case due =>
    intro n caller known _ queued
    rcases Agenda.mem_ready_enter queued with old | listed
    · cases old
    · have early := arrival_of_listed known listed
      omega
  case withdrawals =>
    intro n summoned
    rcases List.mem_append.mp summoned with queued | asleep
    · rcases Agenda.mem_ready_enter queued with old | listed
      · cases old
      · exact callOff_of_listed listed
    · obtain ⟨waking, member, same⟩ := List.mem_map.mp asleep
      rcases Agenda.mem_sleeping_enter member with old | ⟨delay, listed, -⟩
      · cases old
      · exact callOff_of_listed (same ▸ listed)
  case willing => exact fun n off => absurd off (never n)
  case alone =>
    intro later
    simp only [now, Agenda.now_enter] at later
    exact absurd later (Nat.lt_irrefl 0)

theorem log_step (coherent : Coherent s) (stepped : s.step? = some s') : s.log <:+ s'.log := by
  rcases step_cases stepped with ⟨later, -, -, rfl⟩ | ⟨alarm, agenda, popped, rfl⟩
  · exact List.suffix_rfl
  · exact (follows_handle coherent popped).log

theorem log_runFor (coherent : Coherent s) (fuel : Nat) : s.log <:+ (s.runFor fuel).log :=
  runFor_coherent (motive := fun s' => s.log <:+ s'.log)
    (fun coherent' longer stepped => longer.trans (log_step coherent' stepped)) fuel coherent
    List.suffix_rfl

end Timetables

end LatencyRank.Sharing
