import Mathlib
import LatencyRank.Proofs.Sharing.Steps

/-!
Callers, flights and agenda in step. A caller's stage says whether it runs its key's work, awaits
it or has nothing to do with it, and how often it is on the agenda. Every turn of the machine keeps
that. While a caller takes its turn it is off the agenda and its stage is about to change, so the
operations are described with that caller excepted.
-/

namespace LatencyRank.Sharing

open Flights

section Placement

/-- Where a caller of a key stands, with the flights and on the agenda, at a stage. -/
def Placed (f : Flights) (a : Agenda Alarm) (key : String) (n : Nat) : CallerStage → Prop
  | .expected | .told _ =>
      ¬f.Runs key n ∧ ¬f.Awaits key n ∧ a.summons.count (.resume n) = 1
  | .waiting =>
      (f.Runs key n ∧ ¬f.Awaits key n ∧ a.summons.count (.resume n) = 1 ∧ .resume n ∈ a.ready) ∨
        (¬f.Runs key n ∧ f.Awaits key n ∧ a.summons.count (.resume n) = 0)
  | .probing => f.Runs key n ∧ ¬f.Awaits key n ∧ a.summons.count (.resume n) = 1
  | .done .. | .calledOff => ¬f.Runs key n ∧ ¬f.Awaits key n ∧ a.summons.count (.resume n) = 0

theorem placed_congr {f g : Flights} {a b : Agenda Alarm} {key : String} {n : Nat}
    {stage : CallerStage} (runs : g.Runs key n ↔ f.Runs key n)
    (awaits : g.Awaits key n ↔ f.Awaits key n)
    (same : b.summons.count (.resume n) = a.summons.count (.resume n))
    (queued : Alarm.resume n ∈ a.ready → Alarm.resume n ∈ b.ready)
    (placed : Placed f a key n stage) : Placed g b key n stage := by
  cases stage <;> simp only [Placed, runs, awaits, same] at placed ⊢
  case waiting =>
    rcases placed with ⟨one, two, three, ready⟩ | off
    · exact Or.inl ⟨one, two, three, queued ready⟩
    · exact Or.inr off
  all_goals exact placed

theorem placed_once {f : Flights} {a : Agenda Alarm} {key : String} {n : Nat} {stage : CallerStage}
    (placed : Placed f a key n stage) : a.summons.count (.resume n) ≤ 1 := by
  cases stage <;> simp only [Placed] at placed <;> omega

theorem placed_awaiting {f : Flights} {a : Agenda Alarm} {key : String} {n : Nat}
    {stage : CallerStage} (placed : Placed f a key n stage) (awaits : f.Awaits key n) :
    stage = .waiting ∧ a.summons.count (.resume n) = 0 ∧ ¬f.Runs key n := by
  cases stage <;> simp only [Placed, awaits, not_true_eq_false, false_and, and_false] at placed
  case waiting =>
    simp only [true_and, false_or] at placed
    exact ⟨rfl, placed.2, placed.1⟩

end Placement

/-- Callers, flights and agenda are in step, but for some callers. -/
structure CoherentBut (except : Nat → Prop) (s : Sharing) : Prop where
  staged : s.stages.length = s.callers.length
  placed : ∀ n caller stage, ¬except n → s.callers[n]? = some caller →
    s.stages[n]? = some stage → Placed s.flights s.agenda caller.key n stage
  aboard : ∀ key n, s.flights.Runs key n ∨ s.flights.Awaits key n →
    ∃ caller, s.callers[n]? = some caller ∧ caller.key = key
  distinct : ∀ key flight, s.flights.find? key = some flight →
    (flight.runner.toList ++ flight.waiting).Nodup
  manned : ∀ key flight, s.flights.find? key = some flight → flight.runner = none →
    flight.waiting = []

def Coherent (s : Sharing) : Prop := CoherentBut (fun _ => False) s

namespace CoherentBut

variable {s : Sharing} {n : Nat} {caller : Caller}

/-- Setting the excepted caller right puts everything in step. -/
theorem complete (others : CoherentBut (· = n) s)
    (own : ∀ caller stage, s.callers[n]? = some caller → s.stages[n]? = some stage →
      Placed s.flights s.agenda caller.key n stage) : Coherent s where
  staged := others.staged
  placed := by
    intro m caller stage _ known at'
    by_cases same : m = n
    · subst same
      exact own caller stage known at'
    · exact others.placed m caller stage same known at'
  aboard := others.aboard
  distinct := others.distinct
  manned := others.manned

theorem exists_stage {except : Nat → Prop} (others : CoherentBut except s)
    (known : s.callers[n]? = some caller) : ∃ stage, s.stages[n]? = some stage := by
  have inside : n < s.stages.length := by
    rw [others.staged]
    exact (List.getElem?_eq_some_iff.mp known).1
  exact ⟨_, List.getElem?_eq_getElem inside⟩

theorem note {except : Nat → Prop} (others : CoherentBut except s) (event : SharingEvent) :
    CoherentBut except (s.note event) :=
  ⟨others.staged, others.placed, others.aboard, others.distinct, others.manned⟩

theorem setStage (others : CoherentBut (· = n) s) (known : s.callers[n]? = some caller)
    {stage : CallerStage} (own : Placed s.flights s.agenda caller.key n stage) :
    Coherent (s.setStage n stage) where
  staged := by simpa [Sharing.setStage] using others.staged
  placed := by
    intro m other stage' _ known' at'
    rcases getElem?_of_set at' with ⟨rfl, rfl⟩ | ⟨different, before⟩
    · cases known.symm.trans known'
      exact own
    · exact others.placed m other stage' different known' before
  aboard := others.aboard
  distinct := others.distinct
  manned := others.manned

theorem wakeAfter (others : CoherentBut (· = n) s) {delay : Nat} (positive : 0 < delay) :
    CoherentBut (· = n) { s with agenda := s.agenda.wakeAfter delay (.resume n) } where
  staged := others.staged
  placed := by
    intro m other stage different known at'
    refine placed_congr Iff.rfl Iff.rfl ?_ ?_ (others.placed m other stage different known at')
    · rw [Agenda.count_summons_wakeAfter _ _ _ positive,
        if_neg fun same => different (Alarm.resume.inj same).symm, Nat.add_zero]
    · intro queued
      rwa [Agenda.ready_wakeAfter _ _ positive]
  aboard := others.aboard
  distinct := others.distinct
  manned := others.manned

theorem runner_does_not_wait {except : Nat → Prop} (others : CoherentBut except s) {key : String}
    (runs : s.flights.Runs key n) : ¬s.flights.Awaits key n := by
  rintro ⟨flight, found, waits⟩
  obtain ⟨same, found', runner⟩ := runs
  rw [found] at found'
  cases found'
  have apart := others.distinct key flight found
  rw [runner] at apart
  exact (List.nodup_cons.mp apart).1 waits

theorem waiting_of_awaits {except : Nat → Prop} (others : CoherentBut except s) {key : String}
    (included : ¬except n) (awaits : s.flights.Awaits key n) :
    ∃ caller, s.callers[n]? = some caller ∧ caller.key = key ∧ s.stages[n]? = some .waiting ∧
      s.agenda.summons.count (.resume n) = 0 := by
  obtain ⟨caller, known, mine⟩ := others.aboard key n (Or.inr awaits)
  obtain ⟨stage, at'⟩ := others.exists_stage known
  have placed := others.placed n caller stage included known at'
  rw [mine] at placed
  obtain ⟨rfl, absent, -⟩ := placed_awaiting placed awaits
  exact ⟨caller, known, mine, at', absent⟩

theorem finish (others : CoherentBut (· = n) s) (known : s.callers[n]? = some caller)
    (runs : s.flights.Runs caller.key n) (off : s.agenda.summons.count (.resume n) = 0) :
    Coherent (s.finish n caller) := by
  have notWaiting := others.runner_does_not_wait runs
  rw [finish_eq]
  refine CoherentBut.mk ?staged ?placed ?aboard ?distinct ?manned
  case staged => simpa [length_modifyAll] using others.staged
  case placed =>
    intro m other stage _ known' at'
    have known'' : s.callers[m]? = some other := known'
    rcases stage_finish s n caller (by rw [finish_eq]; exact at') with
      ⟨rfl, rfl⟩ | ⟨different, told, rfl⟩ | ⟨different, notTold, before⟩
    · rw [known] at known''
      cases known''
      refine ⟨(ashore_landed _ _ _).1, (ashore_landed _ _ _).2, ?_⟩
      rw [Agenda.count_summons_wakeAll, off]
      simp [mem_land_waiting, notWaiting]
    · -- a caller that waited: it is told and summoned
      have awaits := (mem_land_waiting _ _ _).mp told
      obtain ⟨it, itself, sameKey, -, absent⟩ := others.waiting_of_awaits different awaits
      cases known''.symm.trans itself
      rw [sameKey]
      refine ⟨(ashore_landed _ _ _).1, (ashore_landed _ _ _).2, ?_⟩
      have notQueued := Agenda.not_mem_ready absent
      rw [Agenda.count_summons_wakeAll, absent]
      simp [told, notQueued]
    · refine placed_congr (runs_land_of_ne runs different) (awaits_land_of_not_mem notTold) ?_ ?_
        (others.placed m other stage different known'' before)
      · rw [Agenda.count_summons_wakeAll]
        simp [notTold]
      · exact fun queued => (Agenda.mem_ready_wakeAll _ _ _).mpr (Or.inl queued)
  case aboard => exact fun key m aboard => others.aboard key m (aboard_of_land aboard)
  case distinct => exact fun key flight found => others.distinct key flight (open_of_land _ _ found).2
  case manned => exact fun key flight found => others.manned key flight (open_of_land _ _ found).2

theorem probe (others : CoherentBut (· = n) s) (known : s.callers[n]? = some caller)
    (runs : s.flights.Runs caller.key n) (off : s.agenda.summons.count (.resume n) = 0) :
    Coherent (s.probe n caller) := by
  have noted := others.note (.started n s.now)
  unfold Sharing.probe
  by_cases instant : caller.duration = 0
  · simp only [instant, ↓reduceIte]
    exact noted.finish known runs off
  · have positive : 0 < caller.duration := Nat.pos_of_ne_zero instant
    simp only [instant, ↓reduceIte]
    refine (noted.wakeAfter positive).setStage known ⟨runs, others.runner_does_not_wait runs, ?_⟩
    simp [Sharing.note, Agenda.count_summons_wakeAfter _ _ _ positive, off]

/-- A caller comes aboard: it runs the key's work if nobody does and awaits it otherwise. -/
theorem board (others : CoherentBut (· = n) s) (known : s.callers[n]? = some caller)
    (notRuns : ¬s.flights.Runs caller.key n) (notAwaits : ¬s.flights.Awaits caller.key n) :
    CoherentBut (· = n) { s with flights := (s.flights.join caller.key n).1 } where
  staged := others.staged
  placed := by
    intro m other stage different known' at'
    exact placed_congr (runs_join_of_ne different) (awaits_join_of_ne different) rfl id
      (others.placed m other stage different known' at')
  aboard := by
    intro key m aboard
    rcases aboard_of_join aboard with old | ⟨rfl, rfl⟩
    · exact others.aboard key m old
    · exact ⟨caller, known, rfl⟩
  distinct := by
    intro key flight found
    rcases open_of_join _ _ _ found with ⟨rfl, rfl⟩ | ⟨-, before⟩
    · cases old : s.flights.find? caller.key with
      | none => simp [boarded]
      | some flight =>
          refine (boarded_perm caller.key n _ flight).nodup_iff.mpr (List.nodup_cons.mpr ⟨?_, ?_⟩)
          · intro member
            rcases List.mem_append.mp member with runner | waits
            · exact notRuns ⟨flight, old, Option.mem_toList.mp runner⟩
            · exact notAwaits ⟨flight, old, waits⟩
          · exact others.distinct caller.key flight old
    · exact others.distinct key flight before
  manned := by
    intro key flight found
    rcases open_of_join _ _ _ found with ⟨rfl, rfl⟩ | ⟨-, before⟩
    · exact fun unmanned => absurd unmanned (manned_boarded _ _ _ _)
    · exact others.manned key flight before

theorem arrive (others : CoherentBut (· = n) s) (known : s.callers[n]? = some caller)
    (notRuns : ¬s.flights.Runs caller.key n) (notAwaits : ¬s.flights.Awaits caller.key n)
    (off : s.agenda.summons.count (.resume n) = 0) : Coherent (s.arrive n caller) := by
  have boarded := (others.board known notRuns notAwaits).note
    (.joined n (s.flights.join caller.key n).2.flight s.now)
  unfold Sharing.arrive
  by_cases runs : (s.flights.join caller.key n).2.runs = true
  · simp only [runs, ↓reduceIte]
    exact boarded.probe known ((runs_join _ _ _ _ _).mpr (Or.inr ⟨rfl, rfl, runs⟩)) off
  · simp only [runs, Bool.false_eq_true, ↓reduceIte]
    refine boarded.setStage known
      (Or.inr ⟨?_, (awaits_join _ _ _ _ _).mpr (Or.inr ⟨rfl, rfl, runs⟩), off⟩)
    intro h
    rcases (runs_join _ _ _ _ _).mp h with old | new
    · exact notRuns old
    · exact runs new.2.2

section Leaving

/-- The agenda after a caller of a key left: its heir is summoned in its place. -/
def passedOn (s : Sharing) (key : String) (n : Nat) : Agenda Alarm :=
  (s.agenda.forget (.resume n)).wakeAll ((s.flights.leave key n).2.toList.map .resume)

theorem distinct_leave {f : Flights} {key : String}
    (distinct : ∀ key flight, f.find? key = some flight →
      (flight.runner.toList ++ flight.waiting).Nodup) {other : String} {flight : Flight}
    (found : (f.leave key n).1.find? other = some flight) :
    (flight.runner.toList ++ flight.waiting).Nodup := by
  rw [find?_leave] at found
  split at found
  · obtain ⟨old, found', rfl⟩ := Option.map_eq_some_iff.mp found
    have apart := distinct key old found'
    unfold without
    split
    · cases shape : old.waiting with
      | nil => simp
      | cons first rest =>
          rw [shape] at apart
          simpa using (List.nodup_append.mp apart).2.1
    · exact apart.sublist ((List.Sublist.refl _).append List.filter_sublist)
  · exact distinct other flight found

theorem manned_leave {f : Flights} {key : String}
    (manned : ∀ key flight, f.find? key = some flight → flight.runner = none → flight.waiting = [])
    {other : String} {flight : Flight} (found : (f.leave key n).1.find? other = some flight)
    (unmanned : flight.runner = none) : flight.waiting = [] := by
  rw [find?_leave] at found
  split at found
  · obtain ⟨old, found', rfl⟩ := Option.map_eq_some_iff.mp found
    unfold without at unmanned ⊢
    split at unmanned
    · rename_i runner
      simp only [runner, ↓reduceIte]
      rw [List.head?_eq_none_iff.mp unmanned]
      rfl
    · rename_i runner
      simp only [runner, ↓reduceIte]
      rw [manned key old found' unmanned]
      rfl
  · exact manned other flight found unmanned

variable (coherent : Coherent s) (key : String) (n : Nat)

include coherent

theorem heir_apart : (s.flights.leave key n).2 ≠ some n := by
  intro itself
  obtain ⟨runs, waits⟩ := awaits_of_heir itself
  exact coherent.runner_does_not_wait runs waits

theorem placed_leaver :
    Placed (s.flights.leave key n).1 (passedOn s key n) key n .calledOff := by
  have apart := heir_apart coherent key n
  refine ⟨?_, ?_, ?_⟩
  · intro h
    rcases (runs_leave _ _ _ _ _).mp h with ⟨-, -, itself⟩ | ⟨-, differs⟩
    · exact apart itself
    · exact differs ⟨rfl, rfl⟩
  · intro h
    exact ((awaits_leave _ _ _ (coherent.distinct key) _ _).mp h).2 ⟨rfl, Or.inl rfl⟩
  · rw [passedOn, Agenda.count_summons_wakeAll, Agenda.count_summons_forget, if_pos rfl]
    simpa using fun itself => absurd itself apart

/-- The heir waited unsummoned; now it runs the work and is queued. -/
theorem placed_heir {m : Nat} (heir : (s.flights.leave key n).2 = some m) {stage : CallerStage}
    (before : Placed s.flights s.agenda key m stage) :
    Placed (s.flights.leave key n).1 (passedOn s key n) key m stage := by
  obtain ⟨runs, waits⟩ := awaits_of_heir heir
  obtain ⟨rfl, absent, -⟩ := placed_awaiting before waits
  have forgets : Alarm.resume n ≠ Alarm.resume m := fun h =>
    heir_apart coherent key n (Alarm.resume.inj h ▸ heir)
  refine Or.inl ⟨(runs_leave _ _ _ _ _).mpr (Or.inl ⟨rfl, runs, heir⟩), ?_, ?_, ?_⟩
  · intro h
    exact ((awaits_leave _ _ _ (coherent.distinct key) _ _).mp h).2 ⟨rfl, Or.inr heir⟩
  · have notQueued := Agenda.not_mem_ready absent
    rw [passedOn, Agenda.count_summons_wakeAll, Agenda.count_summons_forget, if_neg forgets, absent]
    simp [heir, Agenda.mem_ready_forget, notQueued]
  · exact (Agenda.mem_ready_wakeAll _ _ _).mpr (Or.inr (by simp [heir]))

theorem placed_beside {m : Nat} (different : n ≠ m) (notHeir : (s.flights.leave key n).2 ≠ some m)
    {key' : String} {stage : CallerStage} (before : Placed s.flights s.agenda key' m stage) :
    Placed (s.flights.leave key n).1 (passedOn s key n) key' m stage := by
  have forgets : Alarm.resume n ≠ Alarm.resume m := fun h => different (Alarm.resume.inj h)
  refine placed_congr ?_ ?_ ?_ ?_ before
  · rw [runs_leave]
    constructor
    · rintro (⟨-, -, itself⟩ | ⟨runs, -⟩)
      · exact absurd itself notHeir
      · exact runs
    · exact fun runs => Or.inr ⟨runs, fun both => different both.2.symm⟩
  · rw [awaits_leave _ _ _ (coherent.distinct key)]
    refine ⟨fun h => h.1, fun h => ⟨h, ?_⟩⟩
    rintro ⟨-, rfl | itself⟩
    · exact different rfl
    · exact notHeir itself
  · rw [passedOn, Agenda.count_summons_wakeAll, Agenda.count_summons_forget, if_neg forgets]
    simpa using fun itself => absurd itself notHeir
  · intro queued
    refine (Agenda.mem_ready_wakeAll _ _ _).mpr (Or.inl ?_)
    exact (Agenda.mem_ready_forget _ _ _).mpr ⟨queued, forgets.symm⟩

end Leaving

/-- The longest waiting caller takes over from a runner that leaves, and nobody else is touched. -/
theorem leave (coherent : Coherent s) (known : s.callers[n]? = some caller) :
    Coherent
      { s with
        flights := (s.flights.leave caller.key n).1
        stages := s.stages.set n .calledOff
        agenda := (s.agenda.forget (.resume n)).wakeAll
          ((s.flights.leave caller.key n).2.toList.map .resume) } := by
  constructor
  case staged => simpa using coherent.staged
  case placed =>
    intro m other stage' _ known' at''
    rcases getElem?_of_set at'' with ⟨rfl, rfl⟩ | ⟨different, old⟩
    · cases known.symm.trans known'
      exact placed_leaver coherent caller.key m
    · have before := coherent.placed m other stage' id known' old
      by_cases heir : (s.flights.leave caller.key n).2 = some m
      · obtain ⟨it, known'', sameKey⟩ := coherent.aboard caller.key m (Or.inr (awaits_of_heir heir).2)
        cases (show s.callers[m]? = some other from known').symm.trans known''
        rw [sameKey] at before ⊢
        exact placed_heir coherent caller.key n heir before
      · exact placed_beside coherent caller.key n different.symm heir before
  case aboard =>
    rintro key m (h | h)
    · rcases (runs_leave _ _ _ _ _).mp h with ⟨rfl, -, heir⟩ | ⟨runs, -⟩
      · exact coherent.aboard _ m (Or.inr (awaits_of_heir heir).2)
      · exact coherent.aboard key m (Or.inl runs)
    · exact coherent.aboard key m
        (Or.inr ((awaits_leave _ _ _ (coherent.distinct caller.key) _ _).mp h).1)
  case distinct => exact fun key flight found => distinct_leave coherent.distinct found
  case manned => exact fun key flight found => manned_leave coherent.manned found

end CoherentBut

section Runners

variable {s : Sharing} {n : Nat} {caller : Caller}

theorem stage_of_runs (coherent : Coherent s) {key : String} (runs : s.flights.Runs key n) :
    ∃ caller, s.callers[n]? = some caller ∧ caller.key = key ∧
      (s.stages[n]? = some .probing ∨ (s.stages[n]? = some .waiting ∧ .resume n ∈ s.agenda.ready)) := by
  obtain ⟨caller, known, mine⟩ := coherent.aboard key n (Or.inl runs)
  obtain ⟨stage, at'⟩ := coherent.exists_stage known
  have placed := coherent.placed n caller stage id known at'
  rw [mine] at placed
  refine ⟨caller, known, mine, ?_⟩
  cases stage with
  | waiting =>
      rcases placed with ⟨-, -, -, queued⟩ | ⟨notRuns, -, -⟩
      · exact Or.inr ⟨at', queued⟩
      · exact absurd runs notRuns
  | probing => exact Or.inl at'
  | expected => exact absurd runs placed.1
  | told outcome => exact absurd runs placed.1
  | done outcome time => exact absurd runs placed.1
  | calledOff => exact absurd runs placed.1

/-- Whoever waits shares its flight with a caller that probes or is about to. -/
theorem runner_of_waiting (coherent : Coherent s) (known : s.callers[n]? = some caller)
    (waits : s.stages[n]? = some .waiting) :
    ∃ r other, s.callers[r]? = some other ∧ other.key = caller.key ∧ s.flights.Runs caller.key r ∧
      (s.stages[r]? = some .probing ∨ (s.stages[r]? = some .waiting ∧ .resume r ∈ s.agenda.ready)) := by
  have runner : ∃ r, s.flights.Runs caller.key r := by
    rcases coherent.placed n caller _ id known waits with ⟨runs, -⟩ | ⟨-, ⟨flight, found, awaited⟩, -⟩
    · exact ⟨n, runs⟩
    · cases manned : flight.runner with
      | none =>
          rw [coherent.manned caller.key flight found manned] at awaited
          cases awaited
      | some r => exact ⟨r, flight, found, manned⟩
  obtain ⟨r, runs⟩ := runner
  obtain ⟨other, known', mine, stage⟩ := stage_of_runs coherent runs
  exact ⟨r, other, known', mine, runs, stage⟩

end Runners

section Turns

variable {s : Sharing}

theorem coherent_callOff (coherent : Coherent s) (n : Nat) : Coherent (s.callOff n) := by
  rcases callOff_cases s n with ⟨same, -⟩ | ⟨caller, stage, known, at', busy⟩
  · exact same.symm ▸ coherent
  · rw [callOff_eq s n known at' busy]
    exact (CoherentBut.leave coherent known).note _

theorem CoherentBut.others_pop (coherent : Coherent s) {agenda : Agenda Alarm} {n : Nat}
    (popped : s.agenda.pop? = some (.resume n, agenda)) :
    CoherentBut (· = n) { s with agenda } := by
  obtain ⟨shape, -, -⟩ := Agenda.pop?_eq_some popped
  refine ⟨coherent.staged, ?_, coherent.aboard, coherent.distinct, coherent.manned⟩
  intro m caller stage different known at'
  refine placed_congr Iff.rfl Iff.rfl ?_ ?_ (coherent.placed m caller stage id known at')
  · rw [Agenda.count_summons_pop popped, if_neg (fun h => different (Alarm.resume.inj h).symm),
      Nat.add_zero]
  · intro queued
    rw [shape, List.mem_cons] at queued
    exact queued.resolve_left fun h => different (Alarm.resume.inj h)

theorem coherent_resume (coherent : Coherent s) {agenda : Agenda Alarm} {n : Nat}
    (popped : s.agenda.pop? = some (.resume n, agenda)) :
    Coherent (Sharing.resume { s with agenda } n) := by
  have others := CoherentBut.others_pop coherent popped
  have own := Agenda.count_summons_pop popped (.resume n)
  rw [if_pos rfl] at own
  have off (once : s.agenda.summons.count (.resume n) = 1) :
      agenda.summons.count (.resume n) = 0 := by omega
  apply resume_cases
  case spared =>
    refine fun ended => others.complete fun caller stage known at' => ?_
    -- a caller that is over is not summoned, so this turn is not its own
    have placed := coherent.placed n caller stage id known at'
    rcases ended caller stage known at' with ⟨outcome, time, rfl⟩ | rfl <;>
      exact absurd placed.2.2 (by omega)
  case expected =>
    intro caller known at'
    have placed := coherent.placed n caller _ id known at'
    exact others.arrive known placed.1 placed.2.1 (off placed.2.2)
  case waiting =>
    intro caller known at'
    rcases coherent.placed n caller _ id known at' with ⟨runs, -, once, -⟩ | ⟨-, -, absent⟩
    · exact others.probe known runs (off once)
    · omega
  case probing =>
    intro caller known at'
    have placed := coherent.placed n caller _ id known at'
    exact others.finish known placed.1 (off placed.2.2)
  case told =>
    intro caller outcome known at'
    have placed := coherent.placed n caller _ id known at'
    have done : Placed s.flights agenda caller.key n (.done outcome agenda.now) :=
      ⟨placed.1, placed.2.1, off placed.2.2⟩
    exact (others.setStage known done).note _

theorem coherent_pop (coherent : Coherent s) {agenda : Agenda Alarm} {alarm : Alarm}
    (popped : s.agenda.pop? = some (alarm, agenda)) (foreign : ∀ n, alarm ≠ .resume n) :
    Coherent { s with agenda } := by
  obtain ⟨shape, -, -⟩ := Agenda.pop?_eq_some popped
  refine ⟨coherent.staged, ?_, coherent.aboard, coherent.distinct, coherent.manned⟩
  intro n caller stage _ known at'
  refine placed_congr Iff.rfl Iff.rfl ?_ ?_ (coherent.placed n caller stage id known at')
  · rw [Agenda.count_summons_pop popped, if_neg (foreign n), Nat.add_zero]
  · intro queued
    rw [shape, List.mem_cons] at queued
    exact queued.resolve_left fun h => foreign n h.symm

theorem coherent_step {s s' : Sharing} (coherent : Coherent s) (stepped : s.step? = some s') :
    Coherent s' := by
  rcases step_cases stepped with ⟨later, -, ticked, rfl⟩ | ⟨alarm, agenda, popped, rfl⟩
  · refine ⟨coherent.staged, ?_, coherent.aboard, coherent.distinct, coherent.manned⟩
    intro n caller stage _ known at'
    have before := coherent.placed n caller stage id known at'
    refine placed_congr Iff.rfl Iff.rfl ?_ ?_ before
    · exact Agenda.count_summons_tick ticked (placed_once before)
    · exact Agenda.mem_ready_tick ticked
  · cases alarm with
    | resume n => exact coherent_resume coherent popped
    | callOff n => exact coherent_callOff (coherent_pop coherent popped fun m => by simp) n
    | count number =>
        have rest := coherent_pop coherent popped (fun m => by simp)
        exact ⟨rest.staged, rest.placed, rest.aboard, rest.distinct, rest.manned⟩

end Turns

end LatencyRank.Sharing
