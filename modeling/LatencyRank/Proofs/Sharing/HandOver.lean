import Mathlib
import LatencyRank.Proofs.Sharing.SingleFlight
import LatencyRank.Proofs.Sharing.Succession

/-!
Hand-over. A flight whose runner is called off goes on at once with the next of those who wait for
it, so nobody waits in vain. A flight that everybody left stays open for the next caller of its key.
-/

namespace LatencyRank.Sharing

open Flights

/-- The caller has not come yet, or is done, or was called off. -/
def Idle : CallerStage → Prop
  | .expected | .done .. | .calledOff => True
  | .waiting | .probing | .told _ => False

/-- Nobody of the key is under way. -/
def Quiet (s : Sharing) (key : String) : Prop :=
  ∀ (m : Nat) (caller : Caller) stage, s.callers[m]? = some caller → caller.key = key →
    s.stages[m]? = some stage → Idle stage

section Heirs

variable {s : Sharing}

theorem sublist_eq_filter {items fewer : List Nat} (distinct : items.Nodup)
    (sublist : fewer.Sublist items) (chosen : Nat → Bool)
    (member : ∀ m ∈ items, m ∈ fewer ↔ chosen m = true) : fewer = items.filter chosen := by
  have kept : fewer.filter chosen = fewer :=
    List.filter_eq_self.mpr fun m listed => (member m (sublist.subset listed)).mp listed
  have within : fewer.Sublist (items.filter chosen) := kept ▸ sublist.filter chosen
  refine within.eq_of_length_le ?_
  refine ((distinct.filter chosen).subperm fun m listed => ?_).length_le
  obtain ⟨listed, holds⟩ := List.mem_filter.mp listed
  exact (member m listed).mpr holds

theorem waiting_eq (sound : Sound s) {key : String} {flight : Flight} {n : Nat}
    (found : s.flights.find? key = some flight) (runner : flight.runner = some n)
    (probes : s.stages[n]? = some .probing) :
    flight.waiting =
      (passengers s.log flight.number).filter fun m => s.stages[m]? = some .waiting := by
  have manifest := sound.recorded.manifest
  refine sublist_eq_filter (manifest.passengers_nodup _) (manifest.queued key flight found) _ ?_
  intro m aboard
  obtain ⟨caller, known⟩ := manifest.known m _ aboard
  have mine := manifest.keyed m caller key flight found aboard known
  rw [decide_eq_true_eq]
  constructor
  · intro waits
    obtain ⟨-, -, -, stage, -⟩ := sound.coherent.waiting_of_awaits id ⟨flight, found, waits⟩
    exact stage
  · intro waits
    have placed := sound.coherent.placed m caller _ id known waits
    rw [mine] at placed
    rcases placed with ⟨runs, -⟩ | ⟨-, ⟨other, found', member⟩, -⟩
    · have same : m = n := runs_unique runs ⟨flight, found, runner⟩
      rw [same, probes] at waits
      cases waits
    · rw [found] at found'
      cases found'
      exact member

/-- Where the caller that probes is called off, the first of those who wait is due, those left out
that are about to be called off as well. -/
theorem due_of_callOff (sound : Sound s) {n w number : Nat} {rest : List Alarm}
    (queue : s.agenda.ready = .callOff n :: rest) (probes : s.stages[n]? = some .probing)
    (aboard : n ∈ passengers s.log number)
    (first : (passengers s.log number).find? (fun m =>
      s.stages[m]? = some .waiting ∧ .callOff m ∉ rest) = some w) :
    ∃ s' key, s.step? = some s' ∧ IsDue s' key w ∧ s'.now = s.now ∧
      s'.log = .calledOff n s.now :: s.log := by
  obtain ⟨agenda, popped, ready, still⟩ : ∃ agenda, s.agenda.pop? = some (.callOff n, agenda) ∧
      agenda.ready = rest ∧ agenda.now = s.now := ⟨_, Agenda.pop?_of_ready queue, rfl, rfl⟩
  obtain ⟨caller, known⟩ := sound.recorded.manifest.known n _ aboard
  have runs : s.flights.Runs caller.key n := (sound.coherent.placed n caller _ id known probes).1
  obtain ⟨flight, found, runner⟩ := runs
  have own := sound.recorded.manifest.running caller.key flight n found runner
  cases sound.recorded.manifest.one_flight aboard own
  have waiting := waiting_eq sound found runner probes
  -- split those who wait at the one that is spared
  obtain ⟨⟨wWaits, spared⟩, before, after, split, others⟩ :
      (s.stages[w]? = some .waiting ∧ .callOff w ∉ rest) ∧ ∃ before after,
        passengers s.log flight.number = before ++ w :: after ∧
        ∀ m ∈ before, s.stages[m]? = some .waiting → .callOff m ∈ rest := by
    obtain ⟨holds, before, after, split, others⟩ := List.find?_eq_some_iff_append.mp first
    refine ⟨by simpa using holds, before, after, split, fun m member waits => ?_⟩
    simpa [waits] using others m member
  rw [split, List.filter_append, List.filter_cons_of_pos (by simpa using wWaits)] at waiting
  generalize ahead' : before.filter (fun m => s.stages[m]? = some .waiting) = ahead at waiting
  have called : ∀ m ∈ ahead, .callOff m ∈ rest := by
    intro m member
    rw [← ahead'] at member
    obtain ⟨listed, waits⟩ := List.mem_filter.mp member
    exact others m listed (by simpa using waits)
  obtain ⟨heir, tail, shape⟩ : ∃ heir tail, flight.waiting = heir :: tail := by
    rw [waiting]
    cases ahead with
    | nil => exact ⟨_, _, rfl⟩
    | cons m ahead => exact ⟨_, _, rfl⟩
  obtain ⟨found', waits, woken⟩ := heir_next sound.coherent popped found runner shape
  have left := callOff_eq { s with agenda } n known probes (by simp [Over])
  refine ⟨Sharing.callOff { s with agenda } n, caller.key, step_of_pop popped, ?_, ?_, ?_⟩
  · rw [left]
    refine ⟨_, heir, ahead, _, _, [], found', rfl, waits, shape.symm.trans waiting, woken, ?_, ?_⟩
    · intro m member
      rw [Agenda.mem_ready_forget, ready]
      exact ⟨called m member, by simp⟩
    · intro listed
      rw [List.append_nil, Agenda.mem_ready_forget, ready] at listed
      exact spared listed.1
  · exact (follows_handle sound.coherent popped).now.trans still
  · rw [left]
    exact congrArg (fun time => .calledOff n time :: s.log) still

end Heirs

section Afterwards

variable {s s' : Sharing} {n : Nat} {caller : Caller}

theorem stage_kept (coherent : Coherent s) {alarm : Alarm} {agenda : Agenda Alarm}
    (popped : s.agenda.pop? = some (alarm, agenda)) (resumes : alarm ≠ .resume n)
    (leaves : alarm ≠ .callOff n) {stage : CallerStage} (at' : s.stages[n]? = some stage)
    (moving : stage ≠ .waiting) :
    (Sharing.handle { s with agenda } alarm).stages[n]? = some stage := by
  rcases (follows_handle coherent popped).kept n resumes leaves with same | ⟨key, awaits⟩
  · rw [same]
    exact at'
  · obtain ⟨-, -, -, waits, -⟩ := coherent.waiting_of_awaits id awaits
    exact absurd (Option.some.inj (at'.symm.trans waits)) moving

theorem over_step (coherent : Coherent s) (stepped : s.step? = some s') {stage : CallerStage}
    (at' : s.stages[n]? = some stage) (settled : Over stage) : s'.stages[n]? = some stage := by
  rcases step_cases stepped with ⟨later, -, -, rfl⟩ | ⟨alarm, agenda, popped, rfl⟩
  · exact at'
  have ended : ∀ (caller : Caller) stage', s.callers[n]? = some caller →
      s.stages[n]? = some stage' → Over stage' := fun _ _ _ at'' =>
    Option.some.inj (at'.symm.trans at'') ▸ settled
  by_cases resumes : alarm = .resume n
  · subst resumes
    exact (congrArg (·.stages[n]?) (resume_of_over { s with agenda } n ended)).trans at'
  by_cases leaves : alarm = .callOff n
  · subst leaves
    exact (congrArg (·.stages[n]?) (callOff_of_over { s with agenda } n ended)).trans at'
  refine stage_kept coherent popped resumes leaves at' ?_
  rintro rfl
  simp [Over] at settled

theorem over_runFor (coherent : Coherent s) (fuel : Nat) {stage : CallerStage}
    (at' : s.stages[n]? = some stage) (settled : Over stage) :
    (s.runFor fuel).stages[n]? = some stage :=
  runFor_coherent (motive := fun s' => s'.stages[n]? = some stage)
    (fun coherent' before stepped => over_step coherent' stepped before settled) fuel coherent at'

/-- The caller has just ended its own probe, and its key is in flight no longer. -/
def Cleared (s : Sharing) (n : Nat) (caller : Caller) : Prop :=
  s.stages[n]? = some (.done caller.probe s.now) ∧ s.flights.find? caller.key = none

theorem cleared_finish (inside : n < s.stages.length) : Cleared (s.finish n caller) n caller := by
  constructor
  · have still : (s.finish n caller).now = s.now := (follows_finish s n caller).now
    rw [still, finish_eq]
    simp [length_modifyAll, inside]
  · rw [find?_finish, if_pos rfl]

theorem cleared_probe (inside : n < s.stages.length) :
    (s.probe n caller).stages[n]? = some .probing ∨ Cleared (s.probe n caller) n caller := by
  unfold probe
  by_cases instant : caller.duration = 0
  · simp only [instant, ↓reduceIte]
    exact Or.inr (cleared_finish inside)
  · simp only [instant, ↓reduceIte]
    exact Or.inl (by simp [setStage, note, inside])

theorem probing_step (coherent : Coherent s) (stepped : s.step? = some s')
    (known : s.callers[n]? = some caller) (probes : s.stages[n]? = some .probing) :
    s'.stages[n]? = some .probing ∨ s'.stages[n]? = some .calledOff ∨ Cleared s' n caller := by
  rcases step_cases stepped with ⟨later, -, -, rfl⟩ | ⟨alarm, agenda, popped, rfl⟩
  · exact Or.inl probes
  have inside := (List.getElem?_eq_some_iff.mp probes).1
  by_cases resumes : alarm = .resume n
  · subst resumes
    simp only [handle, resume, known, probes]
    exact Or.inr (Or.inr (cleared_finish inside))
  by_cases leaves : alarm = .callOff n
  · subst leaves
    rw [handle, callOff_eq { s with agenda } n known probes (by simp [Over])]
    exact Or.inr (Or.inl (List.getElem?_set_self inside))
  exact Or.inl (stage_kept coherent popped resumes leaves probes (by simp))

/-- By then the caller is called off, or it has ended with its own outcome and cleared its key when it
did. -/
def Settles (s : Sharing) (fuel n : Nat) (caller : Caller) : Prop :=
  (s.runFor fuel).stages[n]? = some .calledOff ∨
    ∃ more, Cleared (s.runFor more) n caller ∧
      (s.runFor fuel).stages[n]? = some (.done caller.probe (s.runFor more).now)

theorem Settles.of_step {fuel : Nat} (settles : Settles s' fuel n caller)
    (stepped : s.step? = some s') : Settles s (fuel + 1) n caller := by
  unfold Settles
  rw [runFor_of_step stepped]
  refine settles.imp_right ?_
  rintro ⟨more, clear, done⟩
  refine ⟨more + 1, ?_⟩
  rw [runFor_of_step stepped]
  exact ⟨clear, done⟩

theorem settles_of_cleared (coherent : Coherent s) (clear : Cleared s n caller) (fuel : Nat) :
    Settles s fuel n caller :=
  Or.inr ⟨0, clear, over_runFor coherent fuel clear.1 (Or.inl ⟨_, _, rfl⟩)⟩

theorem probing_settles (coherent : Coherent s) (known : s.callers[n]? = some caller)
    (probes : s.stages[n]? = some .probing) (fuel : Nat)
    (settled : (s.runFor fuel).step? = none) : Settles s fuel n caller := by
  induction fuel generalizing s with
  | zero =>
      have ended := settled_stage coherent settled known probes
      simp [Over] at ended
  | succ fuel ih =>
      cases stepped : s.step? with
      | none =>
          have ended := settled_stage coherent stepped known probes
          simp [Over] at ended
      | some s' =>
          rw [runFor_of_step stepped] at settled
          have coherent' := coherent_step coherent stepped
          refine Settles.of_step ?_ stepped
          rcases probing_step coherent stepped known probes with still | off | clear
          · exact ih coherent' (callers_step stepped ▸ known) still settled
          · exact Or.inl (over_runFor coherent' fuel off (Or.inr rfl))
          · exact settles_of_cleared coherent' clear fuel

/-- Where nobody of a key is under way, a caller that comes runs the flight that was left open. -/
theorem comes_to_open_flight (sound : Sound s) {rest : List Alarm} {flight : Flight}
    (queue : s.agenda.ready = .resume n :: rest) (known : s.callers[n]? = some caller)
    (expected : s.stages[n]? = some .expected) (quiet : Quiet s caller.key)
    (found : s.flights.find? caller.key = some flight) :
    ∃ s', s.step? = some s' ∧
      (∃ after, s'.log =
        after ++ .started n s.now :: .joined n flight.number s.now :: s.log) ∧
      (s'.stages[n]? = some .probing ∨ Cleared s' n caller) := by
  obtain ⟨agenda, popped, still⟩ : ∃ agenda, s.agenda.pop? = some (.resume n, agenda) ∧
      agenda.now = s.now := ⟨_, Agenda.pop?_of_ready queue, rfl⟩
  have inside := (List.getElem?_eq_some_iff.mp expected).1
  have unmanned : flight.runner = none := by
    cases manned : flight.runner with
    | none => rfl
    | some r =>
        obtain ⟨other, known', mine, stage⟩ := stage_of_runs sound.coherent ⟨flight, found, manned⟩
        rcases stage with probes | ⟨waits, -⟩
        · exact (quiet r other _ known' mine probes).elim
        · exact (quiet r other _ known' mine waits).elim
  have runs : (s.flights.join caller.key n).2.runs = true := by
    rw [join_runs, found]
    exact unmanned
  have number : (s.flights.join caller.key n).2.flight = flight.number := by
    rw [join_flight, found]
    simp [boarded, unmanned]
  refine ⟨Sharing.resume { s with agenda } n, step_of_pop popped, ?_⟩
  simp only [resume, known, expected, arrive, runs, ↓reduceIte]
  constructor
  · obtain ⟨after, log⟩ := log_probe (Sharing.note
      { s with flights := (s.flights.join caller.key n).1, agenda }
      (.joined n (s.flights.join caller.key n).2.flight agenda.now)) n caller
    refine ⟨after, log.trans ?_⟩
    simp [note, now, number, still]
  · exact cleared_probe inside

/-- Whoever came since the last probe of a quiet key ended was called off. -/
theorem left_behind (sound : Sound s) {key : String} (quiet : Quiet s key)
    (came : CameSince s.callers key n s.log) : s.stages[n]? = some .calledOff := by
  obtain ⟨later, flight, time, earlier, caller, split, known, mine, none'⟩ := came
  obtain ⟨stage, at'⟩ := sound.coherent.exists_stage known
  have logged : .joined n flight time ∈ s.log := by
    rw [split]
    exact List.mem_append_right _ List.mem_cons_self
  have idle := quiet n caller stage known mine at'
  cases stage with
  | expected =>
      exact absurd (mem_passengers.mpr ⟨time, logged⟩)
        (sound.recorded.unjoined n flight id at')
  | done outcome moment =>
      -- its outcome came of a probe that ended after it joined
      obtain ⟨other, m, it, runner, known', runnerKnown, same, -, served⟩ :=
        sound.recorded.outcomes n outcome (Or.inr ⟨moment, at'⟩)
      rw [known] at known'
      cases known'
      obtain ⟨later', ended, earlier', joinedAt, since, split', joined, -, -⟩ := served
      rw [split] at split'
      rcases List.append_eq_append_iff.mp split' with ⟨between, later'', tail⟩ | ⟨between, later'', tail⟩
      · cases between with
        | nil => cases tail
        | cons first between =>
            obtain ⟨-, tail⟩ := List.cons.inj tail
            have twice := sound.recorded.manifest.once
            have again : n ∈ (joins earlier).map Prod.fst := by
              refine List.mem_map.mpr ⟨(n, other, joinedAt), ?_, rfl⟩
              refine List.mem_filterMap.mpr ⟨.joined n other joinedAt, ?_, rfl⟩
              rw [tail]
              exact List.mem_append_right _ (List.mem_cons_of_mem _ joined)
            rw [split, joins, List.filterMap_append, List.map_append] at twice
            have apart := (List.nodup_append.mp twice).2.1
            exact absurd again (List.nodup_cons.mp apart).1
      · cases between with
        | nil => cases tail
        | cons first between =>
            obtain ⟨rfl, -⟩ := List.cons.inj tail
            have unended := none' m ended runner
              (later'' ▸ List.mem_append_right _ List.mem_cons_self) runnerKnown
            exact absurd (same.trans mine) unended
  | calledOff => exact at'
  | waiting => exact idle.elim
  | probing => exact idle.elim
  | told outcome => exact idle.elim

end Afterwards

/-- Hand-over, as one state shows it of the run that ends with the other. -/
structure HandsOver (s last : Sharing) : Prop where
  /-- Whoever waits shares its flight with a caller that probes or is about to. -/
  awaited : ∀ (n : Nat) (caller : Caller), s.callers[n]? = some caller →
    s.stages[n]? = some .waiting → ∃ flight r, n ∈ passengers s.log flight ∧
      r ∈ passengers s.log flight ∧ (s.stages[r]? = some .probing ∨
        (s.stages[r]? = some .waiting ∧ .resume r ∈ s.agenda.ready))
  /-- Where the caller that probes is called off, the first to have come of those who still wait
  starts its probe in the same instant; it is out of this if it is called off in that instant. -/
  heir : ∀ (n flight w : Nat) rest, s.agenda.ready = .callOff n :: rest →
    s.stages[n]? = some .probing → n ∈ passengers s.log flight →
    (passengers s.log flight).find? (fun m =>
      s.stages[m]? = some .waiting ∧ .callOff m ∉ rest) = some w →
    ∃ later between, last.log =
      later ++ .started w s.now :: (between ++ .calledOff n s.now :: s.log)
  /-- Once time has moved nobody else is called off in that instant. -/
  instant : ∀ n rest, 0 < s.now → s.agenda.ready = .callOff n :: rest → rest = []
  /-- A key is in flight exactly if somebody came since its last probe ended. -/
  inFlight : ∀ key, (s.flights.find? key).isSome ↔ OpenSince s.callers key s.log
  /-- If nobody of the key is under way, all of them were called off. -/
  leftBehind : ∀ key n, Quiet s key → CameSince s.callers key n s.log →
    s.stages[n]? = some .calledOff
  /-- The next caller of such a key starts a probe on the flight that was left open. It ends with its
  own outcome and clears the key, unless it is called off. -/
  reopened : ∀ (n : Nat) (caller : Caller) flight rest, s.agenda.ready = .resume n :: rest →
    s.callers[n]? = some caller → s.stages[n]? = some .expected → Quiet s caller.key →
    s.flights.find? caller.key = some flight →
    (∃ later, last.log =
      later ++ .started n s.now :: .joined n flight.number s.now :: s.log) ∧
    (last.stages[n]? = some .calledOff ∨ ∃ more, Cleared (s.runFor more) n caller ∧
      last.stages[n]? = some (.done caller.probe (s.runFor more).now))

section Runs

variable {s : Sharing}

theorem awaited_of_sound (sound : Sound s) {n : Nat} {caller : Caller}
    (known : s.callers[n]? = some caller) (waits : s.stages[n]? = some .waiting) :
    ∃ flight r, n ∈ passengers s.log flight ∧ r ∈ passengers s.log flight ∧
      (s.stages[r]? = some .probing ∨
        (s.stages[r]? = some .waiting ∧ .resume r ∈ s.agenda.ready)) := by
  obtain ⟨r, other, -, -, ⟨flight, found, runner⟩, stage⟩ :=
    runner_of_waiting sound.coherent known waits
  refine ⟨flight.number, r, ?_, sound.recorded.manifest.running _ flight r found runner, stage⟩
  rcases sound.coherent.placed n caller _ id known waits with
    ⟨⟨mine, found', runs⟩, -⟩ | ⟨-, ⟨mine, found', awaited⟩, -⟩
  · rw [found] at found'
    cases found'
    exact sound.recorded.manifest.running _ flight n found runs
  · rw [found] at found'
    cases found'
    exact (sound.recorded.manifest.queued _ flight found).subset awaited

theorem handsOver_of_sound (sound : Sound s) {fuel : Nat} (settled : (s.runFor fuel).step? = none) :
    HandsOver s (s.runFor fuel) where
  awaited := fun _ _ known waits => awaited_of_sound sound known waits
  heir := by
    intro n flight w rest queue probes aboard first
    obtain ⟨s', key, stepped, due, still, log⟩ := due_of_callOff sound queue probes aboard first
    obtain ⟨left, rfl⟩ := exists_succ_of_settled stepped settled
    rw [runFor_of_step stepped] at settled ⊢
    obtain ⟨later, between, grown⟩ := started_of_due (sound_step sound stepped) due left settled
    exact ⟨later, between, by rw [grown, still, log]⟩
  instant := by
    intro n rest later queue
    have single := sound.timetable.alone later n (queue ▸ List.mem_cons_self)
    rw [queue] at single
    exact (List.cons.inj single).2
  inFlight := sound.recorded.manifest.isOpen
  leftBehind := fun _ _ quiet came => left_behind sound quiet came
  reopened := by
    intro n caller flight rest queue known expected quiet found
    obtain ⟨s', stepped, ⟨after, log⟩, outcome⟩ :=
      comes_to_open_flight sound queue known expected quiet found
    have coherent' := coherent_step sound.coherent stepped
    obtain ⟨left, rfl⟩ := exists_succ_of_settled stepped settled
    have settled' := runFor_of_step stepped left ▸ settled
    constructor
    · obtain ⟨later, grown⟩ := log_runFor coherent' left
      refine ⟨later ++ after, ?_⟩
      rw [runFor_of_step stepped, ← grown, log, List.append_assoc]
    · refine Settles.of_step ?_ stepped
      rcases outcome with probes | clear
      · exact probing_settles coherent' (callers_step stepped ▸ known) probes left settled'
      · exact settles_of_cleared coherent' clear left

end Runs

/-- Every state of every run hands over, every caller that is not called off has an outcome in the
end, and then a key is in flight exactly if callers came since its last probe ended that were all
called off. -/
theorem hand_over (callers : List Caller) (countAt : List Nat) :
    (∀ steps, HandsOver ((start callers countAt).runFor steps) (start callers countAt).run) ∧
      (∀ (n : Nat) (caller : Caller), callers[n]? = some caller →
        (∃ outcome time, (start callers countAt).run.stages[n]? = some (.done outcome time)) ∨
          ((start callers countAt).run.stages[n]? = some .calledOff ∧ caller.calledOff ≠ none)) ∧
      ∀ key, (((start callers countAt).run.flights.find? key).isSome ↔
          ∃ n, CameSince callers key n (start callers countAt).run.log) ∧
        ∀ n, CameSince callers key n (start callers countAt).run.log →
          (start callers countAt).run.stages[n]? = some .calledOff := by
  have sound := sound_runFor callers countAt (start callers countAt).work
  have same : (start callers countAt).run.callers = callers := callers_runFor _ _
  have outcomes : ∀ (n : Nat) (caller : Caller), callers[n]? = some caller →
      (∃ outcome time, (start callers countAt).run.stages[n]? = some (.done outcome time)) ∨
        ((start callers countAt).run.stages[n]? = some .calledOff ∧ caller.calledOff ≠ none) := by
    intro n caller known
    refine settled_outcome sound (run_settles callers countAt) ?_
    rw [callers_runFor]
    exact known
  refine ⟨?_, outcomes, fun key => ⟨?_, ?_⟩⟩
  · intro steps
    have settled := run_settles callers countAt
    rw [← run_of_runFor callers countAt steps] at settled ⊢
    exact handsOver_of_sound (sound_runFor callers countAt steps) settled
  · have open' := sound.recorded.manifest.isOpen key
    change ((start callers countAt).run.flights.find? key).isSome ↔
      OpenSince (start callers countAt).run.callers key (start callers countAt).run.log at open'
    rw [same] at open'
    exact open'
  -- At the end of the run nobody of any key is under way.
  · intro n came
    have came' : CameSince (start callers countAt).run.callers key n (start callers countAt).run.log := by
      rw [same]
      exact came
    refine left_behind sound ?_ came'
    intro m caller stage known _ at'
    rcases settled_stage sound.coherent (run_settles callers countAt) known at' with
      ⟨outcome, time, rfl⟩ | rfl
    · exact trivial
    · exact trivial

def relay : List Caller :=
  [⟨"k", 0, 10, 7, some 3⟩, ⟨"k", 1, 10, 8, some 5⟩, ⟨"k", 2, 4, 9, none⟩]

theorem hand_over_relay :
    ((start relay []).runFor 6).agenda.ready = [.callOff 0] ∧
      ∃ later between, (start relay []).run.log =
        later ++ .started 1 3 :: (between ++ .calledOff 0 3 :: ((start relay []).runFor 6).log) :=
  ⟨by decide, ((hand_over relay []).1 6).heir 0 0 1 [] (by decide) (by decide) (by decide) (by decide)⟩

end LatencyRank.Sharing
