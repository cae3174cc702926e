import Mathlib
import LatencyRank.Proofs.Sharing.Record

/-!
Who runs a flight next. A caller that is to take over is summoned in the instant in which its
predecessor is called off. Other turns of that instant may come first; they lengthen the flight or
call off those ahead, and in the end the turn is the caller's.
-/

namespace LatencyRank.Sharing

open Flights

section Keys

variable (s : Sharing) (n : Nat) (caller : Caller) {key : String}

theorem find?_finish (key : String) :
    (s.finish n caller).flights.find? key =
      if key = caller.key then none else s.flights.find? key := by
  rw [finish_eq]
  exact find?_land s.flights caller.key key

theorem find?_probe (other : key ≠ caller.key) :
    (s.probe n caller).flights.find? key = s.flights.find? key := by
  unfold probe
  by_cases instant : caller.duration = 0
  · simp only [instant, ↓reduceIte]
    rw [find?_finish, if_neg other]
    rfl
  · simp only [instant, ↓reduceIte]
    rfl

theorem find?_arrive (other : key ≠ caller.key) :
    (s.arrive n caller).flights.find? key = s.flights.find? key := by
  have joined : (s.flights.join caller.key n).1.find? key = s.flights.find? key := by
    rw [find?_join, if_neg other]
  unfold arrive
  by_cases runs : (s.flights.join caller.key n).2.runs = true
  · simp only [runs, ↓reduceIte]
    rw [find?_probe _ _ _ other]
    exact joined
  · simp only [runs, Bool.false_eq_true, ↓reduceIte]
    exact joined

theorem ready_finish : ∃ new, (s.finish n caller).agenda.ready = s.agenda.ready ++ new := by
  rw [finish_eq]
  exact Agenda.ready_wakeAll_append _ _

theorem ready_probe : ∃ new, (s.probe n caller).agenda.ready = s.agenda.ready ++ new := by
  unfold probe
  by_cases instant : caller.duration = 0
  · simp only [instant, ↓reduceIte]
    exact ready_finish _ n caller
  · simp only [instant, ↓reduceIte]
    exact ⟨[], by rw [Agenda.ready_wakeAfter _ _ (Nat.pos_of_ne_zero instant)]; simp [note]⟩

theorem ready_arrive : ∃ new, (s.arrive n caller).agenda.ready = s.agenda.ready ++ new := by
  unfold arrive
  by_cases runs : (s.flights.join caller.key n).2.runs = true
  · simp only [runs, ↓reduceIte]
    exact ready_probe _ n caller
  · simp only [runs, Bool.false_eq_true, ↓reduceIte]
    exact ⟨[], (List.append_nil _).symm⟩

theorem ready_resume : ∃ new, (s.resume n).agenda.ready = s.agenda.ready ++ new := by
  have unchanged : s.agenda.ready = s.agenda.ready ++ [] := (List.append_nil _).symm
  apply resume_cases (motive := fun s' => ∃ new, s'.agenda.ready = s.agenda.ready ++ new)
  case spared => exact fun _ => ⟨[], unchanged⟩
  case expected => exact fun caller _ _ => ready_arrive s n caller
  case waiting => exact fun caller _ _ => ready_probe s n caller
  case probing => exact fun caller _ _ => ready_finish s n caller
  case told => exact fun _ _ _ _ => ⟨[], unchanged⟩

theorem log_probe : ∃ after, (s.probe n caller).log = after ++ .started n s.now :: s.log := by
  unfold probe
  by_cases instant : caller.duration = 0
  · simp only [instant, ↓reduceIte]
    rw [finish_eq]
    exact ⟨[.answered n s.now, .ended n s.now], rfl⟩
  · simp only [instant, ↓reduceIte]
    exact ⟨[], rfl⟩

end Keys

/-- Where the runner is called off, the longest waiting is summoned and runs next. -/
theorem heir_next {s : Sharing} (coherent : Coherent s) {n heir : Nat} {caller : Caller}
    {flight : Flight} {rest : List Nat} {agenda : Agenda Alarm}
    (popped : s.agenda.pop? = some (.callOff n, agenda))
    (found : s.flights.find? caller.key = some flight) (runner : flight.runner = some n)
    (shape : flight.waiting = heir :: rest) :
    (s.flights.leave caller.key n).1.find? caller.key =
        some { flight with runner := some heir, waiting := rest } ∧
      (s.stages.set n .calledOff)[heir]? = some .waiting ∧
      ((agenda.forget (.resume n)).wakeAll
        ((s.flights.leave caller.key n).2.toList.map .resume)).ready =
          (agenda.forget (.resume n)).ready ++ [.resume heir] := by
  have apart := coherent.distinct caller.key flight found
  rw [runner, shape] at apart
  have different : n ≠ heir := fun same => (List.nodup_cons.mp apart).1 (same ▸ List.mem_cons_self)
  have awaits : s.flights.Awaits caller.key heir := ⟨flight, found, shape ▸ List.mem_cons_self⟩
  have successor : (s.flights.leave caller.key n).2 = some heir := by
    rw [leave_successor, found]
    simp [runner, shape]
  obtain ⟨-, -, -, waits, never⟩ := coherent.waiting_of_awaits id awaits
  refine ⟨?_, ?_, ?_⟩
  · rw [find?_leave, if_pos rfl, found]
    simp [without, runner, shape]
  · rw [List.getElem?_set_ne different, waits]
  · have absent : .resume heir ∉ (agenda.forget (.resume n)).ready := by
      intro listed
      rw [Agenda.mem_ready_forget] at listed
      refine Agenda.not_mem_ready never ?_
      rw [(Agenda.pop?_eq_some popped).1]
      exact List.mem_cons_of_mem _ listed.1
    rw [successor]
    show ((agenda.forget (.resume n)).wake (.resume heir)).ready = _
    rw [Agenda.wake, if_neg absent]

/-- The caller is to run the key's work in this instant: whoever is to run it before is about to be
called off. -/
structure Due (s : Sharing) (key : String) (w : Nat) (flight : Flight) (r : Nat)
    (ahead post : List Nat) (before after : List Alarm) : Prop where
  found : s.flights.find? key = some flight
  runner : flight.runner = some r
  waits : s.stages[r]? = some .waiting
  order : r :: flight.waiting = ahead ++ w :: post
  queue : s.agenda.ready = before ++ .resume r :: after
  called : ∀ m ∈ ahead, .callOff m ∈ before
  spared : .callOff w ∉ before ++ after

def IsDue (s : Sharing) (key : String) (w : Nat) : Prop :=
  ∃ flight r ahead post before after, Due s key w flight r ahead post before after

namespace Due

variable {s : Sharing} {key : String} {w r : Nat} {flight : Flight} {ahead post : List Nat}
  {before after : List Alarm}

theorem runs (due : Due s key w flight r ahead post before after) : s.flights.Runs key r :=
  ⟨flight, due.found, due.runner⟩

theorem aboard (due : Due s key w flight r ahead post before after) (coherent : Coherent s) {m : Nat}
    (member : m ∈ r :: flight.waiting) :
    ∃ caller, s.callers[m]? = some caller ∧ caller.key = key ∧ s.stages[m]? = some .waiting := by
  rcases List.mem_cons.mp member with rfl | awaited
  · obtain ⟨caller, known, mine⟩ := coherent.aboard key m (Or.inl due.runs)
    exact ⟨caller, known, mine, due.waits⟩
  · have awaits : s.flights.Awaits key m := ⟨flight, due.found, awaited⟩
    obtain ⟨caller, known, mine, waits, -⟩ := coherent.waiting_of_awaits id awaits
    exact ⟨caller, known, mine, waits⟩

theorem queue_pop {alarm : Alarm} {agenda : Agenda Alarm}
    (due : Due s key w flight r ahead post (alarm :: before) after)
    (popped : s.agenda.pop? = some (alarm, agenda)) :
    agenda.ready = before ++ .resume r :: after := by
  have shape := (Agenda.pop?_eq_some popped).1
  rw [due.queue, List.cons_append] at shape
  exact (List.cons.inj shape).2.symm

theorem next_apart (coherent : Coherent s) {x : Nat}
    (due : Due s key w flight r ahead post (.resume x :: before) after) : r ≠ x := by
  rintro rfl
  obtain ⟨caller, known, -⟩ := due.aboard coherent List.mem_cons_self
  have once := placed_once (coherent.placed r caller _ id known due.waits)
  rw [Agenda.count_summons, due.queue] at once
  simp only [List.count_append, List.count_cons_self] at once
  omega

theorem find?_resume (coherent : Coherent s) {x : Nat} {agenda : Agenda Alarm}
    (due : Due s key w flight r ahead post (.resume x :: before) after)
    (popped : s.agenda.pop? = some (.resume x, agenda)) :
    ∃ new, (Sharing.resume { s with agenda } x).flights.find? key =
      some { flight with waiting := flight.waiting ++ new } := by
  have different := due.next_apart coherent
  have unchanged : s.flights.find? key = some { flight with waiting := flight.waiting ++ [] } := by
    rw [List.append_nil]
    exact due.found
  apply resume_cases (motive := fun s' => ∃ new,
    s'.flights.find? key = some { flight with waiting := flight.waiting ++ new })
  case spared => exact fun _ => ⟨[], unchanged⟩
  case expected =>
    intro other _ _
    by_cases asked : key = other.key
    -- The flight is manned, so a newcomer waits on it, behind those that wait already.
    · subst asked
      have manned : ¬∀ n, ¬s.flights.Runs other.key n := fun nobody => nobody r due.runs
      rw [← join_runs_iff s.flights other.key x] at manned
      simp only [arrive, manned, Bool.false_eq_true, ↓reduceIte, setStage, note]
      rw [find?_join, if_pos rfl, due.found]
      simp only [boarded, due.runner]
      exact ⟨[x], rfl⟩
    · rw [find?_arrive _ _ _ asked]
      exact ⟨[], unchanged⟩
  case waiting =>
    intro other known at'
    rcases coherent.placed x other _ id known at' with ⟨runs, -, -, -⟩ | ⟨-, -, absent⟩
    · have asked : key ≠ other.key := by
        rintro rfl
        exact different (runs_unique due.runs runs)
      rw [find?_probe _ _ _ asked]
      exact ⟨[], unchanged⟩
    · have counts := Agenda.count_summons_pop popped (.resume x)
      rw [if_pos rfl] at counts
      omega
  case probing =>
    intro other known at'
    have asked : key ≠ other.key := by
      rintro rfl
      exact different (runs_unique due.runs (coherent.placed x other _ id known at').1)
    rw [find?_finish, if_neg asked]
    exact ⟨[], unchanged⟩
  case told => exact fun _ _ _ _ => ⟨[], unchanged⟩

theorem resume (coherent : Coherent s) {x : Nat} {agenda : Agenda Alarm}
    (due : Due s key w flight r ahead post (.resume x :: before) after)
    (popped : s.agenda.pop? = some (.resume x, agenda)) :
    IsDue (Sharing.resume { s with agenda } x) key w := by
  have queue := due.queue_pop popped
  have follows := follows_resume { s with agenda } x
  have different := due.next_apart coherent
  obtain ⟨caller, known, mine, -⟩ := due.aboard coherent List.mem_cons_self
  obtain ⟨new, found⟩ := due.find?_resume coherent popped
  obtain ⟨queued, shape⟩ := ready_resume { s with agenda } x
  refine ⟨_, r, ahead, post ++ new, before, after ++ queued, found, due.runner, ?_, ?_, ?_, ?_, ?_⟩
  · have kept := follows.kept r (fun h => different (Alarm.resume.inj h).symm) (by simp)
    rcases kept with stage | ⟨other, awaits⟩
    · rw [stage]
      exact due.waits
    · obtain ⟨it, known', theirs⟩ := coherent.aboard other r (Or.inr awaits)
      rw [known] at known'
      cases known'
      rw [← theirs, mine] at awaits
      exact absurd awaits (coherent.runner_does_not_wait due.runs)
  · rw [← List.cons_append, due.order]
    simp
  · rw [shape, queue]
    simp
  · intro m member
    simpa using due.called m member
  · intro member
    have queued' : .callOff w ∈ (Sharing.resume { s with agenda } x).agenda.ready := by
      rw [shape, queue]
      simp only [List.mem_append, List.mem_cons] at member ⊢
      tauto
    rcases follows.ready _ queued' with old | ⟨m, other, -⟩
    · refine due.spared ?_
      rw [queue] at old
      simp only [List.mem_append, List.mem_cons, reduceCtorEq, false_or] at old ⊢
      exact old
    · cases other

theorem remain {m : Nat} {s' : Sharing} {flight' : Flight} {before' after' : List Alarm}
    (due : Due s key w flight r ahead post (.callOff m :: before) after)
    (found : s'.flights.find? key = some flight') (runs : flight'.runner = some r)
    (waits : s'.stages[r]? = some .waiting)
    (fewer : r :: flight'.waiting = (r :: flight.waiting).filter (· ≠ m))
    (queue : s'.agenda.ready = before' ++ .resume r :: after')
    (still : ∀ k, .callOff k ∈ before → .callOff k ∈ before')
    (calm : .callOff w ∉ before' ++ after') : IsDue s' key w := by
  have notW : w ≠ m := by
    rintro rfl
    exact due.spared List.mem_cons_self
  refine ⟨flight', r, ahead.filter (· ≠ m), post.filter (· ≠ m), before', after', found, runs, waits,
    ?_, queue, ?_, calm⟩
  · rw [fewer, due.order, List.filter_append, List.filter_cons_of_pos (by simpa using notW)]
  · intro k member
    obtain ⟨listed, different⟩ := List.mem_filter.mp member
    rcases List.mem_cons.mp (due.called k listed) with same | later
    · exact absurd (Alarm.callOff.inj same) (by simpa using different)
    · exact still k later

theorem untouched {m : Nat} (absent : m ∉ r :: flight.waiting) :
    r :: flight.waiting = (r :: flight.waiting).filter (· ≠ m) := by
  refine (List.filter_eq_self.mpr fun k member => ?_).symm
  exact decide_eq_true fun same => absent (same ▸ member)

theorem spared_forget {m : Nat} {agenda : Agenda Alarm} (heirs : List Nat)
    (queue : agenda.ready = before ++ .resume r :: after) (spared : .callOff w ∉ before ++ after) :
    .callOff w ∉ ((agenda.forget (.resume m)).wakeAll (heirs.map .resume)).ready := by
  intro listed
  rw [Agenda.mem_ready_wakeAll, Agenda.mem_ready_forget, queue] at listed
  rcases listed with ⟨old, -⟩ | heir
  · refine spared ?_
    simp only [List.mem_append, List.mem_cons, reduceCtorEq, false_or] at old ⊢
    exact old
  · obtain ⟨k, -, other⟩ := List.mem_map.mp heir
    cases other

theorem callOff_next (coherent : Coherent s) {agenda : Agenda Alarm} {caller : Caller}
    {log : List SharingEvent} (due : Due s key w flight r ahead post (.callOff r :: before) after)
    (popped : s.agenda.pop? = some (.callOff r, agenda)) (mine : caller.key = key) :
    IsDue
      { s with
        flights := (s.flights.leave caller.key r).1
        stages := s.stages.set r .calledOff
        agenda := (agenda.forget (.resume r)).wakeAll
          ((s.flights.leave caller.key r).2.toList.map .resume)
        log } key w := by
  have queue := due.queue_pop popped
  have spared : .callOff w ∉ before ++ after := fun member => due.spared (List.mem_cons_of_mem _ member)
  have apart := coherent.distinct key flight due.found
  rw [due.runner] at apart
  have fresh : r ∉ flight.waiting := (List.nodup_cons.mp apart).1
  obtain ⟨ahead', rfl, order⟩ : ∃ ahead', ahead = r :: ahead' ∧
      flight.waiting = ahead' ++ w :: post := by
    have split := due.order
    cases ahead with
    | nil =>
        obtain ⟨rfl, -⟩ := List.cons.inj split
        exact absurd List.mem_cons_self due.spared
    | cons first ahead' =>
        obtain ⟨rfl, tail⟩ := List.cons.inj split
        exact ⟨ahead', rfl, tail⟩
  -- somebody waits at least: the caller that is due
  obtain ⟨heir, rest, shape⟩ : ∃ heir rest, flight.waiting = heir :: rest := by
    rw [order]
    cases ahead' with
    | nil => exact ⟨w, post, rfl⟩
    | cons first tail => exact ⟨first, tail ++ w :: post, rfl⟩
  subst mine
  obtain ⟨found, waits, woken⟩ := heir_next coherent popped due.found due.runner shape
  refine ⟨_, heir, ahead', post, (agenda.forget (.resume r)).ready, [], found, rfl, waits, ?_, woken,
    ?_, ?_⟩
  · rw [← shape, order]
  · intro k member
    have listed := due.called k (List.mem_cons_of_mem _ member)
    rw [Agenda.mem_ready_forget, queue]
    refine ⟨List.mem_append_left _ ?_, by simp⟩
    rcases List.mem_cons.mp listed with same | later
    · cases same
      exact absurd (order ▸ List.mem_append_left _ member) fresh
    · exact later
  · have calm := spared_forget (m := r) (s.flights.leave caller.key r).2.toList queue spared
    rw [woken] at calm
    simpa using calm

theorem callOff_other (coherent : Coherent s) {m : Nat} {agenda : Agenda Alarm} {caller : Caller}
    {log : List SharingEvent} (due : Due s key w flight r ahead post (.callOff m :: before) after)
    (popped : s.agenda.pop? = some (.callOff m, agenda)) (known : s.callers[m]? = some caller)
    (next : m ≠ r) :
    IsDue
      { s with
        flights := (s.flights.leave caller.key m).1
        stages := s.stages.set m .calledOff
        agenda := (agenda.forget (.resume m)).wakeAll
          ((s.flights.leave caller.key m).2.toList.map .resume)
        log } key w := by
  have queue := due.queue_pop popped
  have spared : .callOff w ∉ before ++ after := fun member => due.spared (List.mem_cons_of_mem _ member)
  have calm := spared_forget (m := m) (s.flights.leave caller.key m).2.toList queue spared
  -- the flight loses who is called off, if that is a caller of its key at all
  have found : ∃ flight', (s.flights.leave caller.key m).1.find? key = some flight' ∧
      flight'.runner = some r ∧ r :: flight'.waiting = (r :: flight.waiting).filter (· ≠ m) := by
    have notRunner : ¬flight.runner = some m := by
      rw [due.runner]
      exact fun same => next (Option.some.inj same).symm
    by_cases asked : key = caller.key
    · rw [find?_leave, if_pos asked, ← asked, due.found]
      refine ⟨without m flight, rfl, ?_, ?_⟩
      · simp only [without, notRunner, ↓reduceIte]
        exact due.runner
      · rw [List.filter_cons_of_pos (by simpa using Ne.symm next)]
        simp only [without, notRunner, ↓reduceIte]
    · rw [find?_leave, if_neg asked]
      refine ⟨flight, due.found, due.runner, untouched fun member => ?_⟩
      obtain ⟨it, known', theirs, -⟩ := due.aboard coherent member
      rw [known] at known'
      cases known'
      exact asked theirs.symm
  obtain ⟨flight', found, runs, fewer⟩ := found
  obtain ⟨new, shape⟩ := Agenda.ready_wakeAll_append (agenda.forget (.resume m))
    ((s.flights.leave caller.key m).2.toList.map .resume)
  have forgotten : (agenda.forget (.resume m)).ready =
      before.filter (· ≠ .resume m) ++ .resume r :: after.filter (· ≠ .resume m) := by
    show agenda.ready.filter (· ≠ .resume m) = _
    rw [queue, List.filter_append, List.filter_cons_of_pos (by simpa using Ne.symm next)]
  rw [forgotten, List.append_assoc, List.cons_append] at shape
  refine due.remain found runs ?_ fewer shape ?_ ?_
  · rw [List.getElem?_set_ne next]
    exact due.waits
  · intro k listed
    exact List.mem_filter.mpr ⟨listed, by simp⟩
  · intro listed
    refine calm ?_
    rw [shape]
    simp only [List.mem_append, List.mem_cons] at listed ⊢
    tauto

theorem callOff (coherent : Coherent s) {m : Nat} {agenda : Agenda Alarm}
    (due : Due s key w flight r ahead post (.callOff m :: before) after)
    (popped : s.agenda.pop? = some (.callOff m, agenda)) :
    IsDue (Sharing.callOff { s with agenda } m) key w := by
  have queue := due.queue_pop popped
  have spared : .callOff w ∉ before ++ after := fun member => due.spared (List.mem_cons_of_mem _ member)
  have aside (absent : m ∉ r :: flight.waiting) : IsDue { s with agenda } key w :=
    due.remain due.found due.runner due.waits (untouched absent) queue (fun _ listed => listed) spared
  rcases callOff_cases { s with agenda } m with ⟨same, ended⟩ | ⟨caller, stage, known, at', busy⟩
  · rw [same]
    refine aside fun member => ?_
    obtain ⟨caller, known, -, waits⟩ := due.aboard coherent member
    have settled := ended caller .waiting known waits
    simp [Over] at settled
  · rw [callOff_eq { s with agenda } m known at' busy]
    by_cases next : m = r
    · subst next
      obtain ⟨it, known', mine, -⟩ := due.aboard coherent List.mem_cons_self
      cases (show s.callers[m]? = some caller from known).symm.trans known'
      exact due.callOff_next coherent popped mine
    · exact due.callOff_other coherent popped known next

end Due

theorem IsDue.busy {s : Sharing} {key : String} {w : Nat} (due : IsDue s key w) :
    s.agenda.ready ≠ [] := by
  obtain ⟨flight, r, ahead, post, before, after, due⟩ := due
  rw [due.queue]
  simp

/-- The step of an instant in which a caller is due either starts that caller's probe or leaves the
caller due. -/
theorem due_step {s s' : Sharing} (coherent : Coherent s) {key : String} {w : Nat}
    (due : IsDue s key w) (stepped : s.step? = some s') :
    (∃ after, s'.log = after ++ .started w s.now :: s.log) ∨ (IsDue s' key w ∧ s'.now = s.now) := by
  obtain ⟨flight, r, ahead, post, before, after, due⟩ := due
  cases before with
  | nil =>
      -- nobody is ahead any more
      have mine : w = r := by
        have order := due.order
        cases ahead with
        | nil => exact (List.cons.inj order).1.symm
        | cons first rest => cases due.called first List.mem_cons_self
      subst mine
      have popped := Agenda.pop?_of_ready due.queue
      obtain ⟨caller, known, -, waits⟩ := due.aboard coherent List.mem_cons_self
      cases (step_of_pop popped).symm.trans stepped
      refine Or.inl ?_
      simp only [handle, resume, known, waits]
      exact log_probe _ w caller
  | cons alarm before =>
      have popped := Agenda.pop?_of_ready due.queue
      have follows := follows_handle coherent popped
      cases (step_of_pop popped).symm.trans stepped
      refine Or.inr ⟨?_, follows.now⟩
      cases alarm with
      | resume x => exact due.resume coherent popped
      | callOff m => exact due.callOff coherent popped
      | count number =>
          refine ⟨flight, r, ahead, post, before, after, due.found, due.runner, due.waits, due.order,
            rfl, ?_, fun member => due.spared (List.mem_cons_of_mem _ member)⟩
          intro m member
          simpa using due.called m member

/-- A caller that is due starts its probe before time moves on. -/
theorem started_of_due {s : Sharing} (sound : Sound s) {key : String} {w : Nat}
    (due : IsDue s key w) (fuel : Nat) (settled : (s.runFor fuel).step? = none) :
    ∃ later between, (s.runFor fuel).log = later ++ .started w s.now :: (between ++ s.log) := by
  induction fuel generalizing s with
  | zero => exact absurd (idle_of_settled settled).1 due.busy
  | succ fuel ih =>
      unfold runFor at settled ⊢
      cases stepped : s.step? with
      | none => exact absurd (idle_of_settled stepped).1 due.busy
      | some s' =>
          rw [stepped] at settled
          rcases due_step sound.coherent due stepped with ⟨after, started⟩ | ⟨due', still⟩
          · obtain ⟨later, longer⟩ := log_runFor (sound_step sound stepped).coherent fuel
            exact ⟨later ++ after, [], by rw [← longer, started]; simp⟩
          · obtain ⟨new, longer⟩ := log_step sound.coherent stepped
            obtain ⟨later, between, log⟩ := ih (sound_step sound stepped) due' settled
            exact ⟨later, between ++ new, by simp only [log, still, ← longer, List.append_assoc]⟩

end LatencyRank.Sharing
