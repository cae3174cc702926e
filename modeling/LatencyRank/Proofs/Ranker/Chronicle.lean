import Mathlib
import LatencyRank.Proofs.Ranker.Attendance

/-!
What the histories and the cache have to take down in the course of a ranker, told from the answers
that its jobs had and from what was done from outside. A measurement is due when a job has had the
answer that makes it complete; then it is due once, and nothing else is taken down.
-/

namespace LatencyRank

/-- What is to be taken down. -/
inductive Deed where
  /-- A job has measured an address, with these answers and at this time of day. -/
  | measured (job : Nat) (ip : String) (answers : List (Option Sample)) (wall : Int)
  | recorded (entry : HistoryBook.Entry)
  | historyCleared
  | cacheCleared
  | swept (wall : Int)

namespace Deed

def isOf (n : Nat) : Deed → Bool
  | .measured job .. => job = n
  | _ => false

def enter (book : HistoryBook) : Deed → HistoryBook
  | .measured _ ip answers wall => book.note (Ranker.verdictOf ip answers wall)
  | .recorded entry => book.note entry
  | .historyCleared => book.clear
  | .cacheCleared | .swept _ => book

/-- With a cache in use a measurement takes the place of the address's entry: what was measured, from the
time of day on fresh for its lifetime and then stale for the grace. -/
def keep (s : Settings) (cache : ShardedCache) : Deed → ShardedCache
  | .measured _ ip answers wall =>
    let m := Ranker.resultOf s ip answers
    let stale := Signed.add wall (m.lifetime s.baseLifetime)
    let expires := Signed.add stale s.grace
    if s.usesCache then
      cache.insert ip {
        latency := m.latency, loss := m.loss, method := m.method
        staleAt := min stale expires, expiresAt := expires }
    else cache
  | .cacheCleared => cache.clear
  | .swept wall => (cache.cleanup wall).1
  | .recorded _ | .historyCleared => cache

theorem keep_measured (s : Settings) (cache : ShardedCache) (n : Nat) (ip : String)
    (answers : List (Option Sample)) (wall : Int) : keep s cache (.measured n ip answers wall) =
      Ranker.cacheAfter s cache wall (Ranker.resultOf s ip answers) := by
  have own : (Ranker.resultOf s ip answers).ip = ip := ip_measure ..
  rw [Ranker.cacheAfter, own]
  rfl

end Deed

namespace Ranker

variable {σ : Type}

section Chronicle

/-- The measurement of a job, if it has become complete between two moments. -/
def completion (r r' : Ranker σ) (n : Nat) : Option Deed :=
  let attempts := r.settings.attemptCount
  if ¬Complete attempts (answersOf n r.journal) ∧ Complete attempts (answersOf n r'.journal) then
    r'.jobs[n]?.map fun job => .measured n job.ip (answersOf n r'.journal) r.wall
  else none

def outside (r : Ranker σ) : Act σ → List Deed
  | .record entry => [.recorded entry]
  | .clearHistory => [.historyCleared]
  | .clearCache => [.cacheCleared]
  | .sweep => if r.sweeping then [.swept r.wall] else []
  | _ => []

def deedsOf (r : Ranker σ) (act : Act σ) : List Deed :=
  (List.range (r.perform act).jobs.length).filterMap (completion r (r.perform act)) ++ r.outside act

/-- All that is to be taken down in a course. -/
def chronicle (r : Ranker σ) : List (Act σ) → List Deed
  | [] => []
  | act :: rest => r.deedsOf act ++ (r.perform act).chronicle rest

theorem chronicle_append (r : Ranker σ) (front back : List (Act σ)) :
    r.chronicle (front ++ back) = r.chronicle front ++ (r.after front).chronicle back := by
  induction front generalizing r with
  | nil => rfl
  | cons act rest ih =>
      rw [List.cons_append, chronicle, ih, chronicle, List.append_assoc]
      rfl

theorem chronicle_concat (r : Ranker σ) (acts : List (Act σ)) (act : Act σ) :
    r.chronicle (acts ++ [act]) = r.chronicle acts ++ (r.after acts).deedsOf act := by
  rw [chronicle_append, chronicle, chronicle, List.append_nil]

theorem mem_chronicle {r : Ranker σ} {acts : List (Act σ)} {deed : Deed}
    (member : deed ∈ r.chronicle acts) :
    ∃ front act back, acts = front ++ act :: back ∧ deed ∈ (r.after front).deedsOf act := by
  induction acts generalizing r with
  | nil => exact absurd member List.not_mem_nil
  | cons act rest ih =>
      rcases List.mem_append.mp member with now | later
      · exact ⟨[], act, rest, rfl, now⟩
      · obtain ⟨front, act', back, shape, due⟩ := ih later
        exact ⟨act :: front, act', back, congrArg (act :: ·) shape, due⟩

end Chronicle

section Steps

theorem filterMap_range_single {β : Type} {f : Nat → Option β} {n : Nat}
    (alone : ∀ m, m ≠ n → f m = none) {bound : Nat} (inside : n < bound) :
    (List.range bound).filterMap f = (f n).toList := by
  have none' {length : Nat} (below : length ≤ n) : (List.range length).filterMap f = [] := by
    rw [List.filterMap_eq_nil_iff]
    intro m member
    exact alone m (Nat.ne_of_lt (Nat.lt_of_lt_of_le (List.mem_range.mp member) below))
  induction bound with
  | zero => exact absurd inside (Nat.not_lt_zero n)
  | succ bound ih =>
      rw [List.range_succ, List.filterMap_append]
      by_cases here : n = bound
      · rw [none' (Nat.le_of_eq here.symm), ← here]
        cases found : f n <;> simp [found]
      · rw [ih (by omega), List.filterMap_cons_none (alone bound fun same => here same.symm)]
        exact List.append_nil _

variable {r r' : Ranker σ} {n : Nat} {job : Job}

theorem deeds_of_concludes (concludes : Concludes r n job r') :
    (List.range r'.jobs.length).filterMap (completion r r') =
      [.measured n job.ip (answersOf n r'.journal) r.wall] := by
  obtain ⟨job', known, ip⟩ := concludes.known
  rw [filterMap_range_single (n := n) ?_ (List.getElem?_eq_some_iff.mp known).1]
  · unfold completion
    rw [if_pos ⟨concludes.incomplete, concludes.complete⟩, known, Option.map_some, ip]
    rfl
  · intro m different
    unfold completion
    rw [concludes.others m different, if_neg fun both => both.1 both.2]

/-- With its next turn a ranker completes the measurement of an address by a job. -/
structure Completes (r : Ranker σ) (n : Nat) (ip : String) : Prop where
  incomplete : ¬Complete r.settings.attemptCount (answersOf n r.journal)
  complete : Complete r.settings.attemptCount (answersOf n (r.perform .turn).journal)
  address : (r.perform .turn).jobs[n]?.map Job.ip = some ip

theorem completes_of_concludes (concludes : Concludes r n job (r.perform .turn)) :
    Completes r n job.ip := by
  obtain ⟨job', known, ip⟩ := concludes.known
  refine ⟨concludes.incomplete, concludes.complete, ?_⟩
  rw [known, Option.map_some, ip]

/-- An act completes one measurement or none. -/
inductive Takes (r : Ranker σ) (act : Act σ) : Prop
  | one (n : Nat) (job : Job) (turn : act = .turn) (concludes : Concludes r n job (r.perform act))
      (deeds : r.deedsOf act = [.measured n job.ip (answersOf n (r.perform act).journal) r.wall])
  | none (lasts : Lasts r (r.perform act)) (deeds : r.deedsOf act = r.outside act)

theorem Completes.concludes {ip : String} (completes : Completes r n ip) (takes : Takes r .turn) :
    ∃ job, job.ip = ip ∧ Concludes r n job (r.perform .turn) ∧
      r.deedsOf .turn = [.measured n ip (answersOf n (r.perform .turn).journal) r.wall] := by
  cases takes with
  | none lasts deeds =>
      have same := lasts n (Or.inr completes.complete)
      exact absurd (same ▸ completes.complete) completes.incomplete
  | one m job turn concludes deeds =>
      by_cases here : n = m
      · subst here
        have both := (completes_of_concludes concludes).address.symm.trans completes.address
        have own : job.ip = ip := Option.some.inj both
        exact ⟨job, own, concludes, own ▸ deeds⟩
      · have same := concludes.others n here
        exact absurd (same ▸ completes.complete) completes.incomplete

theorem deedsOf_of_lasts {act : Act σ} (lasts : Lasts r (r.perform act)) :
    r.deedsOf act = r.outside act := by
  have nothing : (List.range (r.perform act).jobs.length).filterMap
      (completion r (r.perform act)) = [] := by
    rw [List.filterMap_eq_nil_iff]
    intro m _
    unfold completion
    rw [if_neg]
    rintro ⟨incomplete, complete⟩
    exact incomplete (lasts m (Or.inr complete) ▸ complete)
  rw [deedsOf, nothing, List.nil_append]

theorem taken_outside (act : Act σ) (other : act ≠ .turn) :
    (r.perform act).history = (r.outside act).foldl Deed.enter r.history ∧
      (r.perform act).cache = (r.outside act).foldl (Deed.keep r.settings) r.cache := by
  cases act with
  | turn => exact absurd rfl other
  | tick =>
      simp only [perform, tick?]
      cases r.agenda.tick? <;> exact ⟨rfl, rfl⟩
  | cancel c =>
      cases known : r.rankings[c]? with
      | none =>
          rw [perform, cancel_of_none known]
          exact ⟨rfl, rfl⟩
      | some call =>
          rw [perform, cancel_eq known]
          exact ⟨rfl, rfl⟩
  | sweep =>
      simp only [perform, Ranker.sweep, outside]
      split <;> exact ⟨rfl, rfl⟩
  | stop disk =>
      simp only [perform, Ranker.stop]
      split <;> exact ⟨rfl, rfl⟩
  | _ => exact ⟨rfl, rfl⟩

variable (boarded : Boarded r.flights r.agenda r.jobs) (attends : Attends r)

include boarded attends

/-- Every act takes down what is due for it, and completes one measurement at most. -/
theorem taken_perform (act : Act σ) :
    Takes r act ∧ (r.perform act).history = (r.deedsOf act).foldl Deed.enter r.history ∧
      (r.perform act).cache = (r.deedsOf act).foldl (Deed.keep r.settings) r.cache := by
  by_cases turn : act = .turn
  · subst turn
    rcases (attends_of_turn boarded attends (turn_perform r)).2 with passes | ⟨n, job, concludes⟩
    · have deeds := deedsOf_of_lasts passes.lasts
      rw [deeds]
      exact ⟨.none passes.lasts deeds, passes.history, passes.cache⟩
    · have deeds : r.deedsOf .turn =
          [.measured n job.ip (answersOf n (r.perform .turn).journal) r.wall] :=
        (List.append_nil _).trans (deeds_of_concludes concludes)
      rw [deeds]
      refine ⟨.one n job rfl concludes deeds, concludes.history, ?_⟩
      rw [List.foldl_cons, List.foldl_nil, Deed.keep_measured]
      exact concludes.cache
  · rcases outcome_perform r act with ⟨same, -⟩ | aside
    · exact absurd same turn
    · have lasts : Lasts r (r.perform act) := fun m _ => by rw [aside.still.2]
      have deeds := deedsOf_of_lasts lasts
      rw [deeds]
      exact ⟨.none lasts deeds, taken_outside act turn⟩

end Steps

section Runs

/-- Every job agrees with the flights and the agenda, and with its answers in the journal. -/
structure JobsAgree (r : Ranker σ) : Prop where
  boarded : Boarded r.flights r.agenda r.jobs
  attends : Attends r

theorem JobsAgree.perform {r : Ranker σ} (agree : JobsAgree r) (act : Act σ) : JobsAgree (r.perform act) where
  boarded := boarded_perform r act agree.boarded
  attends := attends_perform r act agree.boarded agree.attends

theorem JobsAgree.after {r : Ranker σ} (agree : JobsAgree r) (acts : List (Act σ)) :
    JobsAgree (r.after acts) :=
  after_induction (fun _ act agree => agree.perform act) agree acts

theorem jobsAgree_make (settings : Settings) (base : String) (disk : Disk) (prober : Prober σ) (memory : σ)
    (clock : WallClock) : JobsAgree (make settings base disk prober memory clock) where
  boarded := boarded_nothing fun _ => rfl
  attends := attends_of_nothing rfl rfl

/-- After any course the histories and the cache are what was to be taken down. -/
theorem taken_after {r : Ranker σ} (agree : JobsAgree r) (acts : List (Act σ)) :
    (r.after acts).history = (r.chronicle acts).foldl Deed.enter r.history ∧
      (r.after acts).cache = (r.chronicle acts).foldl (Deed.keep r.settings) r.cache := by
  induction acts generalizing r with
  | nil => exact ⟨rfl, rfl⟩
  | cons act rest ih =>
      obtain ⟨-, history, cache⟩ := taken_perform agree.boarded agree.attends act
      obtain ⟨history', cache'⟩ := ih (agree.perform act)
      rw [chronicle, List.foldl_append, List.foldl_append, ← history, ← cache]
      rw [(fixed_perform r act).1] at cache'
      exact ⟨history', cache'⟩

variable {start : Ranker σ}

/-- A job has measured its address in a course: with one turn its measurement became complete, and
what is due for it is that, once. -/
structure Measures (start : Ranker σ) (acts front back : List (Act σ)) (n : Nat) (job : Job) :
    Prop where
  moment : acts = front ++ .turn :: back
  completes : Completes (start.after front) n job.ip
  known : (start.after acts).jobs[n]? = some job
  outcome : job.stage =
    .done (resultOf start.settings job.ip (answersOf n (start.after acts).journal))
  due : (start.chronicle acts).filter (Deed.isOf n) =
    [.measured n job.ip (answersOf n (start.after acts).journal) (start.after front).wall]

theorem JobsAgree.outcome {start : Ranker σ} (agree : JobsAgree start) {acts : List (Act σ)} {n : Nat}
    {job : Job} (known : (start.after acts).jobs[n]? = some job)
    (complete : Complete start.settings.attemptCount (answersOf n (start.after acts).journal)) :
    job.stage = .done (resultOf start.settings job.ip (answersOf n (start.after acts).journal)) := by
  have same : (start.after acts).settings = start.settings := settings_after start acts
  rw [← same] at complete ⊢
  exact done_of_complete (agree.after acts).attends known complete

theorem outside_not_isOf (r : Ranker σ) (act : Act σ) (n : Nat) :
    (r.outside act).filter (Deed.isOf n) = [] := by
  cases act with
  | sweep =>
      rw [outside]
      split <;> rfl
  | _ => rfl

theorem Measures.concat (agree : JobsAgree start) {acts front back : List (Act σ)} {n : Nat} {job : Job}
    (measures : Measures start acts front back n job) {act : Act σ}
    (complete : Complete start.settings.attemptCount
      (answersOf n (start.after (acts ++ [act])).journal))
    (lasts : answersOf n (start.after (acts ++ [act])).journal =
      answersOf n (start.after acts).journal)
    (nothing : ((start.after acts).deedsOf act).filter (Deed.isOf n) = []) :
    ∃ job', Measures start (acts ++ [act]) front (back ++ [act]) n job' := by
  obtain ⟨job', known, ip⟩ := ip_perform (start.after acts) act measures.known
  have known' : (start.after (acts ++ [act])).jobs[n]? = some job' := by
    rw [after_append]
    exact known
  refine ⟨job', ?_, ip.symm ▸ measures.completes, known', agree.outcome known' complete, ?_⟩
  · rw [measures.moment, List.append_assoc, List.cons_append]
  · rw [chronicle_concat, List.filter_append, nothing, List.append_nil, measures.due, lasts, ip]

/-- A measurement that is complete after a course became so with one turn and is due once; one that is
not complete is not due. -/
structure Once (start : Ranker σ) (acts : List (Act σ)) (n : Nat) : Prop where
  complete : Complete start.settings.attemptCount (answersOf n (start.after acts).journal) →
    ∃ front back job, Measures start acts front back n job
  incomplete : ¬Complete start.settings.attemptCount (answersOf n (start.after acts).journal) →
    (start.chronicle acts).filter (Deed.isOf n) = []

theorem Once.nil (silent : start.journal = []) (n : Nat) : Once start [] n := by
  have nothing : answersOf n (start.after []).journal = [] := by
    change answersOf n start.journal = []
    rw [silent]
    rfl
  constructor
  · intro complete
    exact absurd (nothing ▸ complete) (not_complete_nil _)
  · exact fun _ => rfl

theorem Once.concat (agree : JobsAgree start) {acts : List (Act σ)} {n : Nat} (once : Once start acts n)
    {act : Act σ}
    (lasts : Complete start.settings.attemptCount (answersOf n (start.after acts).journal) ∨
        Complete start.settings.attemptCount (answersOf n (start.after (acts ++ [act])).journal) →
      answersOf n (start.after (acts ++ [act])).journal = answersOf n (start.after acts).journal)
    (nothing : ((start.after acts).deedsOf act).filter (Deed.isOf n) = []) :
    Once start (acts ++ [act]) n where
  complete := by
    intro complete
    have still := lasts (Or.inr complete)
    obtain ⟨front, back, job, measures⟩ := once.complete (still ▸ complete)
    obtain ⟨job', measures'⟩ := measures.concat agree complete still nothing
    exact ⟨front, back ++ [act], job', measures'⟩
  incomplete := by
    intro incomplete
    rw [chronicle_concat, List.filter_append, nothing, List.append_nil]
    refine once.incomplete fun complete => incomplete ?_
    rw [lasts (Or.inl complete)]
    exact complete

theorem once_after (agree : JobsAgree start) (silent : start.journal = []) (acts : List (Act σ)) (n : Nat) :
    Once start acts n := by
  -- from the back: the last act completes the measurement, or leaves its account as it was
  induction acts using List.reverseRecOn with
  | nil => exact .nil silent n
  | append_singleton acts act ih =>
      have later := after_concat start acts act
      have same : (start.after acts).settings = start.settings := settings_after start acts
      obtain ⟨takes, -⟩ := taken_perform (agree.after acts).boarded (agree.after acts).attends act
      cases takes with
      | none lasts deeds =>
          refine ih.concat agree ?_ (deeds ▸ outside_not_isOf _ act n)
          rw [later, ← same]
          exact lasts n
      | one m job turn concludes deeds =>
          by_cases here : m = n
          · subst here turn
            have before := concludes.incomplete
            have now := concludes.complete
            have completes := completes_of_concludes concludes
            obtain ⟨job', known, ip⟩ := concludes.known
            rw [same] at before now
            rw [← later] at now known deeds
            rw [← ip] at completes deeds
            refine ⟨fun _ => ⟨acts, [], job', rfl, completes, known, agree.outcome known now, ?_⟩,
              fun incomplete => absurd now incomplete⟩
            rw [chronicle_concat, List.filter_append, ih.incomplete before, List.nil_append, deeds]
            exact List.filter_cons_of_pos (decide_eq_true rfl)
          · refine ih.concat agree (fun _ => ?_) ?_
            · rw [later]
              exact concludes.others n fun same => here same.symm
            · rw [deeds]
              exact List.filter_cons_of_neg (by simpa [Deed.isOf] using here)

end Runs

end Ranker

end LatencyRank
