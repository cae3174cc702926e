import Mathlib
import LatencyRank.Probe.Script
import LatencyRank.Proofs.Ranker.Chronicle
import LatencyRank.Proofs.Ranker.Solitude

/-!
A prober whose answers are settled for each address: the first attempt for it comes out so, the second
so, and on, whatever else is attempted between them and whatever time they take. Then a ranking by
itself hears of every address its first answers, in their order, in whatever order it asks.
-/

namespace LatencyRank

namespace Prober

variable {σ : Type}

def memoryAfter (p : Prober σ) (memory : σ) (asks : List (String × String)) : σ :=
  asks.foldl (fun memory ask => (p.ask ask.1 ask.2 memory).2) memory

def timesAsked (asks : List (String × String)) (ip : String) : Nat := (asks.map Prod.fst).count ip

/-- The attempts for each address come out in this order, whatever else is attempted. -/
def Follows (p : Prober σ) (memory : σ) (outcomes : String → Nat → Option Sample) : Prop :=
  ∀ asks ip domain,
    (p.ask ip domain (p.memoryAfter memory asks)).1.sample = outcomes ip (timesAsked asks ip)

/-- No attempt takes time. -/
def Instant (p : Prober σ) (memory : σ) : Prop :=
  ∀ asks ip domain, (p.ask ip domain (p.memoryAfter memory asks)).1.delay = 0

/-- The outcomes that are left once some were heard of each address. -/
def onward (outcomes : String → Nat → Option Sample) (counts : String → Nat) :
    String → Nat → Option Sample := fun ip k => outcomes ip (counts ip + k)

variable {p : Prober σ} {memory : σ} {outcomes : String → Nat → Option Sample}
  {counts : String → Nat}

theorem Follows.sample (follows : p.Follows memory (onward outcomes counts)) (ip domain : String) :
    (p.ask ip domain memory).1.sample = outcomes ip (counts ip) :=
  follows [] ip domain

theorem Follows.next (follows : p.Follows memory (onward outcomes counts)) (ip domain : String) :
    p.Follows (p.ask ip domain memory).2
      (onward outcomes (Function.update counts ip (counts ip + 1))) := by
  intro asks other domain'
  have later := follows ((ip, domain) :: asks) other domain'
  rw [memoryAfter, List.foldl_cons] at later
  rw [memoryAfter, later, onward, onward, timesAsked, timesAsked, List.map_cons, List.count_cons]
  by_cases same : other = ip
  · subst same
    rw [Function.update_self, if_pos (by simp)]
    congr 1
    omega
  · rw [Function.update_of_ne same, if_neg (by simpa using fun h : ip = other => same h.symm),
      Nat.add_zero]

theorem Instant.next (instant : p.Instant memory) (ip domain : String) :
    p.Instant (p.ask ip domain memory).2 :=
  fun asks other domain' => instant ((ip, domain) :: asks) other domain'

end Prober

namespace Scripts

def attemptOf (s : Scripts) (ip : String) (k : Nat) : Attempt :=
  (s.script ip).upcoming[k]?.getD (s.script ip).usual

def outcomesOf (s : Scripts) (ip : String) (k : Nat) : Option Sample := (s.attemptOf ip k).sample

theorem script_answer (s : Scripts) (ip other : String) :
    (s.answer ip).2.script other =
      if other = ip then { s.script ip with upcoming := (s.script ip).upcoming.tail }
      else s.script other := by
  unfold answer
  cases upcoming : (s.script ip).upcoming with
  | nil =>
    simp only [upcoming, List.tail_nil]
    split
    · rename_i same
      rw [same, ← upcoming]
    · rfl
  | cons next rest =>
    simp only [upcoming, List.tail_cons]
    unfold script
    rw [Keyed.find?_insert]
    split <;> rfl

theorem script_memoryAfter (s : Scripts) (asks : List (String × String)) (ip : String) :
    (prober.memoryAfter s asks).script ip =
      { s.script ip with upcoming := (s.script ip).upcoming.drop (Prober.timesAsked asks ip) } := by
  induction asks generalizing s with
  | nil => rfl
  | cons ask rest ih =>
    have first := s.script_answer ask.1 ip
    have later := ih (s.answer ask.1).2
    rw [Prober.memoryAfter, List.foldl_cons]
    refine later.trans ?_
    rw [first, Prober.timesAsked, Prober.timesAsked, List.map_cons, List.count_cons]
    by_cases same : ip = ask.1
    · rw [if_pos same, if_pos (by simp [same]), same, List.drop_tail]
    · rw [if_neg same, if_neg (by simpa using fun h : ask.1 = ip => same h.symm), Nat.add_zero]

theorem ask_memoryAfter (s : Scripts) (asks : List (String × String)) (ip domain : String) :
    (prober.ask ip domain (prober.memoryAfter s asks)).1 = s.attemptOf ip (Prober.timesAsked asks ip) := by
  have script := s.script_memoryAfter asks ip
  change ((prober.memoryAfter s asks).answer ip).1 = _
  generalize prober.memoryAfter s asks = later at script
  unfold answer attemptOf
  rw [script]
  cases upcoming : (s.script ip).upcoming.drop (Prober.timesAsked asks ip) with
  | nil =>
    have none' := congrArg List.head? upcoming
    rw [List.head?_drop] at none'
    simp [none']
  | cons next rest =>
    have some' := congrArg List.head? upcoming
    rw [List.head?_drop] at some'
    simp [some']

/-- Whoever follows a script for each address answers each by itself. -/
theorem follows (s : Scripts) : prober.Follows s s.outcomesOf :=
  fun asks ip domain => congrArg Attempt.sample (s.ask_memoryAfter asks ip domain)

theorem instant {s : Scripts} (prompt : ∀ ip k, (s.attemptOf ip k).delay = 0) : prober.Instant s :=
  fun asks ip domain => (congrArg Attempt.delay (s.ask_memoryAfter asks ip domain)).trans (prompt ip _)

end Scripts

namespace Ranker

open Prober

variable {σ : Type} {r : Ranker σ} {base c n m : Nat} {domain : String} {act : Act σ}
  {outcomes : String → Nat → Option Sample} {counts : String → Nat}

section Hearing

def firstOf (outcomes : String → Nat → Option Sample) (ip : String) (k : Nat) : List (Option Sample) :=
  (List.range k).map (outcomes ip)

theorem firstOf_succ (ip : String) (k : Nat) :
    firstOf outcomes ip (k + 1) = firstOf outcomes ip k ++ [outcomes ip k] := by
  rw [firstOf, List.range_succ, List.map_append]
  rfl

theorem follows_talk {p : Prober σ} {memory memory' : σ} {pending pending' : Option (Option Sample)}
    {ip : String} {now : Nat} {news : List RankerEvent} {answers : List (Option Sample)}
    (talk : Talk p n ip domain now memory pending news memory' pending')
    (follows : p.Follows memory (onward outcomes counts))
    (heard : answers ++ pending.toList = firstOf outcomes ip (counts ip)) :
    ∃ k, p.Follows memory' (onward outcomes (Function.update counts ip k)) ∧
      answers ++ (answersOf n news ++ pending'.toList) = firstOf outcomes ip k := by
  induction talk with
  | silence =>
    refine ⟨counts ip, ?_, heard⟩
    rwa [Function.update_eq_self]
  | @asks news memory' talk ih =>
    obtain ⟨k, follows', heard'⟩ := ih
    have next := follows'.next ip domain
    have sample := follows'.sample ip domain
    rw [Function.update_self] at next sample
    rw [Function.update_idem] at next
    refine ⟨k + 1, next, ?_⟩
    have silent : answersOf n (.asked n ip domain now :: news) = answersOf n news := rfl
    rw [silent, sample, firstOf_succ, ← heard']
    simp
  | @hears news memory' sample talk ih =>
    obtain ⟨k, follows', heard'⟩ := ih
    refine ⟨k, follows', ?_⟩
    rw [← heard']
    simp [answersOf]

theorem answersOf_talk {p : Prober σ} {memory memory' : σ} {pending pending' : Option (Option Sample)}
    {ip : String} {now : Nat} {news : List RankerEvent}
    (talk : Talk p n ip domain now memory pending news memory' pending') (different : m ≠ n) :
    answersOf m news = [] := by
  induction talk with
  | silence => rfl
  | asks talk ih => exact ih
  | hears talk ih => simpa [answersOf, different.symm] using ih

theorem answersOf_mute {news journal : List RankerEvent} (mute : ∀ event ∈ news, event.isMute = true)
    (n : Nat) : answersOf n (news ++ journal) = answersOf n journal := by
  refine answersOf_news (fun event member sample time same => ?_) journal
  have silent := mute event member
  rw [same] at silent
  cases silent

/-- The late jobs have heard the first answers for their addresses, and nobody else has asked. -/
structure Recites (base c : Nat) (outcomes : String → Nat → Option Sample) (counts : String → Nat)
    (r : Ranker σ) : Prop where
  follows : r.prober.Follows r.memory (onward outcomes counts)
  heard : ∀ n job, base ≤ n → r.jobs[n]? = some job →
    answersOf n r.journal ++ (r.outstanding n).toList = firstOf outcomes job.ip (counts job.ip)
  unasked : ∀ ip, ip ∉ roster c r.jobs → counts ip = 0

theorem Recites.heard_before (recites : Recites base c outcomes counts r) (attends : Attends r)
    (later : Solitary base c domain (r.perform act)) (late : base ≤ n) {job : Job}
    (known' : (r.perform act).jobs[n]? = some job) :
    answersOf n r.journal ++ (r.outstanding n).toList = firstOf outcomes job.ip (counts job.ip) := by
  cases known : r.jobs[n]? with
  | some old =>
    obtain ⟨stage, rfl⟩ := job_of_perform known known'
    exact recites.heard n old late known
  | none =>
    have new := List.getElem?_eq_none_iff.mp known
    -- no two jobs of the ranking are for one address
    have strange : job.ip ∉ roster c r.jobs := by
      intro member
      obtain ⟨other, member', own, same⟩ := mem_roster.mp member
      obtain ⟨m, known''⟩ := List.mem_iff_getElem?.mp member'
      obtain ⟨stage, known'''⟩ := job_perform r act known''
      have here := job_unique later.distinct known''' known' own (later.crew n job late known').1 same
      have inside := (List.getElem?_eq_some_iff.mp known'').1
      omega
    rw [attends.unborn n new, outstanding, known, recites.unasked job.ip strange]
    rfl

theorem Recites.perform (recites : Recites base c outcomes counts r) (agree : JobsAgree r)
    (solitary : Solitary base c domain r) (later : Solitary base c domain (r.perform act))
    (own : act.isOwn = true) : ∃ counts', Recites base c outcomes counts' (r.perform act) := by
  have prober := (fixed_perform r act).2
  have before {n : Nat} {job : Job} (late : base ≤ n) (known' : (r.perform act).jobs[n]? = some job) :=
    recites.heard_before agree.attends later late known'
  have unasked (ip : String) (strange : ip ∉ roster c (r.perform act).jobs) : counts ip = 0 :=
    recites.unasked ip fun member => strange (mem_roster_perform member act)
  cases converses_perform r act agree.boarded with
  | silent news journal mute same memory =>
    have memory' := memory fun _ same => by rw [same] at own; cases own
    refine ⟨counts, by rw [prober, memory']; exact recites.follows, ?_, unasked⟩
    intro n job late known'
    rw [journal, answersOf_mute mute, same]
    exact before late known'
  | speaks n job tail news pending turn known open' journal mute talk changed single =>
    obtain ⟨stage, known'⟩ := job_perform r act known
    have late := solitary.late known open'
    obtain ⟨k, follows, heard⟩ := follows_talk talk recites.follows (recites.heard n job late known)
    refine ⟨Function.update counts job.ip k, by rw [prober]; exact follows, ?_, ?_⟩
    · intro m other late' known''
      rw [journal, answersOf_mute mute, answersOf_append, changed]
      by_cases here : m = n
      · subst here
        cases known''.symm.trans known'
        rw [Function.update_self, List.append_assoc, heard]
        change _ = firstOf outcomes job.ip (Function.update counts job.ip k job.ip)
        rw [Function.update_self]
      -- Another job is of another address, so its place in the outcomes has not moved.
      · have apart : other.ip ≠ job.ip := fun same => here (later.unique late' late known'' known' same)
        rw [answersOf_talk talk here, List.append_nil, Function.update_of_ne here,
          Function.update_of_ne apart]
        exact before late' known''
    · intro ip strange
      have apart : ip ≠ job.ip := by
        rintro rfl
        exact strange (mem_roster.mpr
          ⟨_, List.mem_of_getElem? known', (solitary.crew n job late known).1, rfl⟩)
      rw [Function.update_of_ne apart]
      exact unasked ip strange

end Hearing

section Timeless

theorem instant_talk {p : Prober σ} {memory memory' : σ} {pending pending' : Option (Option Sample)}
    {ip : String} {now : Nat} {news : List RankerEvent}
    (talk : Talk p n ip domain now memory pending news memory' pending') (instant : p.Instant memory) :
    p.Instant memory' := by
  induction talk with
  | silence => exact instant
  | asks talk ih => exact ih.next _ _
  | hears talk ih => exact ih

theorem sleeping_attempt {job : Job} (left : Nat) (progress : Progress)
    (instant : r.prober.Instant r.memory) :
    (attempt n job left r progress).agenda.sleeping = r.agenda.sleeping := by
  induction left generalizing r progress with
  | zero =>
    unfold attempt
    rw [complete_eq _ _ _ (not_abandoned_conclude _ _ _)]
    simp [completed]
  | succ left ih =>
    unfold attempt
    have soon : (r.prober.ask job.ip job.domain r.memory).1.delay = 0 := instant [] job.ip job.domain
    have later := instant.next job.ip job.domain
    generalize r.prober.ask job.ip job.domain r.memory = reply at soon later
    simp only [soon, ↓reduceIte, absorb]
    cases progress.take reply.1.sample with
    | none =>
      dsimp only
      rw [complete_givenUp]
      simp [completed, note]
    | some progress' => exact ih progress' later

theorem sleeping_resumeJob (instant : r.prober.Instant r.memory) :
    (r.resumeJob n).agenda.sleeping = r.agenda.sleeping := by
  unfold resumeJob
  cases r.jobs[n]? with
  | none => rfl
  | some job =>
    cases stage : job.stage with
    | queued =>
      simp only [stage]
      split
      · exact sleeping_attempt (r := { r with flights := (r.flights.join job.key n).1 }) _ {} instant
      · rfl
    | waiting =>
      simp only [stage]
      exact sleeping_attempt _ {} instant
    | attempting left progress sample =>
      simp only [stage, absorb]
      cases progress.take sample with
      | none =>
        dsimp only
        rw [complete_givenUp]
        simp [completed, note]
      | some progress' =>
        exact sleeping_attempt (r := r.note (.answered n sample r.agenda.now)) _ progress' instant
    | told outcome =>
      simp only [stage, finish_eq]
      simp
    | done outcome => simp only [stage]

theorem clock_of_turn {r' : Ranker σ} (turn : Turn r r') : r'.clock = r.clock := by
  cases turn with
  | ofJob popped known turn =>
    cases turn with
    | ends stage =>
      rw [finish_eq]
    | _ => rfl
  | ofRanking popped known turn =>
    rcases recruits_of_turn turn with rfl | ⟨recruits, r'', call'', news, enlisted, rfl, -⟩
    · rfl
    · change r''.clock = r.clock
      rw [enlisted.enlists.same]
  | _ => rfl

/-- Nobody sleeps, and no attempt will put anybody to sleep. -/
structure Timeless (r : Ranker σ) : Prop where
  awake : r.agenda.sleeping = []
  instant : r.prober.Instant r.memory

theorem Timeless.turn (timeless : Timeless r) : (r.perform .turn).agenda.sleeping = [] := by
  have awake {task : Task} {agenda : Agenda Task} (popped : r.agenda.pop? = some (task, agenda)) :
      agenda.sleeping = [] := (Agenda.pop?_eq_some popped).2.1.trans timeless.awake
  obtain ⟨r', same, turn⟩ : ∃ r', r' = r.perform .turn ∧ Turn r r' := ⟨_, rfl, turn_perform r⟩
  rw [← same]
  cases turn with
  | rests empty => exact timeless.awake
  | @ofJob m agenda job _ popped known turn =>
    have turned : r.perform .turn = resumeJob { r with agenda } m := perform_of_pop popped
    rw [same, turned]
    exact (sleeping_resumeJob (r := { r with agenda }) timeless.instant).trans (awake popped)
  | ofRanking popped known turn =>
    rcases recruits_of_turn turn with rfl | ⟨recruits, r'', call'', news, enlisted, rfl, -⟩
    · exact awake popped
    · change r''.agenda.sleeping = []
      rw [enlisted.enlists.agenda, Agenda.sleeping_wakeAll]
      exact awake popped
  | ofCancel popped known => exact (Agenda.sleeping_wakeAll _ _).trans (awake popped)
  | lapses popped noJob noRanking => exact awake popped

theorem Timeless.perform (timeless : Timeless r) (boarded : Boarded r.flights r.agenda r.jobs)
    (own : act.isOwn = true) : Timeless (r.perform act) ∧ (r.perform act).wall = r.wall := by
  have instant : (r.perform act).prober.Instant (r.perform act).memory := by
    rw [(fixed_perform r act).2]
    cases converses_perform r act boarded with
    | silent news journal mute same memory =>
      rw [memory fun _ same => by rw [same] at own; cases own]
      exact timeless.instant
    | speaks n job tail news pending turn known open' journal mute talk changed single =>
      exact instant_talk talk timeless.instant
  cases act with
  | turn =>
    have turn := turn_perform r
    exact ⟨⟨timeless.turn, instant⟩, by rw [wall, wall, now_of_turn turn, clock_of_turn turn]⟩
  | tick =>
    have same : r.perform .tick = r := by
      simp only [Ranker.perform, tick?, Agenda.tick?_eq_none.mpr timeless.awake]
      rfl
    rw [same]
    exact ⟨timeless, rfl⟩
  | _ => cases own

end Timeless

end Ranker

end LatencyRank
