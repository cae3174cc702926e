import Mathlib
import LatencyRank.Schedule.Sharing
import LatencyRank.Proofs.Schedule.Flights

/-!
What the log says about the flights. A caller joins once. The open flight of a key is the one that
somebody joined since the key's last probe ended; those who wait on it wait in the order in which
they joined; a flight whose probe ended is never open again, so no second probe of it ends.
-/

namespace LatencyRank.Sharing

open Flights

section Views

/-- Who joined which flight and when, the latest first. -/
def joins (log : List SharingEvent) : List (Nat × Nat × Nat) :=
  log.filterMap fun
    | .joined n flight time => some (n, flight, time)
    | _ => none

def passengers (log : List SharingEvent) (flight : Nat) : List Nat :=
  (((joins log).filter fun join => join.2.1 = flight).map Prod.fst).reverse

def endings (log : List SharingEvent) : List Nat :=
  log.filterMap fun
    | .ended n _ => some n
    | _ => none

def completions (log : List SharingEvent) (flight : Nat) : List Nat :=
  (endings log).filter (· ∈ passengers log flight)

/-- The caller joined for the key and no probe of the key has ended since. -/
def CameSince (callers : List Caller) (key : String) (n : Nat) (log : List SharingEvent) : Prop :=
  ∃ later flight time earlier caller, log = later ++ .joined n flight time :: earlier ∧
    callers[n]? = some caller ∧ caller.key = key ∧
    ∀ m ended other, .ended m ended ∈ later → callers[m]? = some other → other.key ≠ key

/-- Somebody joined for the key since the key's last probe ended. -/
def OpenSince (callers : List Caller) (key : String) (log : List SharingEvent) : Prop :=
  ∃ n, CameSince callers key n log

theorem mem_passengers {log : List SharingEvent} {flight n : Nat} :
    n ∈ passengers log flight ↔ ∃ time, .joined n flight time ∈ log := by
  simp only [passengers, List.mem_reverse, List.mem_map, List.mem_filter, joins, List.mem_filterMap,
    decide_eq_true_eq]
  constructor
  · rintro ⟨join, ⟨⟨event, logged, here⟩, rfl⟩, rfl⟩
    cases event <;> simp only [Option.some.injEq, reduceCtorEq] at here
    subst here
    exact ⟨_, logged⟩
  · rintro ⟨time, logged⟩
    exact ⟨(n, flight, time), ⟨⟨_, logged, rfl⟩, rfl⟩, rfl⟩

theorem mem_endings {log : List SharingEvent} {n : Nat} :
    n ∈ endings log ↔ ∃ time, .ended n time ∈ log := by
  simp only [endings, List.mem_filterMap]
  constructor
  · rintro ⟨event, logged, here⟩
    cases event <;> simp only [Option.some.injEq, reduceCtorEq] at here
    subst here
    exact ⟨_, logged⟩
  · rintro ⟨time, logged⟩
    exact ⟨_, logged, rfl⟩

theorem passengers_joined (log : List SharingEvent) (n flight time other : Nat) :
    passengers (.joined n flight time :: log) other =
      if flight = other then passengers log other ++ [n] else passengers log other := by
  by_cases same : flight = other <;> simp [passengers, joins, same]

theorem mem_passengers_joined {log : List SharingEvent} {n flight time m other : Nat} :
    m ∈ passengers (.joined n flight time :: log) other ↔
      m ∈ passengers log other ∨ (m = n ∧ flight = other) := by
  rw [passengers_joined]
  by_cases same : flight = other <;> simp [same]

theorem cameSince_cons (callers : List Caller) (key : String) (n : Nat) (event : SharingEvent)
    (log : List SharingEvent) :
    CameSince callers key n (event :: log) ↔
      (∃ flight time caller, event = .joined n flight time ∧ callers[n]? = some caller ∧
        caller.key = key) ∨
      (CameSince callers key n log ∧
        ∀ m ended other, event = .ended m ended → callers[m]? = some other → other.key ≠ key) := by
  constructor
  · rintro ⟨later, flight, time, earlier, caller, split, known, mine, quiet⟩
    cases later with
    | nil =>
        cases split
        exact Or.inl ⟨flight, time, caller, rfl, known, mine⟩
    | cons first later =>
        cases split
        refine Or.inr ⟨⟨later, flight, time, earlier, caller, rfl, known, mine, ?_⟩, ?_⟩
        · exact fun m ended other logged => quiet m ended other (List.mem_cons_of_mem _ logged)
        · exact fun m ended other same => quiet m ended other (same ▸ List.mem_cons_self)
  · rintro (⟨flight, time, caller, rfl, known, mine⟩ | ⟨before, quiet⟩)
    · exact ⟨[], flight, time, log, caller, rfl, known, mine, fun _ _ _ logged => by cases logged⟩
    · obtain ⟨later, flight, time, earlier, caller, rfl, known, mine, quiet'⟩ := before
      refine ⟨event :: later, flight, time, earlier, caller, rfl, known, mine, ?_⟩
      intro m ended other logged
      rcases List.mem_cons.mp logged with same | logged
      · exact quiet m ended other same.symm
      · exact quiet' m ended other logged

theorem openSince_cons (callers : List Caller) (key : String) (event : SharingEvent)
    (log : List SharingEvent) :
    OpenSince callers key (event :: log) ↔
      (∃ n flight time caller, event = .joined n flight time ∧ callers[n]? = some caller ∧
        caller.key = key) ∨
      (OpenSince callers key log ∧
        ∀ m ended other, event = .ended m ended → callers[m]? = some other → other.key ≠ key) := by
  unfold OpenSince
  simp only [cameSince_cons, exists_or, exists_and_right]

/-- An event of another kind changes none of these views. -/
def Neutral (event : SharingEvent) : Prop :=
  (∀ n flight time, event ≠ .joined n flight time) ∧ ∀ n time, event ≠ .ended n time

theorem neutral_started (n time : Nat) : Neutral (.started n time) := by
  constructor <;> simp

theorem neutral_calledOff (n time : Nat) : Neutral (.calledOff n time) := by
  constructor <;> simp

theorem neutral_answered (n time : Nat) : Neutral (.answered n time) := by
  constructor <;> simp

theorem joins_neutral {event : SharingEvent} (neutral : Neutral event) (log : List SharingEvent) :
    joins (event :: log) = joins log := by
  cases event with
  | joined n flight time => exact absurd rfl (neutral.1 n flight time)
  | _ => rfl

theorem endings_neutral {event : SharingEvent} (neutral : Neutral event) (log : List SharingEvent) :
    endings (event :: log) = endings log := by
  cases event with
  | ended n time => exact absurd rfl (neutral.2 n time)
  | _ => rfl

end Views

/-- Flights and log agree. -/
structure Manifest (f : Flights) (callers : List Caller) (log : List SharingEvent) : Prop where
  once : ((joins log).map Prod.fst).Nodup
  numbered : ∀ n flight, n ∈ passengers log flight → flight < f.next
  known : ∀ n flight, n ∈ passengers log flight → ∃ caller, callers[n]? = some caller
  keyed : ∀ n caller key flight, f.find? key = some flight → n ∈ passengers log flight.number →
    callers[n]? = some caller → caller.key = key
  together : ∀ m n c d flight, m ∈ passengers log flight → n ∈ passengers log flight →
    callers[m]? = some c → callers[n]? = some d → c.key = d.key
  opened : ∀ key flight, f.find? key = some flight → ∃ n, n ∈ passengers log flight.number
  running : ∀ key flight n, f.find? key = some flight → flight.runner = some n →
    n ∈ passengers log flight.number
  queued : ∀ key flight, f.find? key = some flight →
    flight.waiting.Sublist (passengers log flight.number)
  landed : ∀ n ∈ endings log, ∃ flight, n ∈ passengers log flight ∧
    ∀ key open', f.find? key = some open' → open'.number ≠ flight
  single : ∀ flight, (completions log flight).length ≤ 1
  isOpen : ∀ key, (f.find? key).isSome ↔ OpenSince callers key log

namespace Manifest

variable {f : Flights} {callers : List Caller} {log : List SharingEvent} {n : Nat} {caller : Caller}

theorem empty (callers : List Caller) : Manifest {} callers [] where
  once := List.nodup_nil
  numbered := fun _ _ member => by cases member
  known := fun _ _ member => by cases member
  keyed := fun _ _ _ _ found => by cases found
  together := fun _ _ _ _ _ member => by cases member
  opened := fun _ _ found => by cases found
  running := fun _ _ _ found => by cases found
  queued := fun _ _ found => by cases found
  landed := fun _ member => by cases member
  single := fun _ => Nat.zero_le 1
  isOpen := by
    intro key
    constructor
    · intro found
      cases found
    · rintro ⟨n, later, flight, time, earlier, caller, split, -⟩
      simp at split

theorem one_flight (manifest : Manifest f callers log) {flight other : Nat}
    (here : n ∈ passengers log flight) (there : n ∈ passengers log other) : flight = other := by
  simp only [passengers, List.mem_reverse, List.mem_map, List.mem_filter, decide_eq_true_eq]
    at here there
  obtain ⟨join, ⟨listed, rfl⟩, rfl⟩ := here
  obtain ⟨join', ⟨listed', rfl⟩, same⟩ := there
  rw [List.inj_on_of_nodup_map manifest.once listed' listed same]

theorem passengers_nodup (manifest : Manifest f callers log) (flight : Nat) :
    (passengers log flight).Nodup :=
  List.nodup_reverse.mpr (manifest.once.sublist (List.filter_sublist.map _))

theorem one_key (manifest : Manifest f callers log) {key key' : String} {flight flight' : Flight}
    (found : f.find? key = some flight) (found' : f.find? key' = some flight')
    (same : flight.number = flight'.number) : key = key' := by
  obtain ⟨m, aboard⟩ := manifest.opened key flight found
  obtain ⟨other, known⟩ := manifest.known m _ aboard
  rw [← manifest.keyed m other key flight found aboard known]
  exact manifest.keyed m other key' flight' found' (same ▸ aboard) known

theorem open_unfinished (manifest : Manifest f callers log) {key : String} {flight : Flight}
    (found : f.find? key = some flight) : completions log flight.number = [] := by
  refine List.filter_eq_nil_iff.mpr fun m ended aboard => ?_
  obtain ⟨other, aboard', closed⟩ := manifest.landed m ended
  exact closed key flight found (manifest.one_flight (by simpa using aboard) aboard')

theorem neutral (manifest : Manifest f callers log) {event : SharingEvent}
    (other : Neutral event) : Manifest f callers (event :: log) := by
  have sameJoins := joins_neutral other log
  have sameEndings := endings_neutral other log
  have samePassengers : passengers (event :: log) = passengers log := by
    unfold passengers
    rw [sameJoins]
  have sameCompletions : completions (event :: log) = completions log := by
    unfold completions
    rw [sameEndings, samePassengers]
  refine ⟨sameJoins ▸ manifest.once, samePassengers ▸ manifest.numbered,
    samePassengers ▸ manifest.known, samePassengers ▸ manifest.keyed,
    samePassengers ▸ manifest.together, samePassengers ▸ manifest.opened,
    samePassengers ▸ manifest.running, samePassengers ▸ manifest.queued, ?_,
    sameCompletions ▸ manifest.single, ?_⟩
  · rw [sameEndings, samePassengers]
    exact manifest.landed
  · intro key
    rw [openSince_cons, manifest.isOpen]
    constructor
    · exact fun before => Or.inr ⟨before, fun m ended _ same => absurd same (other.2 m ended)⟩
    · rintro (⟨m, flight, time, -, same, -⟩ | ⟨before, -⟩)
      · exact absurd same (other.1 m flight time)
      · exact before

theorem leave (manifest : Manifest f callers log) (key : String) (n : Nat) :
    Manifest (f.leave key n).1 callers log where
  once := manifest.once
  numbered := by
    rw [next_leave]
    exact manifest.numbered
  known := manifest.known
  keyed := by
    intro m caller other flight found aboard
    obtain ⟨old, found', number, -, -⟩ := open_of_leave _ _ _ found
    exact manifest.keyed m caller other old found' (number ▸ aboard)
  together := manifest.together
  opened := by
    intro other flight found
    obtain ⟨old, found', number, -, -⟩ := open_of_leave _ _ _ found
    exact number ▸ manifest.opened other old found'
  running := by
    intro other flight m found runner
    obtain ⟨old, found', number, -, heirs⟩ := open_of_leave _ _ _ found
    rw [← number]
    rcases heirs m runner with ran | waited
    · exact manifest.running other old m found' ran
    · exact (manifest.queued other old found').subset waited
  queued := by
    intro other flight found
    obtain ⟨old, found', number, fewer, -⟩ := open_of_leave _ _ _ found
    exact number ▸ fewer.trans (manifest.queued other old found')
  landed := by
    intro m ended
    obtain ⟨flight, aboard, closed⟩ := manifest.landed m ended
    refine ⟨flight, aboard, fun other open' found => ?_⟩
    obtain ⟨old, found', number, -, -⟩ := open_of_leave _ _ _ found
    exact number ▸ closed other old found'
  single := manifest.single
  isOpen := by
    intro other
    rw [← manifest.isOpen, find?_leave]
    by_cases asked : other = key <;> simp [asked]

section Landing

theorem completions_land (manifest : Manifest f callers log) {key : String} {flight : Flight}
    (found : f.find? key = some flight) (own : n ∈ passengers log flight.number) (time other : Nat) :
    (completions (.ended n time :: log) other).length ≤ 1 := by
  have split : completions (.ended n time :: log) other =
      if n ∈ passengers log other then n :: completions log other else completions log other := by
    show ((n :: endings log).filter (· ∈ passengers log other)) = _
    rw [List.filter_cons]
    simp [completions]
  rw [split]
  split
  · rename_i aboard
    rw [manifest.one_flight aboard own, manifest.open_unfinished found]
    exact Nat.le_refl 1
  · exact manifest.single other

theorem isOpen_land (manifest : Manifest f callers log) (known : callers[n]? = some caller)
    (time : Nat) (key : String) : ((f.land caller.key).1.find? key).isSome ↔
      OpenSince callers key (.ended n time :: log) := by
  rw [openSince_cons, find?_land]
  by_cases asked : key = caller.key
  · subst asked
    simp only [↓reduceIte, Option.isSome_none, Bool.false_eq_true, false_iff, not_or, not_and]
    refine ⟨?_, fun _ quiet => quiet n time caller rfl known rfl⟩
    rintro ⟨m, flight, time, -, same, -⟩
    cases same
  · rw [if_neg asked, manifest.isOpen]
    constructor
    · refine fun still => Or.inr ⟨still, ?_⟩
      rintro m ended other same known' rfl
      cases same
      cases known.symm.trans known'
      exact asked rfl
    · rintro (⟨m, flight, time, -, same, -⟩ | ⟨still, -⟩)
      · cases same
      · exact still

theorem land (manifest : Manifest f callers log) (known : callers[n]? = some caller)
    (runs : f.Runs caller.key n) (time : Nat) :
    Manifest (f.land caller.key).1 callers (.ended n time :: log) := by
  obtain ⟨flight, found, runner⟩ := runs
  have own := manifest.running caller.key flight n found runner
  have before {key : String} {open' : Flight}
      (found' : (f.land caller.key).1.find? key = some open') : f.find? key = some open' :=
    (open_of_land _ _ found').2
  constructor
  case once => exact manifest.once
  case numbered =>
    rw [next_land]
    exact manifest.numbered
  case known => exact manifest.known
  case keyed => exact fun m other key open' found' => manifest.keyed m other key open' (before found')
  case together => exact manifest.together
  case opened => exact fun key open' found' => manifest.opened key open' (before found')
  case running => exact fun key open' m found' => manifest.running key open' m (before found')
  case queued => exact fun key open' found' => manifest.queued key open' (before found')
  case landed =>
    intro m ended
    rcases List.mem_cons.mp (show m ∈ n :: endings log from ended) with rfl | ended
    · refine ⟨flight.number, own, fun key open' found' same => ?_⟩
      exact (open_of_land _ _ found').1 (manifest.one_key (before found') found same)
    · obtain ⟨other, aboard, closed⟩ := manifest.landed m ended
      exact ⟨other, aboard, fun key open' found' => closed key open' (before found')⟩
  case single => exact fun other => manifest.completions_land found own time other
  case isOpen => exact fun key => manifest.isOpen_land known time key

end Landing

section Joining

theorem below (manifest : Manifest f callers log) {key : String} {open' : Flight}
    (found : f.find? key = some open') : open'.number < f.next := by
  obtain ⟨m, aboard⟩ := manifest.opened key open' found
  exact manifest.numbered m _ aboard

theorem once_join (manifest : Manifest f callers log) (fresh : ∀ other, n ∉ passengers log other)
    (flight time : Nat) : ((joins (.joined n flight time :: log)).map Prod.fst).Nodup := by
  refine List.nodup_cons.mpr ⟨fun member => ?_, manifest.once⟩
  obtain ⟨join, listed, same⟩ := List.mem_map.mp member
  refine fresh join.2.1 ?_
  simp only [passengers, List.mem_reverse, List.mem_map, List.mem_filter, decide_eq_true_eq]
  exact ⟨join, ⟨listed, rfl⟩, same⟩

theorem completions_join (manifest : Manifest f callers log)
    (fresh : ∀ other, n ∉ passengers log other) (flight time other : Nat) :
    completions (.joined n flight time :: log) other = completions log other := by
  refine List.filter_congr fun m ended => ?_
  have different : m ≠ n := by
    rintro rfl
    obtain ⟨before, aboard, -⟩ := manifest.landed m ended
    exact fresh before aboard
  simp [mem_passengers_joined, different]

theorem isOpen_join (manifest : Manifest f callers log) (known : callers[n]? = some caller)
    (flight time : Nat) (key : String) : ((f.join caller.key n).1.find? key).isSome ↔
      OpenSince callers key (.joined n flight time :: log) := by
  rw [openSince_cons, find?_join]
  by_cases asked : key = caller.key
  · subst asked
    simp only [↓reduceIte, Option.isSome_some, true_iff]
    exact Or.inl ⟨n, flight, time, caller, rfl, known, rfl⟩
  · rw [if_neg asked, manifest.isOpen]
    constructor
    · exact fun still => Or.inr ⟨still, fun m ended other same => by cases same⟩
    · rintro (⟨m, flight, time, other, same, known', mine⟩ | ⟨still, -⟩)
      · cases same
        rw [known] at known'
        cases known'
        exact absurd mine.symm asked
      · exact still

variable (manifest : Manifest f callers log) {flight : Nat}
  (number : flight = (boarded caller.key n f.next (f.find? caller.key)).number)

include manifest number

theorem alike {m : Nat} {other : Caller} (aboard : m ∈ passengers log flight)
    (known : callers[m]? = some other) : other.key = caller.key := by
  cases mine : f.find? caller.key with
  | none =>
      have limit := manifest.numbered m flight aboard
      rw [number, mine] at limit
      exact absurd limit (Nat.lt_irrefl _)
  | some old =>
      rw [mine, number_boarded] at number
      exact manifest.keyed m other caller.key old mine (number ▸ aboard) known

theorem apart {key : String} {open' : Flight} (asked : key ≠ caller.key)
    (found : f.find? key = some open') : open'.number ≠ flight := by
  intro same
  cases mine : f.find? caller.key with
  | none =>
      have limit := manifest.below found
      rw [same, number, mine] at limit
      exact Nat.lt_irrefl _ limit
  | some old =>
      rw [mine, number_boarded] at number
      exact asked (manifest.one_key found mine (same.trans number))

theorem numbered_join (time : Nat) {m other : Nat}
    (aboard : m ∈ passengers (.joined n flight time :: log) other) :
    other < (f.join caller.key n).1.next := by
  rw [next_join]
  rcases mem_passengers_joined.mp aboard with old | ⟨rfl, rfl⟩
  · have limit := manifest.numbered m other old
    split <;> omega
  · cases mine : f.find? caller.key with
    | none => simp [number, mine, boarded]
    | some old =>
        have limit := manifest.below mine
        rw [mine, number_boarded] at number
        simpa [number] using limit

theorem keyed_join (known : callers[n]? = some caller) (time : Nat) {m : Nat} {other : Caller}
    {key : String} {open' : Flight} (found : (f.join caller.key n).1.find? key = some open')
    (aboard : m ∈ passengers (.joined n flight time :: log) open'.number)
    (known' : callers[m]? = some other) : other.key = key := by
  rcases open_of_join _ _ _ found with ⟨rfl, rfl⟩ | ⟨asked, found'⟩
  · rw [← number] at aboard
    rcases mem_passengers_joined.mp aboard with old | ⟨rfl, -⟩
    · exact manifest.alike number old known'
    · rw [known] at known'
      cases known'
      rfl
  · rcases mem_passengers_joined.mp aboard with old | ⟨-, same⟩
    · exact manifest.keyed m other key open' found' old known'
    · exact absurd same.symm (manifest.apart number asked found')

theorem together_join (known : callers[n]? = some caller) (time : Nat) {m k other : Nat}
    {c d : Caller} (left : m ∈ passengers (.joined n flight time :: log) other)
    (right : k ∈ passengers (.joined n flight time :: log) other)
    (known' : callers[m]? = some c) (known'' : callers[k]? = some d) : c.key = d.key := by
  rcases mem_passengers_joined.mp left with old | ⟨rfl, rfl⟩
  · rcases mem_passengers_joined.mp right with old' | ⟨rfl, rfl⟩
    · exact manifest.together m k c d other old old' known' known''
    · rw [known] at known''
      cases known''
      exact manifest.alike number old known'
  · rw [known] at known'
    cases known'
    rcases mem_passengers_joined.mp right with old' | ⟨rfl, -⟩
    · exact (manifest.alike number old' known'').symm
    · rw [known] at known''
      cases known''
      rfl

theorem running_join (time : Nat) {m : Nat} {key : String} {open' : Flight}
    (found : (f.join caller.key n).1.find? key = some open') (runner : open'.runner = some m) :
    m ∈ passengers (.joined n flight time :: log) open'.number := by
  rcases open_of_join _ _ _ found with ⟨rfl, rfl⟩ | ⟨asked, found'⟩
  · rw [← number, mem_passengers_joined]
    cases mine : f.find? caller.key with
    | none =>
        rw [mine] at runner
        exact Or.inr ⟨(Option.some.inj runner).symm, rfl⟩
    | some old =>
        rw [mine] at runner number
        -- the caller runs the flight that nobody ran; otherwise the runner is the old one
        cases manned : old.runner with
        | none =>
            simp only [boarded, manned] at runner
            exact Or.inr ⟨(Option.some.inj runner).symm, rfl⟩
        | some first =>
            simp only [boarded, manned] at runner number
            exact Or.inl (number ▸ manifest.running caller.key old m mine (manned.trans runner))
  · exact mem_passengers_joined.mpr (Or.inl (manifest.running key open' m found' runner))

theorem queued_join (time : Nat) {key : String} {open' : Flight}
    (found : (f.join caller.key n).1.find? key = some open') :
    open'.waiting.Sublist (passengers (.joined n flight time :: log) open'.number) := by
  rcases open_of_join _ _ _ found with ⟨rfl, rfl⟩ | ⟨asked, found'⟩
  · rw [← number, passengers_joined, if_pos rfl]
    cases mine : f.find? caller.key with
    | none => exact List.nil_sublist _
    | some old =>
        have order := manifest.queued caller.key old mine
        rw [mine] at number
        cases manned : old.runner with
        | none =>
            simp only [boarded, manned] at number ⊢
            exact number ▸ order.trans (List.sublist_append_left _ _)
        | some first =>
            simp only [boarded, manned] at number ⊢
            exact number ▸ order.append (List.Sublist.refl _)
  · rw [passengers_joined, if_neg fun same => manifest.apart number asked found' same.symm]
    exact manifest.queued key open' found'

omit number in
theorem landed_join (time : Nat) {m : Nat} (ended : m ∈ endings log) :
    ∃ other, m ∈ passengers (.joined n flight time :: log) other ∧
      ∀ key open', (f.join caller.key n).1.find? key = some open' → open'.number ≠ other := by
  obtain ⟨other, aboard, closed⟩ := manifest.landed m ended
  refine ⟨other, mem_passengers_joined.mpr (Or.inl aboard), fun key open' found same => ?_⟩
  rcases open_of_join _ _ _ found with ⟨rfl, rfl⟩ | ⟨asked, found'⟩
  · cases mine : f.find? caller.key with
    | none =>
        have limit := manifest.numbered m other aboard
        rw [mine] at same
        exact Nat.lt_irrefl _ (same.symm ▸ limit)
    | some old =>
        rw [mine, number_boarded] at same
        exact closed caller.key old mine same
  · exact closed key open' found' same

end Joining

theorem join (manifest : Manifest f callers log) (known : callers[n]? = some caller)
    (fresh : ∀ flight, n ∉ passengers log flight) (time : Nat) :
    Manifest (f.join caller.key n).1 callers
      (.joined n (f.join caller.key n).2.flight time :: log) := by
  have number := join_flight f caller.key n
  generalize (f.join caller.key n).2.flight = flight at number
  constructor
  case once => exact manifest.once_join fresh flight time
  case numbered => exact fun m other aboard => manifest.numbered_join number time aboard
  case known =>
    intro m other aboard
    rcases mem_passengers_joined.mp aboard with old | ⟨rfl, rfl⟩
    · exact manifest.known m other old
    · exact ⟨caller, known⟩
  case keyed =>
    exact fun m other key open' found aboard known' =>
      manifest.keyed_join number known time found aboard known'
  case together =>
    exact fun m k c d other left right known' known'' =>
      manifest.together_join number known time left right known' known''
  case opened =>
    intro key open' found
    rcases open_of_join _ _ _ found with ⟨rfl, rfl⟩ | ⟨asked, found'⟩
    · exact ⟨n, mem_passengers_joined.mpr (Or.inr ⟨rfl, number⟩)⟩
    · obtain ⟨m, aboard⟩ := manifest.opened key open' found'
      exact ⟨m, mem_passengers_joined.mpr (Or.inl aboard)⟩
  case running =>
    exact fun key open' m found runner => manifest.running_join number time found runner
  case queued => exact fun key open' found => manifest.queued_join number time found
  case landed => exact fun m ended => manifest.landed_join time ended
  case single =>
    intro other
    rw [manifest.completions_join fresh]
    exact manifest.single other
  case isOpen => exact manifest.isOpen_join known flight time

end Manifest

end LatencyRank.Sharing
