import Mathlib
import LatencyRank.Proofs.Sharing.Record

/-!
Single flight. However callers come and are called off, a key's work is run by one of them at a
time, those who share a flight share its outcome, and no outcome is older than the caller it is for.
-/

namespace LatencyRank.Sharing

open Flights

/-- Single flight, as one state shows it. -/
structure SingleFlight (s : Sharing) : Prop where
  alone : ∀ (m n : Nat) (c d : Caller), s.callers[m]? = some c → s.callers[n]? = some d →
    c.key = d.key → s.stages[m]? = some .probing → s.stages[n]? = some .probing → m = n
  /-- An outcome is that of a probe of the same key which ended after the caller had come. -/
  fresh : ∀ (n : Nat) (caller : Caller) outcome time, s.callers[n]? = some caller →
    s.stages[n]? = some (.done outcome time) →
    ∃ (m : Nat) (runner : Caller) (flight came ended : Nat) (later earlier : List SharingEvent),
      s.callers[m]? = some runner ∧ runner.key = caller.key ∧ outcome = runner.probe ∧
      s.log = later ++ .ended m ended :: earlier ∧ .joined n flight came ∈ earlier ∧
      caller.arrival ≤ came ∧ came ≤ ended
  shared : ∀ (m n flight : Nat) outcome outcome' time time', m ∈ passengers s.log flight →
    n ∈ passengers s.log flight → s.stages[m]? = some (.done outcome time) →
    s.stages[n]? = some (.done outcome' time') → outcome = outcome'
  /-- One probe of a flight ends at most, -/
  once : ∀ flight, (completions s.log flight).length ≤ 1
  /-- and one does if anybody has an outcome of it. -/
  ended : ∀ (n flight : Nat) outcome time, n ∈ passengers s.log flight →
    s.stages[n]? = some (.done outcome time) → (completions s.log flight).length = 1

section Flight

variable {s : Sharing}

theorem probing_unique (coherent : Coherent s) {m n : Nat} {c d : Caller}
    (known : s.callers[m]? = some c) (known' : s.callers[n]? = some d) (same : c.key = d.key)
    (probes : s.stages[m]? = some .probing) (probes' : s.stages[n]? = some .probing) : m = n := by
  have runs : s.flights.Runs c.key m := (coherent.placed m c _ id known probes).1
  have runs' : s.flights.Runs d.key n := (coherent.placed n d _ id known' probes').1
  exact runs_unique (same ▸ runs) runs'

theorem outcome_of_flight (recorded : Recorded s) {n flight : Nat} {outcome : Measurement}
    {time : Nat} (aboard : n ∈ passengers s.log flight)
    (done : s.stages[n]? = some (.done outcome time)) :
    ∃ m runner, completions s.log flight = [m] ∧ s.callers[m]? = some runner ∧
      outcome = runner.probe := by
  obtain ⟨other, m, caller, runner, -, known, -, found, served⟩ :=
    recorded.outcomes n outcome (Or.inr ⟨time, done⟩)
  obtain ⟨aboard', completed⟩ := served_aboard served
  cases recorded.manifest.one_flight aboard aboard'
  refine ⟨m, runner, ?_, known, found⟩
  have single := recorded.manifest.single flight
  cases shape : completions s.log flight with
  | nil =>
      rw [shape] at completed
      cases completed
  | cons first rest =>
      rw [shape] at completed single
      have last : rest = [] := List.eq_nil_of_length_eq_zero (by simpa using single)
      subst last
      rw [List.mem_singleton.mp completed]

theorem singleFlight_of_sound (sound : Sound s) : SingleFlight s where
  alone := fun _ _ _ _ known known' same probes probes' =>
    probing_unique sound.coherent known known' same probes probes'
  fresh := by
    intro n caller outcome time known done
    obtain ⟨flight, m, it, runner, known', runnerKnown, same, found, served⟩ :=
      sound.recorded.outcomes n outcome (Or.inr ⟨time, done⟩)
    rw [known] at known'
    cases known'
    obtain ⟨later, ended, earlier, came, since, split, joined, -, order⟩ := served
    refine ⟨m, runner, flight, came, ended, later, earlier, runnerKnown, same, found, split, joined,
      ?_, order⟩
    refine sound.recorded.punctual n caller flight came ?_ known
    rw [split]
    exact List.mem_append_right _ (List.mem_cons_of_mem _ joined)
  shared := by
    intro m n flight outcome outcome' time time' aboard aboard' done done'
    obtain ⟨k, runner, landed, known, found⟩ := outcome_of_flight sound.recorded aboard done
    obtain ⟨k', runner', landed', known', found'⟩ := outcome_of_flight sound.recorded aboard' done'
    rw [landed] at landed'
    cases landed'
    rw [known] at known'
    cases known'
    rw [found, found']
  once := sound.recorded.manifest.single
  ended := by
    intro n flight outcome time aboard done
    obtain ⟨m, -, landed, -⟩ := outcome_of_flight sound.recorded aboard done
    rw [landed]
    rfl

/-- Where nothing is left to do, a caller has its outcome unless it was called off, and nobody is
called off who did not ask for it. -/
theorem settled_outcome (sound : Sound s) (settled : s.step? = none) {n : Nat} {caller : Caller}
    (known : s.callers[n]? = some caller) :
    (∃ outcome time, s.stages[n]? = some (.done outcome time)) ∨
      (s.stages[n]? = some .calledOff ∧ caller.calledOff ≠ none) := by
  obtain ⟨stage, at'⟩ := sound.coherent.exists_stage known
  rcases settled_stage sound.coherent settled known at' with ⟨outcome, time, rfl⟩ | rfl
  · exact Or.inl ⟨outcome, time, at'⟩
  · obtain ⟨it, known', asked⟩ := sound.timetable.willing n at'
    cases known.symm.trans known'
    exact Or.inr ⟨at', asked⟩

end Flight

/-- Single flight with fresh outcomes, in every state of every run; and at its end every caller has
an outcome, but for those that were called off. -/
theorem single_flight (callers : List Caller) (countAt : List Nat) :
    (∀ steps, SingleFlight ((start callers countAt).runFor steps)) ∧
      ∀ (n : Nat) (caller : Caller), callers[n]? = some caller →
        (∃ outcome time, (start callers countAt).run.stages[n]? = some (.done outcome time)) ∨
          ((start callers countAt).run.stages[n]? = some .calledOff ∧ caller.calledOff ≠ none) := by
  constructor
  · intro steps
    exact singleFlight_of_sound (sound_runFor callers countAt steps)
  · intro n caller known
    have sound := sound_runFor callers countAt (start callers countAt).work
    refine settled_outcome sound (run_settles callers countAt) ?_
    rw [callers_runFor]
    exact known

/-- The second of three callers shares the probe of the first; the third comes when that has ended
and probes itself. -/
theorem single_flight_of_three :
    let first : Caller := ⟨"k", 0, 3, 7, none⟩
    let second : Caller := ⟨"k", 1, 3, 8, none⟩
    let third : Caller := ⟨"k", 5, 3, 9, none⟩
    let s := (start [first, second, third] []).run
    s.stages = [.done first.probe 3, .done first.probe 3, .done third.probe 8] ∧ SingleFlight s :=
  ⟨by decide, (single_flight _ []).1 _⟩

end LatencyRank.Sharing
