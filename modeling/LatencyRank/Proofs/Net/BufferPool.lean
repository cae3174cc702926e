import Mathlib
import LatencyRank.Net.BufferPool

/-!
What a pool holds after any use of it. Buffers are taken, written to and given back in any order, any
number of them at a time. A buffer is wiped when it comes back, so whatever was written, the pool is a
number of blank buffers, and the number is told by what was taken and given back alone.
-/

namespace LatencyRank

namespace Buffer

theorem length_blank : List.length blank = length := by rw [blank, List.length_replicate]

theorem wipe_eq_blank {buffer : Buffer} (whole : List.length buffer = length) :
    buffer.wipe = blank := by
  rw [wipe, List.map_const', whole, blank]

end Buffer

namespace BufferPool

section Blanks

variable {n : Nat} {buffer : Buffer}

def blanks (n : Nat) : BufferPool := ⟨List.replicate n Buffer.blank⟩

theorem size_blanks (n : Nat) : (blanks n).size = n := List.length_replicate

theorem acquire_blanks (n : Nat) : (blanks n).acquire = (Buffer.blank, blanks (n - 1)) := by
  cases n with
  | zero => rfl
  | succ n => rfl

theorem release_blanks (within : n ≤ capacity) (whole : List.length buffer = Buffer.length) :
    (blanks n).release buffer = blanks (min (n + 1) capacity) := by
  rw [release, size_blanks, Buffer.wipe_eq_blank whole]
  split
  · rename_i room
    rw [Nat.min_eq_left room]
    rfl
  · rename_i full
    rw [Nat.min_eq_right (by omega), Nat.le_antisymm within (Nat.le_of_not_lt full)]

end Blanks

/-- What is done with buffers. A lent buffer is told by its place, the one taken last is the first; at a
place without a buffer nothing is done. -/
inductive Act where
  | acquire
  /-- From now on the lent buffer holds these bytes. -/
  | write (place : Nat) (contents : Fin Buffer.length → UInt8)
  | release (place : Nat)

structure Lending where
  pool : BufferPool := {}
  lent : List Buffer := []

/-- How many buffers are at rest and how many are lent. -/
structure Tally where
  resting : Nat := 0
  lent : Nat := 0

namespace Lending

def perform (s : Lending) : Act → Lending
  | .acquire => ⟨s.pool.acquire.2, s.pool.acquire.1 :: s.lent⟩
  | .write place contents => { s with lent := s.lent.set place (List.ofFn contents) }
  | .release place => match s.lent[place]? with
    | some buffer => ⟨s.pool.release buffer, s.lent.eraseIdx place⟩
    | none => s

def after (s : Lending) (acts : List Act) : Lending := acts.foldl perform s

end Lending

namespace Tally

/-- Counts an act, whatever is written. -/
def count (t : Tally) : Act → Tally
  | .acquire => ⟨t.resting - 1, t.lent + 1⟩
  | .write .. => t
  | .release place => if place < t.lent then ⟨min (t.resting + 1) capacity, t.lent - 1⟩ else t

def after (t : Tally) (acts : List Act) : Tally := acts.foldl count t

end Tally

namespace Lending

section Accounts

variable {s : Lending} {t : Tally}

/-- Nothing but blank buffers is at rest, as many as were counted. -/
structure Accounted (s : Lending) (t : Tally) : Prop where
  pool : s.pool = blanks t.resting
  within : t.resting ≤ capacity
  lent : s.lent.length = t.lent
  whole : ∀ buffer ∈ s.lent, List.length buffer = Buffer.length

theorem accounted_new : Accounted {} {} :=
  ⟨rfl, Nat.zero_le _, rfl, fun _ member => absurd member List.not_mem_nil⟩

theorem Accounted.acquire (accounted : Accounted s t) :
    Accounted (s.perform .acquire) (t.count .acquire) := by
  have taken : s.pool.acquire = (Buffer.blank, blanks (t.resting - 1)) := by
    rw [accounted.pool, acquire_blanks]
  rw [perform, taken]
  refine ⟨rfl, (Nat.sub_le _ _).trans accounted.within, ?_, fun buffer member => ?_⟩
  · exact congrArg (· + 1) accounted.lent
  · rcases List.mem_cons.mp member with rfl | old
    · exact Buffer.length_blank
    · exact accounted.whole buffer old

theorem Accounted.write (accounted : Accounted s t) (place : Nat)
    (contents : Fin Buffer.length → UInt8) :
    Accounted (s.perform (.write place contents)) (t.count (.write place contents)) := by
  refine ⟨accounted.pool, accounted.within, ?_, fun buffer member => ?_⟩
  · exact List.length_set.trans accounted.lent
  · rcases List.mem_or_eq_of_mem_set member with old | same
    · exact accounted.whole buffer old
    · rw [same, List.length_ofFn]

theorem Accounted.release (accounted : Accounted s t) (place : Nat) :
    Accounted (s.perform (.release place)) (t.count (.release place)) := by
  rw [perform, Tally.count, ← accounted.lent]
  cases found : s.lent[place]? with
  | none =>
    -- nothing is lent there, and nothing comes back
    rw [if_neg (Nat.not_lt.mpr (List.getElem?_eq_none_iff.mp found))]
    exact accounted
  | some buffer =>
    obtain ⟨inside, -⟩ := List.getElem?_eq_some_iff.mp found
    have whole := accounted.whole buffer (List.mem_of_getElem? found)
    have back := release_blanks accounted.within whole
    rw [← accounted.pool] at back
    rw [if_pos inside]
    dsimp only
    rw [back]
    refine ⟨rfl, Nat.min_le_right _ _, List.length_eraseIdx_of_lt inside, fun other member => ?_⟩
    exact accounted.whole other (List.mem_of_mem_eraseIdx member)

theorem Accounted.perform (accounted : Accounted s t) (act : Act) :
    Accounted (s.perform act) (t.count act) := by
  cases act with
  | acquire => exact accounted.acquire
  | write place contents => exact accounted.write place contents
  | release place => exact accounted.release place

theorem Accounted.after (accounted : Accounted s t) (acts : List Act) :
    Accounted (s.after acts) (t.after acts) := by
  induction acts generalizing s t with
  | nil => exact accounted
  | cons act rest ih => exact ih (accounted.perform act)

theorem Accounted.size (accounted : Accounted s t) : s.pool.size = t.resting := by
  rw [accounted.pool, size_blanks]

/-- What those who share a pool can rely on. -/
structure Clean (s : Lending) : Prop where
  /-- A buffer is blank when it is taken, -/
  blank : s.pool.acquire.1 = Buffer.blank
  within : s.pool.size ≤ capacity
  taken : 0 < s.pool.size → (s.perform .acquire).pool.size + 1 = s.pool.size
  made : s.pool.size = 0 → (s.perform .acquire).pool = s.pool
  /-- and what is written to it stays out of the pool. -/
  written : ∀ place contents, (s.perform (.write place contents)).pool = s.pool
  returned : ∀ place < s.lent.length, s.pool.size < capacity →
    (s.perform (.release place)).pool.size = s.pool.size + 1
  dropped : ∀ place < s.lent.length, s.pool.size = capacity →
    (s.perform (.release place)).pool = s.pool

theorem clean_of_accounted (accounted : Accounted s t) : Clean s := by
  -- the size is the one counted, before an act and after it
  have size := accounted.size
  have within := accounted.within
  have acquired : (s.perform .acquire).pool = blanks (t.resting - 1) := accounted.acquire.pool
  have released {place : Nat} (inside : place < s.lent.length) :
      (s.perform (.release place)).pool = blanks (min (t.resting + 1) capacity) := by
    rw [(accounted.release place).pool, Tally.count, if_pos (accounted.lent ▸ inside)]
  constructor
  case blank => rw [accounted.pool, acquire_blanks]
  case within =>
    rw [size]
    exact within
  case taken =>
    intro some'
    rw [acquired, size_blanks, size]
    omega
  case made =>
    intro none'
    rw [acquired, accounted.pool]
    congr 1
    omega
  case written => exact fun _ _ => rfl
  case returned =>
    intro place inside room
    rw [released inside, size_blanks, size]
    omega
  case dropped =>
    intro place inside full
    rw [released inside, accounted.pool]
    congr 1
    omega

/-- Whatever was acquired, written and released before, a buffer is blank when it is acquired, and the pool
is within its capacity. Its size changes as each act says, and is told by the acts alone. -/
theorem clean_after (acts : List Act) :
    let s := ({} : Lending).after acts
    let t := ({} : Tally).after acts
    Clean s ∧ s.pool = blanks t.resting ∧ s.lent.length = t.lent := by
  intro s t
  have accounted : Accounted s t := accounted_new.after acts
  exact ⟨clean_of_accounted accounted, accounted.pool, accounted.lent⟩

example : (({} : Lending).after (List.replicate 65 .acquire ++ .write 3 (fun _ => 255) ::
    List.replicate 65 (.release 0))).pool.size = 64 := by decide +kernel

end Accounts

end Lending

end BufferPool

end LatencyRank
