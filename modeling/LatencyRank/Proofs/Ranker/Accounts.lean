import Mathlib
import LatencyRank.Probe.Script
import LatencyRank.Proofs.Cache.Sharded
import LatencyRank.Proofs.History.Book
import LatencyRank.Proofs.Ranker.Chronicle

/-!
The accounts of a ranker. The histories count every complete measurement of an address once, beside
what was entered from outside; the cache has the latest one, as long as it is not taken away.
-/

namespace LatencyRank

namespace Deed

def counts (ip : String) : Deed → Bool
  | .measured _ other _ _ => ip = other
  | .recorded entry => ip = entry.ip
  | _ => false

section Histories

theorem ip_verdictOf (ip : String) (answers : List (Option Sample)) (wall : Int) :
    (Ranker.verdictOf ip answers wall).ip = ip := by
  unfold Ranker.verdictOf
  split
  · rfl
  · split <;> rfl

theorem total_enter {deed : Deed} (keeps : deed ≠ .historyCleared) (book : HistoryBook) (ip : String) :
    ((enter book deed).record ip).total =
      if deed.counts ip then Unsigned.bump Unsigned.greatest64 (book.record ip).total
      else (book.record ip).total := by
  cases deed with
  | measured n other answers wall =>
      rw [enter, HistoryBook.total_note, ip_verdictOf]
      simp only [counts, decide_eq_true_eq]
  | recorded entry =>
      rw [enter, HistoryBook.total_note]
      simp only [counts, decide_eq_true_eq]
  | historyCleared => exact absurd rfl keeps
  | cacheCleared => rfl
  | swept wall => rfl

/-- Unless the histories are cleared, an address has as many attempts more as deeds count for it. -/
theorem total_enterAll {deeds : List Deed} (keeps : .historyCleared ∉ deeds) {book : HistoryBook}
    {ip : String}
    (below : (book.record ip).total + deeds.countP (counts ip) ≤ Unsigned.greatest64) :
    ((deeds.foldl enter book).record ip).total =
      (book.record ip).total + deeds.countP (counts ip) := by
  induction deeds generalizing book with
  | nil => rfl
  | cons deed rest ih =>
      obtain ⟨first, others⟩ := not_or.mp (List.mem_cons.not.mp keeps)
      have one := total_enter (fun same => first same.symm) book ip
      rw [List.countP_cons] at below
      rw [List.foldl_cons, List.countP_cons]
      by_cases mine : deed.counts ip = true
      · rw [if_pos mine] at one below ⊢
        rw [Unsigned.bump_of_lt (by omega)] at one
        rw [ih others (by omega), one]
        omega
      · rw [if_neg mine] at one below ⊢
        rw [ih others (by omega), one]
        omega

end Histories

section Cached

theorem shardCount_keep (s : Settings) (cache : ShardedCache) (deed : Deed) :
    (keep s cache deed).shardCount = cache.shardCount := by
  cases deed with
  | measured n ip answers wall =>
      rw [keep_measured, Ranker.cacheAfter]
      split
      · exact ShardedCache.shardCount_insert ..
      · rfl
  | cacheCleared => exact List.length_map ..
  | swept wall => exact ShardedCache.shardCount_cleanup ..
  | _ => rfl

theorem shardCount_keepAll (s : Settings) (cache : ShardedCache) (deeds : List Deed) :
    (deeds.foldl (keep s) cache).shardCount = cache.shardCount := by
  induction deeds generalizing cache with
  | nil => rfl
  | cons deed rest ih => rw [List.foldl_cons, ih, shardCount_keep]

theorem find?_keep (s : Settings) {cache : ShardedCache} (some' : 0 < cache.shardCount) (n : Nat)
    (ip other : String) (answers : List (Option Sample)) (wall : Int) :
    (keep s cache (.measured n ip answers wall)).find? other =
      if s.usesCache = true ∧ other = ip then
        some (Ranker.entryFor s wall (Ranker.resultOf s ip answers))
      else cache.find? other := by
  have own : (Ranker.resultOf s ip answers).ip = ip := ip_measure ..
  rw [keep_measured, Ranker.cacheAfter]
  by_cases used : s.usesCache = true
  · rw [if_pos used, own, ShardedCache.find?_insert some']
    simp only [used, true_and]
  · rw [if_neg used, if_neg fun both => used both.1]

end Cached

end Deed

namespace Act

variable {σ : Type}

def records (ip : String) : Act σ → Bool
  | .record entry => ip = entry.ip
  | _ => false

end Act

namespace Ranker

variable {σ : Type}

section Counting

/-- The jobs whose measurement is of an address and is complete. -/
def measurers (r : Ranker σ) (ip : String) : Finset Nat :=
  {n ∈ Finset.range r.jobs.length | r.jobs[n]?.map Job.ip = some ip ∧
    Complete r.settings.attemptCount (answersOf n r.journal)}

variable {r : Ranker σ} {ip : String} {n : Nat}

theorem mem_measurers : n ∈ r.measurers ip ↔ r.jobs[n]?.map Job.ip = some ip ∧
    Complete r.settings.attemptCount (answersOf n r.journal) := by
  rw [measurers, Finset.mem_filter, Finset.mem_range]
  constructor
  · exact fun both => both.2
  · intro mine
    obtain ⟨job, known, -⟩ := Option.map_eq_some_iff.mp mine.1
    exact ⟨(List.getElem?_eq_some_iff.mp known).1, mine⟩

theorem ip_of_answered (agree : JobsAgree r) (act : Act σ) (answered : answersOf n r.journal ≠ []) :
    (r.perform act).jobs[n]?.map Job.ip = r.jobs[n]?.map Job.ip := by
  have inside : n < r.jobs.length :=
    Nat.lt_of_not_le fun outside => answered (agree.attends.unborn n outside)
  have known := List.getElem?_eq_getElem inside
  obtain ⟨job', known', ip⟩ := ip_perform r act known
  rw [known, known', Option.map_some, Option.map_some, ip]

theorem answered_of_complete {answers : List (Option Sample)}
    (complete : Complete r.settings.attemptCount answers) : answers ≠ [] := by
  rintro rfl
  exact not_complete_nil _ complete

theorem measurers_of_lasts (agree : JobsAgree r) {act : Act σ} (lasts : Lasts r (r.perform act))
    (ip : String) : (r.perform act).measurers ip = r.measurers ip := by
  ext n
  have same : (r.perform act).settings = r.settings := (fixed_perform r act).1
  rw [mem_measurers, mem_measurers, same]
  constructor
  · rintro ⟨mine, complete⟩
    rw [lasts n (Or.inr complete)] at complete
    rw [ip_of_answered agree act (answered_of_complete complete)] at mine
    exact ⟨mine, complete⟩
  · rintro ⟨mine, complete⟩
    rw [ip_of_answered agree act (answered_of_complete complete), lasts n (Or.inl complete)]
    exact ⟨mine, complete⟩

theorem measurers_of_concludes (agree : JobsAgree r) {act : Act σ} {job : Job}
    (concludes : Concludes r n job (r.perform act)) (ip : String) :
    (r.perform act).measurers ip = if ip = job.ip then insert n (r.measurers ip) else r.measurers ip := by
  have same : (r.perform act).settings = r.settings := (fixed_perform r act).1
  obtain ⟨job', known, own⟩ := concludes.known
  have new : n ∈ (r.perform act).measurers ip ↔ ip = job.ip := by
    rw [mem_measurers, known, Option.map_some, own, same, Option.some.injEq]
    exact ⟨fun both => both.1.symm, fun mine => ⟨mine.symm, concludes.complete⟩⟩
  have old : n ∉ r.measurers ip := fun member => concludes.incomplete (mem_measurers.mp member).2
  have others (m : Nat) (different : m ≠ n) :
      m ∈ (r.perform act).measurers ip ↔ m ∈ r.measurers ip := by
    rw [mem_measurers, mem_measurers, same, concludes.others m different]
    refine and_congr_left fun complete => ?_
    rw [ip_of_answered agree act (answered_of_complete complete)]
  ext m
  by_cases here : m = n
  · subst here
    rw [new]
    split
    · rename_i mine
      simp [mine]
    · rename_i mine
      simp [mine, old]
  · rw [others m here]
    split
    · rw [Finset.mem_insert, or_iff_right here]
    · rfl

/-- What counts for an address is what is entered from outside and what its jobs measure. -/
theorem counts_perform (agree : JobsAgree r) (act : Act σ) (ip : String) :
    (r.deedsOf act).countP (Deed.counts ip) + (r.measurers ip).card =
      [act].countP (Act.records ip) + ((r.perform act).measurers ip).card := by
  obtain ⟨takes, -⟩ := taken_perform agree.boarded agree.attends act
  cases takes with
  | none lasts deeds =>
      have entered : (r.outside act).countP (Deed.counts ip) = [act].countP (Act.records ip) := by
        cases act with
        | sweep =>
            rw [outside]
            split <;> rfl
        | _ => rfl
      rw [deeds, entered, measurers_of_lasts agree lasts]
  | one n job turn concludes deeds =>
      have old : n ∉ r.measurers ip := fun member => concludes.incomplete (mem_measurers.mp member).2
      have silent : [act].countP (Act.records ip) = 0 := by
        rw [turn]
        rfl
      rw [deeds, silent, measurers_of_concludes agree concludes, List.countP_singleton, Deed.counts]
      by_cases mine : ip = job.ip
      · rw [if_pos mine, if_pos (decide_eq_true mine), Finset.card_insert_of_notMem old]
        omega
      · rw [if_neg mine, if_neg (by simpa using mine)]

theorem counts_after (agree : JobsAgree r) (acts : List (Act σ)) (ip : String) :
    (r.chronicle acts).countP (Deed.counts ip) + (r.measurers ip).card =
      acts.countP (Act.records ip) + ((r.after acts).measurers ip).card := by
  induction acts generalizing r with
  | nil => rfl
  | cons act rest ih =>
      have one := counts_perform agree act ip
      have more := ih (agree.perform act)
      have all : (act :: rest).countP (Act.records ip) =
          [act].countP (Act.records ip) + rest.countP (Act.records ip) := by
        rw [← List.countP_append, List.singleton_append]
      have later : r.after (act :: rest) = (r.perform act).after rest := rfl
      rw [chronicle, List.countP_append, all, later]
      omega

end Counting

section Cached

variable {r start : Ranker σ} {ip : String} {n : Nat} {entry : CacheEntry}

theorem shardCount_make_pos (settings : Settings) (base : String) (disk : Disk) (prober : Prober σ)
    (memory : σ) (clock : WallClock) :
    0 < (make settings base disk prober memory clock).cache.shardCount :=
  (ShardedCache.shardCount_make _).symm ▸ ShardedCache.shardCountFor_pos _

/-- The entry of the measurement of an address that a job completes with the next turn. -/
def entryDue (r : Ranker σ) (n : Nat) (ip : String) : CacheEntry :=
  entryFor r.settings r.wall (resultOf r.settings ip (answersOf n (r.perform .turn).journal))

theorem find?_of_completes (agree : JobsAgree r) (some' : 0 < r.cache.shardCount)
    (used : r.settings.usesCache = true) (completes : Completes r n ip) :
    (r.perform .turn).cache.find? ip = some (r.entryDue n ip) := by
  obtain ⟨takes, -, cache⟩ := taken_perform agree.boarded agree.attends .turn
  obtain ⟨job, -, -, deeds⟩ := completes.concludes takes
  rw [cache, deeds, List.foldl_cons, List.foldl_nil, Deed.find?_keep r.settings some',
    if_pos ⟨used, rfl⟩]
  rfl

theorem stage_of_completes (agree : JobsAgree r) (completes : Completes r n ip) :
    (r.perform .turn).jobs[n]?.map Job.stage =
      some (.done (resultOf r.settings ip (answersOf n (r.perform .turn).journal))) := by
  obtain ⟨job, known, own⟩ := Option.map_eq_some_iff.mp completes.address
  have settings : (r.perform .turn).settings = r.settings := (fixed_perform r .turn).1
  have stage := done_of_complete (agree.perform .turn).attends known (settings ▸ completes.complete)
  rw [known, Option.map_some, stage, own, settings]

theorem find?_of_outside (act : Act σ)
    (found : ((r.outside act).foldl (Deed.keep r.settings) r.cache).find? ip = some entry) :
    r.cache.find? ip = some entry := by
  cases act with
  | clearCache =>
      have cleared : r.cache.clear.find? ip = some entry := found
      rw [ShardedCache.find?_clear] at cleared
      cases cleared
  | sweep =>
      rw [outside] at found
      split at found
      · exact ShardedCache.find?_of_cleanup found
      · exact found
  | _ => exact found

theorem find?_of_still (agree : JobsAgree r) (some' : 0 < r.cache.shardCount) {act : Act σ}
    (still : ¬(r.settings.usesCache = true ∧ act = .turn ∧ ∃ n, Completes r n ip)) :
    (∀ entry, (r.perform act).cache.find? ip = some entry → r.cache.find? ip = some entry) ∧
      (act ≠ .clearCache → act ≠ .sweep → (r.perform act).cache.find? ip = r.cache.find? ip) := by
  obtain ⟨takes, -, cache⟩ := taken_perform agree.boarded agree.attends act
  cases takes with
  | none lasts deeds =>
      rw [cache, deeds]
      refine ⟨fun _ => find?_of_outside act, fun notCleared notSwept => ?_⟩
      cases act with
      | clearCache => exact absurd rfl notCleared
      | sweep => exact absurd rfl notSwept
      | _ => rfl
  | one m job turn concludes deeds =>
      have same : (r.perform act).cache.find? ip = r.cache.find? ip := by
        rw [cache, deeds, List.foldl_cons, List.foldl_nil, Deed.find?_keep r.settings some',
          if_neg]
        rintro ⟨used, rfl⟩
        subst turn
        exact still ⟨used, rfl, m, completes_of_concludes concludes⟩
      rw [same]
      exact ⟨fun _ => id, fun _ _ => rfl⟩

/-- What an entry holds of a measurement that was stored at a time of day. -/
structure Holds (s : Settings) (wall : Int) (m : Measurement) (entry : CacheEntry) : Prop where
  latency : entry.latency = m.latency
  loss : entry.loss = m.loss
  method : entry.method = m.method
  staleAt : entry.staleAt = min (Signed.add wall (m.lifetime s.baseLifetime)) entry.expiresAt
  expiresAt : entry.expiresAt = Signed.add (Signed.add wall (m.lifetime s.baseLifetime)) s.grace

/-- An entry holds the measurement of its address that was the last to become complete, as its job has
it. -/
structure Latest (start : Ranker σ) (acts front back : List (Act σ)) (n : Nat) (ip : String)
    (m : Measurement) (entry : CacheEntry) : Prop where
  used : start.settings.usesCache = true
  moment : acts = front ++ .turn :: back
  completes : Completes (start.after front) n ip
  result : m = resultOf start.settings ip (answersOf n ((start.after front).perform .turn).journal)
  outcome : ((start.after front).perform .turn).jobs[n]?.map Job.stage = some (.done m)
  holds : Holds start.settings (start.after front).wall m entry
  last : ∀ front' back' m, acts = front' ++ .turn :: back' → Completes (start.after front') m ip →
    front'.length ≤ front.length

theorem holds_entryDue (r : Ranker σ) (n : Nat) (ip : String) :
    Holds r.settings r.wall (resultOf r.settings ip (answersOf n (r.perform .turn).journal))
      (r.entryDue n ip) :=
  ⟨rfl, rfl, rfl, rfl, rfl⟩

variable (agree : JobsAgree start) (some' : 0 < start.cache.shardCount)

include agree some' in
theorem shardCount_after (acts : List (Act σ)) : 0 < (start.after acts).cache.shardCount := by
  rw [(taken_after agree acts).2, Deed.shardCount_keepAll]
  exact some'

include agree some' in
theorem latest_of_find? (empty : ∀ ip, start.cache.find? ip = none) {acts : List (Act σ)}
    (found : (start.after acts).cache.find? ip = some entry) :
    ∃ front back n m, Latest start acts front back n ip m entry := by
  induction acts using List.reverseRecOn with
  | nil =>
      have nothing : start.cache.find? ip = some entry := found
      rw [empty] at nothing
      cases nothing
  | append_singleton acts act ih =>
      have same : (start.after acts).settings = start.settings := settings_after start acts
      have shards := shardCount_after agree some' acts
      rw [after_append] at found
      by_cases new : (start.after acts).settings.usesCache = true ∧ act = .turn ∧
          ∃ n, Completes (start.after acts) n ip
      · obtain ⟨used, rfl, n, completes⟩ := new
        have due := find?_of_completes (agree.after acts) shards used completes
        have entry' : entry = (start.after acts).entryDue n ip :=
          Option.some.inj (found.symm.trans due)
        refine ⟨acts, [], n, _, same ▸ used, rfl, completes, rfl, ?_, ?_, fun front' back' m moment _ => ?_⟩
        · rw [← same]
          exact stage_of_completes (agree.after acts) completes
        · rw [entry', ← same]
          exact holds_entryDue _ n ip
        have lengths := congrArg List.length moment
        simp only [List.length_append, List.length_cons, List.length_nil] at lengths
        omega
      · -- no measurement of the address became complete, so the entry was there before
        have before := (find?_of_still (agree.after acts) shards new).1 entry found
        obtain ⟨front, back, n, m, latest⟩ := ih before
        refine ⟨front, back ++ [act], n, m, { latest with moment := ?_, last := ?_ }⟩
        · rw [latest.moment, List.append_assoc, List.cons_append]
        · intro front' back' m moment completes
          -- one that was completed later would be this act, or one of the course before
          rcases List.eq_nil_or_concat back' with rfl | ⟨rest, final, rfl⟩
          · obtain ⟨rfl, single⟩ := List.append_inj' moment rfl
            exact absurd ⟨same ▸ latest.used, List.singleton_inj.mp single, m, completes⟩ new
          · rw [List.concat_eq_append, ← List.cons_append, ← List.append_assoc] at moment
            obtain ⟨moment', -⟩ := List.append_inj' moment rfl
            exact latest.last front' rest m moment' completes

include agree some' in
theorem find?_of_measured (used : start.settings.usesCache = true) {front : List (Act σ)}
    (completes : Completes (start.after front) n ip) {back : List (Act σ)}
    (notCleared : .clearCache ∉ back) (notSwept : .sweep ∉ back) :
    ∃ entry, (start.after (front ++ .turn :: back)).cache.find? ip = some entry := by
  induction back using List.reverseRecOn with
  | nil =>
      have same : (start.after front).settings = start.settings := settings_after start front
      rw [after_append]
      exact ⟨_, find?_of_completes (agree.after front) (shardCount_after agree some' front)
        (same ▸ used) completes⟩
  | append_singleton back act ih =>
      obtain ⟨entry, found⟩ := ih (fun member => notCleared (List.mem_append_left _ member))
        fun member => notSwept (List.mem_append_left _ member)
      have moment : front ++ Act.turn :: (back ++ [act]) = (front ++ .turn :: back) ++ [act] := by
        rw [List.append_assoc, List.cons_append]
      rw [moment, after_append]
      have agree' := agree.after (front ++ .turn :: back)
      have shards := shardCount_after agree some' (front ++ .turn :: back)
      generalize start.after (front ++ .turn :: back) = r at found agree' shards
      -- a later measurement puts another entry there; nothing else takes it away
      by_cases new : r.settings.usesCache = true ∧ act = .turn ∧ ∃ n, Completes r n ip
      · obtain ⟨used', rfl, m, completes'⟩ := new
        exact ⟨_, find?_of_completes agree' shards used' completes'⟩
      · have still := (find?_of_still agree' shards new).2
          (fun same => notCleared (by simp [same])) (fun same => notSwept (by simp [same]))
        exact ⟨entry, still.trans found⟩

end Cached

section Accounts

variable {start : Ranker σ}

theorem clearHistory_of_mem {r : Ranker σ} {acts : List (Act σ)}
    (member : .historyCleared ∈ r.chronicle acts) : .clearHistory ∈ acts := by
  obtain ⟨front, act, back, rfl, due⟩ := mem_chronicle member
  refine List.mem_append_right front ?_
  rcases List.mem_append.mp due with completed | outside
  · obtain ⟨n, -, completion⟩ := List.mem_filterMap.mp completed
    simp only [Ranker.completion] at completion
    split at completion
    · obtain ⟨job, -, same⟩ := Option.map_eq_some_iff.mp completion
      cases same
    · cases completion
  · cases act with
    | clearHistory => exact List.mem_cons_self
    | sweep =>
        rw [Ranker.outside] at outside
        split at outside <;> simp at outside
    | _ => simp [Ranker.outside] at outside

theorem total_after (agree : JobsAgree start) {acts : List (Act σ)} (keeps : .clearHistory ∉ acts)
    {ip : String} (nobody : start.measurers ip = ∅)
    (below : (start.history.record ip).total + acts.countP (Act.records ip) +
      ((start.after acts).measurers ip).card ≤ Unsigned.greatest64) :
    ((start.after acts).history.record ip).total =
      (start.history.record ip).total + acts.countP (Act.records ip) +
        ((start.after acts).measurers ip).card := by
  have counts := counts_after agree acts ip
  rw [nobody, Finset.card_empty, Nat.add_zero] at counts
  rw [(taken_after agree acts).1,
    Deed.total_enterAll (fun member => keeps (clearHistory_of_mem member)) (by omega)]
  omega

theorem Latest.method (agree : JobsAgree start) {acts front back : List (Act σ)} {n : Nat} {ip : String}
    {m : Measurement} {entry : CacheEntry} (latest : Latest start acts front back n ip m entry) :
    entry.method = .none ∨
      ∃ sample, start.prober.Reports (some sample) ∧ entry.method = sample.method := by
  have attends := ((agree.after front).perform .turn).attends
  have prober : ((start.after front).perform .turn).prober = start.prober :=
    (fixed_perform _ _).2.trans (prober_after start front)
  rw [latest.holds.method, latest.result]
  rcases method_of_complete (attemptCount_pos _)
    (settings_after start front ▸ latest.completes.complete) ip start.settings.strategy with
    nothing | ⟨sample, member, same⟩
  · exact Or.inl nothing
  · exact Or.inr ⟨sample, prober ▸ attends.reported n _ member, same⟩

/-- The accounts of a course. -/
structure Accounts (start : Ranker σ) (acts : List (Act σ)) : Prop where
  once : ∀ n, Once start acts n
  /-- The histories take down what is due and what is entered from outside, and nothing else. -/
  history : (start.after acts).history = (start.chronicle acts).foldl Deed.enter start.history
  cache : (start.after acts).cache =
    (start.chronicle acts).foldl (Deed.keep start.settings) start.cache
  /-- An address has as many attempts as it started with, as were entered from outside and as were
  measured of it. -/
  total : .clearHistory ∉ acts → ∀ ip,
    let expected := (start.history.record ip).total + acts.countP (Act.records ip) +
      ((start.after acts).measurers ip).card
    expected ≤ Unsigned.greatest64 → ((start.after acts).history.record ip).total = expected
  /-- An entry of the cache holds the latest measurement. -/
  latest : ∀ ip entry, (start.after acts).cache.find? ip = some entry →
    ∃ front back n m, Latest start acts front back n ip m entry
  /-- There is one once an address is measured, unless it is taken away. -/
  found : start.settings.usesCache = true → ∀ front back n ip, acts = front ++ .turn :: back →
    Completes (start.after front) n ip → .clearCache ∉ back → .sweep ∉ back →
      ∃ entry, (start.after acts).cache.find? ip = some entry
  /-- What the cache serves comes back to it from the prober only. -/
  label : (∀ sample, start.prober.Reports (some sample) →
      sample.method ≠ .cached ∧ sample.method ≠ .stale) →
    ∀ ip entry, (start.after acts).cache.find? ip = some entry →
      entry.method ≠ .cached ∧ entry.method ≠ .stale

/-- Every measurement is accounted for exactly once. -/
theorem measurements_accounted (settings : Settings) (base : String) (disk : Disk)
    (prober : Prober σ) (memory : σ) (clock : WallClock) (acts : List (Act σ)) :
    Accounts (make settings base disk prober memory clock) acts := by
  generalize made : make settings base disk prober memory clock = start
  have agree : JobsAgree start := made ▸ jobsAgree_make ..
  have silent : start.journal = [] := made ▸ rfl
  have shards : 0 < start.cache.shardCount := made ▸ shardCount_make_pos ..
  have empty (ip : String) : start.cache.find? ip = none := made ▸ ShardedCache.find?_make _ ip
  have nobody (ip : String) : start.measurers ip = ∅ := made ▸ rfl
  obtain ⟨history, cache⟩ := taken_after agree acts
  constructor
  case once => exact once_after agree silent acts
  case history => exact history
  case cache => exact cache
  case total =>
    intro keeps ip expected below
    exact total_after agree keeps (nobody ip) below
  case latest =>
    intro ip entry found
    exact latest_of_find? agree shards empty found
  case found =>
    intro used front back n ip moment completes notCleared notSwept
    rw [moment]
    exact find?_of_measured agree shards used completes notCleared notSwept
  case label =>
    intro honest ip entry found
    obtain ⟨front, back, n, m, latest⟩ := latest_of_find? agree shards empty found
    -- The entry has the method of an answer, and no answer is labelled as one from the cache.
    rcases latest.method agree with nothing | ⟨sample, reported, same⟩
    · rw [nothing]
      exact ⟨by decide, by decide⟩
    · rw [same]
      exact honest sample reported

/-- A ranking is cancelled while its job measures an address that another waits for. The job's
measurement is the only one, counts once beside what was entered from outside, and is what the cache
holds. -/
theorem measurements_accounted_of_detached :
    let scripts := Scripts.direct .empty "10.0.0.2" { usual := some ⟨5, some ⟨20, .tls⟩⟩ }
    let start := make {} "" .empty Scripts.prober scripts ⟨0⟩
    let acts : List (Act Scripts) :=
      [.record (.succeeded "10.0.0.2"), .request ["10.0.0.2"] "example" 0 (some 1),
        .request ["10.0.0.2"] "example" 0 none, .turn, .turn, .turn, .turn, .tick, .turn, .turn,
        .tick, .turn, .tick, .turn, .tick, .turn, .turn, .turn]
    (start.after acts).measurers "10.0.0.2" = {0} ∧
      ((start.after acts).history.record "10.0.0.2").total = 2 ∧
      (start.after acts).cache.find? "10.0.0.2" = some ⟨20, .zero, .tls, 3000015, 3030015⟩ ∧
      ∃ front back n m, Latest start acts front back n "10.0.0.2" m ⟨20, .zero, .tls, 3000015, 3030015⟩ := by
  intro scripts start acts
  have accounts : Accounts start acts :=
    measurements_accounted {} "" .empty Scripts.prober scripts ⟨0⟩ acts
  have one : (start.after acts).measurers "10.0.0.2" = {0} := by
    dsimp only [acts, start, scripts]
    decide +kernel
  have total := accounts.total (by simp [acts]) "10.0.0.2"
  rw [one] at total
  have found : (start.after acts).cache.find? "10.0.0.2" =
      some ⟨20, .zero, .tls, 3000015, 3030015⟩ := by
    dsimp only [acts, start, scripts]
    decide +kernel
  exact ⟨one, total (by decide), found, accounts.latest _ _ found⟩

end Accounts

end Ranker

end LatencyRank
