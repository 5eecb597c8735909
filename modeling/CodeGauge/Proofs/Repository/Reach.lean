import CodeGauge.Proofs.Repository.Order
import Mathlib.Logic.Relation

/-!
# What the log reaches

The log is a search of the graph of commits along their parents.  What it has taken, what waits and
what was met hang together by an invariant (`Frontier.Follows`) that each step keeps; at the end
nothing waits, and so everything that can be reached was taken.  Without a limit the log of a
repository in which nothing is missing lists every commit that the head reaches, each once and
after one of its children (`log_lists_reached`).
-/

namespace CodeGauge.Repository

variable {repository : Repository}

def HasParent (repository : Repository) (child parent : Nat) : Prop :=
  ∃ commit, repository.commit? child = some commit ∧ parent ∈ commit.parents

/-- A commit is reached from another one by going to parents any number of times. -/
def Reaches (repository : Repository) : Nat → Nat → Prop :=
  Relation.ReflTransGen repository.HasParent

theorem mem_parentsOf {child parent : Nat} :
    parent ∈ repository.parentsOf child ↔ repository.HasParent child parent := by
  unfold parentsOf HasParent
  cases repository.commit? child <;> simp

theorem commit?_isSome_of_reaches {head place : Nat}
    (named : ∀ commit ∈ repository.commits, ∀ parent ∈ commit.parents,
      parent < repository.commits.length)
    (inside : head < repository.commits.length) (reached : repository.Reaches head place) :
    (repository.commit? place).isSome = true := by
  have place_inside : place < repository.commits.length := by
    induction reached with
    | refl => exact inside
    | tail _ step _ =>
        obtain ⟨commit, present, mem⟩ := step
        exact named commit (List.mem_of_getElem? present) _ mem
  simp [commit?, place_inside]

theorem newest?_eq_none_iff {places : List Nat} :
    repository.newest? places = none ↔ places = [] := by
  cases places with
  | nil => simp [newest?]
  | cons place others =>
      rw [newest?]
      split
      · simp
      · split <;> simp

theorem waitingTime_le_newest {places : List Nat} {place : Nat}
    (newest : repository.newest? places = some place) {other : Nat} (mem : other ∈ places) :
    repository.waitingTime other ≤ repository.waitingTime place := by
  induction places generalizing place with
  | nil => simp at mem
  | cons first others ih =>
      rw [newest?] at newest
      rcases List.mem_cons.mp mem with rfl | later
      · split at newest
        · exact Option.some.inj newest ▸ Int.le_refl _
        · split at newest
          · rename_i older
            exact Option.some.inj newest ▸ Int.le_of_lt older
          · exact Option.some.inj newest ▸ Int.le_refl _
      · split at newest
        · rename_i nothing
          simp [newest?_eq_none_iff.mp nothing] at later
        · rename_i best best_newest
          have bound := ih best_newest later
          split at newest
          · exact Option.some.inj newest ▸ bound
          · rename_i not_older
            have first_newest := Int.not_lt.mp not_older
            exact Option.some.inj newest ▸ Int.le_trans bound first_newest

namespace Frontier

theorem mem_met_foldl_meet {frontier : Frontier} {places : List Nat} {other : Nat} :
    other ∈ (places.foldl meet frontier).met ↔ other ∈ frontier.met ∨ other ∈ places := by
  induction places generalizing frontier with
  | nil => simp
  | cons place places ih =>
      have first : other ∈ (frontier.meet place).met ↔ other ∈ frontier.met ∨ other = place := by
        unfold meet
        split
        · rename_i met
          have known : place ∈ frontier.met := by simpa using met
          exact ⟨.inl, fun either => either.elim id fun same => same ▸ known⟩
        · simp [or_comm]
      rw [List.foldl_cons, ih, first, List.mem_cons, or_assoc]

theorem mem_waiting_foldl_meet {frontier : Frontier} {places : List Nat} {other : Nat} :
    other ∈ (places.foldl meet frontier).waiting ↔
      other ∈ frontier.waiting ∨ other ∈ places ∧ other ∉ frontier.met := by
  induction places generalizing frontier with
  | nil => simp
  | cons place places ih =>
      rw [List.foldl_cons, ih]
      by_cases known : place ∈ frontier.met
      · have unchanged : frontier.meet place = frontier := by simp [meet, known]
        rw [unchanged, List.mem_cons]
        have apart : other ∉ frontier.met → other ≠ place := by
          rintro unknown rfl
          exact unknown known
        grind
      · have added : frontier.meet place =
            ⟨frontier.waiting ++ [place], place :: frontier.met⟩ := by simp [meet, known]
        simp only [added, List.mem_append, List.mem_cons]
        by_cases same : other = place
        · simp [same, known]
        · simp [same]

theorem mem_met_advance {frontier : Frontier} {place other : Nat} {parents : List Nat} :
    other ∈ (frontier.advance place parents).met ↔ other ∈ frontier.met ∨ other ∈ parents :=
  mem_met_foldl_meet

theorem mem_waiting_advance {frontier : Frontier} (sound : frontier.IsSound) {place other : Nat}
    {parents : List Nat} :
    other ∈ (frontier.advance place parents).waiting ↔
      (other ≠ place ∧ other ∈ frontier.waiting) ∨ other ∈ parents ∧ other ∉ frontier.met := by
  rw [advance, mem_waiting_foldl_meet, sound.distinct.mem_erase_iff]

/-- The frontier of a search from a head stands where some places have been taken. -/
structure Follows (repository : Repository) (head : Nat) (before : List Nat)
    (frontier : Frontier) : Prop where
  sound : frontier.IsSound
  met_iff : ∀ place, place ∈ frontier.met ↔ place ∈ before ∨ place ∈ frontier.waiting
  head_met : head ∈ frontier.met
  /-- The parents of what was taken were met. -/
  closed : ∀ child ∈ before, ∀ parent ∈ repository.parentsOf child, parent ∈ frontier.met
  reached : ∀ place ∈ frontier.met, repository.Reaches head place
  /-- What waits is the head or a parent of what was taken. -/
  descends : ∀ place ∈ frontier.waiting,
    place = head ∨ ∃ child ∈ before, place ∈ repository.parentsOf child

theorem follows_start (repository : Repository) (head : Nat) :
    Follows repository head [] ⟨[head], [head]⟩ where
  sound := isSound_start head
  met_iff := by simp
  head_met := List.mem_singleton_self head
  closed := by simp
  reached := by
    intro place mem
    rw [List.mem_singleton.mp mem]
    exact Relation.ReflTransGen.refl
  descends := fun place mem => .inl (List.mem_singleton.mp mem)

theorem Follows.advance {head : Nat} {before : List Nat} {frontier : Frontier}
    (follows : frontier.Follows repository head before) {place : Nat}
    (waits : place ∈ frontier.waiting) :
    (frontier.advance place (repository.parentsOf place)).Follows repository head
      (before ++ [place]) where
  sound := isSound_advance follows.sound place _
  met_iff := by
    intro other
    rw [mem_met_advance, mem_waiting_advance follows.sound, List.mem_append, List.mem_singleton]
    by_cases known : other ∈ frontier.met
    · by_cases same : other = place
      · simp [same, follows.sound.waiting_met place waits]
      · simpa [known, same] using (follows.met_iff other).mp known
    · have untaken := mt (follows.met_iff other).mpr known
      rw [not_or] at untaken
      have apart : other ≠ place := fun same => untaken.2 (same ▸ waits)
      simp [known, untaken.1, untaken.2, apart]
  head_met := mem_met_advance.mpr (.inl follows.head_met)
  closed := by
    intro child mem parent parent_mem
    rcases List.mem_append.mp mem with earlier | last
    · exact mem_met_advance.mpr (.inl (follows.closed child earlier parent parent_mem))
    · rw [List.mem_singleton.mp last] at parent_mem
      exact mem_met_advance.mpr (.inr parent_mem)
  reached := by
    intro other mem
    rcases mem_met_advance.mp mem with known | parent
    · exact follows.reached other known
    · have here := follows.reached place (follows.sound.waiting_met place waits)
      exact here.tail (mem_parentsOf.mp parent)
  descends := by
    intro other mem
    rcases (mem_waiting_advance follows.sound).mp mem with ⟨-, waited⟩ | ⟨parent, -⟩
    · rcases follows.descends other waited with same | ⟨child, child_mem, parent⟩
      · exact .inl same
      · exact .inr ⟨child, List.mem_append_left _ child_mem, parent⟩
    · exact .inr ⟨place, List.mem_append_right _ (List.mem_singleton_self place), parent⟩

theorem Follows.mem_iff_reaches {head : Nat} {before : List Nat} {frontier : Frontier}
    (follows : frontier.Follows repository head before) (finished : frontier.waiting = [])
    (place : Nat) : place ∈ before ↔ repository.Reaches head place := by
  have met_iff : ∀ other, other ∈ frontier.met ↔ other ∈ before := by
    intro other
    simpa [finished] using follows.met_iff other
  constructor
  · exact fun taken => follows.reached place ((met_iff place).mpr taken)
  · intro reached
    -- along the path: what was met was taken, and then its parents were met
    rw [← met_iff]
    induction reached with
    | refl => exact follows.head_met
    | tail _ step met =>
        exact follows.closed _ ((met_iff _).mp met) _ (mem_parentsOf.mpr step)

end Frontier

section Runs

variable {head steps : Nat} {before : List Nat} {frontier : Frontier}

theorem follows_takenFrom (follows : frontier.Follows repository head before) (steps : Nat) :
    ∃ final : Frontier,
      final.Follows repository head (before ++ repository.takenFrom steps frontier) ∧
        ((repository.takenFrom steps frontier).length < steps → final.waiting = []) := by
  induction steps generalizing before frontier with
  | zero => exact ⟨frontier, by simpa [takenFrom] using follows, by simp⟩
  | succ steps ih =>
      cases newest : repository.newest? frontier.waiting with
      | none =>
          rw [takenFrom_succ_of_none newest, List.append_nil]
          exact ⟨frontier, follows, fun _ => newest?_eq_none_iff.mp newest⟩
      | some place =>
          obtain ⟨final, final_follows, finished⟩ := ih (follows.advance (mem_of_newest? newest))
          rw [List.append_assoc, List.singleton_append] at final_follows
          rw [takenFrom_succ_of_some newest]
          exact ⟨final, final_follows, fun short => finished (Nat.lt_of_succ_lt_succ short)⟩

/-- Whatever is taken is the head or follows one of its children. -/
theorem exists_child_before (follows : frontier.Follows repository head before)
    {newer older : List Nat} {place : Nat}
    (taken : repository.takenFrom steps frontier = newer ++ place :: older) :
    place = head ∨ ∃ child ∈ before ++ newer, place ∈ repository.parentsOf child := by
  induction steps generalizing before frontier newer with
  | zero => simp [takenFrom] at taken
  | succ steps ih =>
      cases newest : repository.newest? frontier.waiting with
      | none => simp [takenFrom_succ_of_none newest] at taken
      | some first =>
          have waits := mem_of_newest? newest
          rw [takenFrom_succ_of_some newest] at taken
          cases newer with
          | nil =>
              obtain ⟨rfl, -⟩ := List.cons.inj taken
              simpa using follows.descends first waits
          | cons _ newer =>
              obtain ⟨rfl, rest⟩ := List.cons.inj taken
              simpa using ih (follows.advance waits) rest

/-- Where no commit has a later parent, commits are taken from the latest to the earliest. -/
theorem pairwise_takenFrom (follows : frontier.Follows repository head before)
    (falling : ∀ child, repository.Reaches head child → ∀ parent ∈ repository.parentsOf child,
      repository.waitingTime parent ≤ repository.waitingTime child) (steps : Nat) :
    (repository.takenFrom steps frontier).Pairwise (fun newer older =>
        repository.waitingTime older ≤ repository.waitingTime newer) ∧
      ∀ bound, (∀ place ∈ frontier.waiting, repository.waitingTime place ≤ bound) →
        ∀ place ∈ repository.takenFrom steps frontier, repository.waitingTime place ≤ bound := by
  -- the bound on what waits is carried along: with the commit that is taken as this bound, it says
  -- that nothing later is newer
  induction steps generalizing before frontier with
  | zero => simp [takenFrom]
  | succ steps ih =>
      cases newest : repository.newest? frontier.waiting with
      | none => simp [takenFrom_succ_of_none newest]
      | some first =>
          have waits := mem_of_newest? newest
          have first_reached := follows.reached first (follows.sound.waiting_met first waits)
          obtain ⟨rest_falls, rest_bound⟩ := ih (follows.advance waits)
          have later_bound :
              ∀ place ∈ (frontier.advance first (repository.parentsOf first)).waiting,
                repository.waitingTime place ≤ repository.waitingTime first := by
            intro place mem
            rcases (Frontier.mem_waiting_advance follows.sound).mp mem with ⟨-, mem⟩ | ⟨mem, -⟩
            · exact waitingTime_le_newest newest mem
            · exact falling first first_reached place mem
          have rest_le := rest_bound _ later_bound
          rw [takenFrom_succ_of_some newest, List.pairwise_cons]
          refine ⟨⟨rest_le, rest_falls⟩, fun bound waiting_le => ?_⟩
          have first_le := waiting_le first waits
          rw [List.forall_mem_cons]
          exact ⟨first_le, fun place mem => Int.le_trans (rest_le place mem) first_le⟩

end Runs

section Unlimited

variable {head steps : Nat} {log : List (Nat × Commit)}

theorem reaches_of_mem_takenFrom {place : Nat}
    (mem : place ∈ repository.takenFrom steps ⟨[head], [head]⟩) :
    repository.Reaches head place := by
  obtain ⟨final, follows, -⟩ :=
    follows_takenFrom (Frontier.follows_start repository head) steps
  exact follows.reached place ((follows.met_iff place).mpr (.inl mem))

theorem mem_log_iff_reaches (run : repository.logFrom steps ⟨[head], [head]⟩ = .ok log)
    (short : log.length < steps) (place : Nat) :
    place ∈ log.map Prod.fst ↔ repository.Reaches head place := by
  have places := (logFrom_eq_ok_iff.mp run).1
  obtain ⟨final, follows, finished⟩ :=
    follows_takenFrom (Frontier.follows_start repository head) steps
  rw [← places, List.length_map] at finished
  rw [List.nil_append, ← places] at follows
  exact follows.mem_iff_reaches (finished short) place

theorem exists_child_before_log (run : repository.logFrom steps ⟨[head], [head]⟩ = .ok log)
    {newer older : List (Nat × Commit)} {entry : Nat × Commit}
    (split : log = newer ++ entry :: older) (other : entry.1 ≠ head) :
    ∃ child ∈ newer, entry.1 ∈ child.2.parents := by
  obtain ⟨places, present⟩ := logFrom_eq_ok_iff.mp run
  have taken : repository.takenFrom steps ⟨[head], [head]⟩ =
      newer.map Prod.fst ++ entry.1 :: older.map Prod.fst := by
    rw [← places, split, List.map_append, List.map_cons]
  rcases exists_child_before (Frontier.follows_start repository head) taken with same | found
  · exact absurd same other
  · obtain ⟨place, place_mem, parent⟩ := found
    obtain ⟨child, child_mem, rfl⟩ := List.mem_map.mp place_mem
    have child_present := present child (split ▸ List.mem_append_left _ child_mem)
    rw [parentsOf_eq child_present] at parent
    exact ⟨child, child_mem, parent⟩

theorem waitingTime_eq {place : Nat} {commit : Commit}
    (present : repository.commit? place = some commit) :
    repository.waitingTime place = commit.time := by
  simp [waitingTime, present]

theorem pairwise_log (run : repository.logFrom steps ⟨[head], [head]⟩ = .ok log)
    (all : ∀ place, place ∈ log.map Prod.fst ↔ repository.Reaches head place)
    (falling : ∀ child ∈ log, ∀ parent ∈ log, parent.1 ∈ child.2.parents →
      parent.2.time ≤ child.2.time) :
    log.Pairwise fun newer older => older.2.time ≤ newer.2.time := by
  obtain ⟨places, present⟩ := logFrom_eq_ok_iff.mp run
  have time_eq : ∀ entry ∈ log, repository.waitingTime entry.1 = entry.2.time :=
    fun entry mem => waitingTime_eq (present entry mem)
  have parents_fall : ∀ place, repository.Reaches head place →
      ∀ parent ∈ repository.parentsOf place,
        repository.waitingTime parent ≤ repository.waitingTime place := by
    intro place reached parent parent_mem
    have parent_reached := reached.tail (mem_parentsOf.mp parent_mem)
    obtain ⟨child, child_mem, rfl⟩ := List.mem_map.mp ((all place).mpr reached)
    obtain ⟨ancestor, ancestor_mem, rfl⟩ := List.mem_map.mp ((all parent).mpr parent_reached)
    rw [parentsOf_eq (present child child_mem)] at parent_mem
    rw [time_eq child child_mem, time_eq ancestor ancestor_mem]
    exact falling child child_mem ancestor ancestor_mem parent_mem
  have falls := (pairwise_takenFrom (Frontier.follows_start repository head) parents_fall steps).1
  rw [← places, List.pairwise_map] at falls
  refine falls.imp_of_mem fun newer_mem older_mem le => ?_
  rwa [time_eq _ newer_mem, time_eq _ older_mem] at le

end Unlimited

/-- Where nothing that the head reaches is missing, the log without a limit lists exactly what the
head reaches, each commit once, the head first and every other commit after one of its children.
It goes back in time where no commit has a later parent. -/
theorem log_lists_reached {head : Nat} (at_head : repository.head = some head)
    (present : ∀ place, repository.Reaches head place →
      (repository.commit? place).isSome = true) :
    ∃ log, repository.log none = .ok log ∧
      (∀ entry ∈ log, repository.commit? entry.1 = some entry.2) ∧
      (log.map Prod.fst).Nodup ∧
      (∀ place, place ∈ log.map Prod.fst ↔ repository.Reaches head place) ∧
      (log.map Prod.fst).head? = some head ∧
      (∀ newer entry older, log = newer ++ entry :: older → entry.1 ≠ head →
        ∃ child ∈ newer, entry.1 ∈ child.2.parents) ∧
      ((∀ child ∈ log, ∀ parent ∈ log, parent.1 ∈ child.2.parents →
          parent.2.time ≤ child.2.time) →
        log.Pairwise fun newer older => older.2.time ≤ newer.2.time) := by
  have all_present : ∀ place, repository.Reaches head place →
      ∃ commit, repository.commit? place = some commit :=
    fun place reached => Option.isSome_iff_exists.mp (present place reached)
  obtain ⟨commit, head_present⟩ := all_present head Relation.ReflTransGen.refl
  have taken_present : ∀ place ∈ repository.takenFrom (repository.commits.length + 1)
      ⟨[head], [head]⟩, ∃ commit, repository.commit? place = some commit :=
    fun place mem => all_present place (reaches_of_mem_takenFrom mem)
  obtain ⟨log, run⟩ := exists_logFrom_eq_ok taken_present
  have walk : repository.log none = .ok log :=
    log_eq_ok_iff.mpr ⟨head, commit, at_head, head_present, run⟩
  have all := mem_log_iff_reaches run (Nat.lt_succ_of_le (length_log_le walk))
  obtain ⟨others, rfl, -⟩ := logFrom_head head_present run
  exact ⟨_, walk, (logFrom_eq_ok_iff.mp run).2, nodup_log walk, all, rfl,
    fun _ _ _ split other => exists_child_before_log run split other, pairwise_log run all⟩

/-- A merge of three lines of two roots, and a later commit that the head does not reach. -/
def mergedRepository : Repository where
  commits := [⟨0, [], none⟩, ⟨50, [], none⟩, ⟨100, [0, 1], none⟩, ⟨90, [0], none⟩,
    ⟨200, [2, 3, 0], none⟩, ⟨300, [4], none⟩]
  head := some 4

theorem merged_log_lists_reached :
    mergedRepository.head = some 4 ∧
      (∀ place, mergedRepository.Reaches 4 place →
        (mergedRepository.commit? place).isSome = true) ∧
      ∃ log, mergedRepository.log none = .ok log ∧
        (log.map Prod.fst).Nodup ∧
        (∀ place, place ∈ log.map Prod.fst ↔ mergedRepository.Reaches 4 place) ∧
        log.Pairwise fun newer older => older.2.time ≤ newer.2.time := by
  have present : ∀ place, mergedRepository.Reaches 4 place →
      (mergedRepository.commit? place).isSome = true :=
    fun place reached => commit?_isSome_of_reaches (by decide) (by decide) reached
  obtain ⟨log, walk, -, distinct, all, -, -, falls⟩ := log_lists_reached rfl present
  refine ⟨rfl, present, log, walk, distinct, all, falls ?_⟩
  have walked : mergedRepository.log none = .ok
      [(4, ⟨200, [2, 3, 0], none⟩), (2, ⟨100, [0, 1], none⟩), (3, ⟨90, [0], none⟩),
        (1, ⟨50, [], none⟩), (0, ⟨0, [], none⟩)] := rfl
  obtain rfl := Except.ok.inj (walked.symm.trans walk)
  decide

end CodeGauge.Repository
