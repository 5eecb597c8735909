import CodeGauge.Proofs.Repository.Log
import Mathlib.Data.List.Perm.Subperm

/-!
# The order of the log

The frontier fixes an order in which commits are taken, whether they are there or not
(`takenFrom`), and a log that succeeds lists its beginning (`logFrom_eq_ok_iff`).  So a log under a
smaller limit is the beginning of one under a larger limit or under none (`log_eq_ok_of_atMost`).
-/

namespace CodeGauge.Repository

variable {repository : Repository}

def parentsOf (repository : Repository) (place : Nat) : List Nat :=
  ((repository.commit? place).map Commit.parents).getD []

theorem parentsOf_eq {place : Nat} {commit : Commit}
    (present : repository.commit? place = some commit) :
    repository.parentsOf place = commit.parents := by
  simp [parentsOf, present]

/-- The places that are taken from a frontier on in a number of steps, missing commits included. -/
def takenFrom (repository : Repository) : (steps : Nat) → Frontier → List Nat
  | 0, _ => []
  | steps + 1, frontier =>
    match repository.newest? frontier.waiting with
    | none => []
    | some place =>
      place :: repository.takenFrom steps (frontier.advance place (repository.parentsOf place))

theorem takenFrom_succ_of_none {frontier : Frontier}
    (newest : repository.newest? frontier.waiting = none) (steps : Nat) :
    repository.takenFrom (steps + 1) frontier = [] := by
  simp [takenFrom, newest]

theorem takenFrom_succ_of_some {frontier : Frontier} {place : Nat}
    (newest : repository.newest? frontier.waiting = some place) (steps : Nat) :
    repository.takenFrom (steps + 1) frontier =
      place :: repository.takenFrom steps
        (frontier.advance place (repository.parentsOf place)) := by
  simp [takenFrom, newest]

/-- A log lists the commits in the order in which they are taken, and succeeds when all of them are
there. -/
theorem logFrom_eq_ok_iff {limit : Nat} {frontier : Frontier} {log : List (Nat × Commit)} :
    repository.logFrom limit frontier = .ok log ↔
      log.map Prod.fst = repository.takenFrom limit frontier ∧
        ∀ entry ∈ log, repository.commit? entry.1 = some entry.2 := by
  induction limit generalizing frontier log with
  | zero =>
      rw [logFrom, takenFrom, List.map_eq_nil_iff, Except.ok.injEq]
      constructor
      · rintro rfl
        simp
      · exact fun listed => listed.1.symm
  | succ limit ih =>
      rw [logFrom_succ_eq_ok_iff]
      cases newest : repository.newest? frontier.waiting with
      | none =>
          rw [takenFrom_succ_of_none newest, List.map_eq_nil_iff]
          constructor
          · rintro (⟨-, rfl⟩ | ⟨place, commit, others, step, -⟩)
            · simp
            · simp at step
          · exact fun listed => .inl ⟨rfl, listed.1⟩
      | some place =>
          rw [takenFrom_succ_of_some newest]
          constructor
          · rintro (⟨nothing, -⟩ | ⟨_, commit, others, found, present, rest, rfl⟩)
            · simp at nothing
            · obtain rfl := Option.some.inj found
              obtain ⟨places, all_present⟩ := ih.mp rest
              rw [parentsOf_eq present, ← places]
              exact ⟨rfl, List.forall_mem_cons.mpr ⟨present, all_present⟩⟩
          · rintro ⟨places, all_present⟩
            obtain ⟨⟨_, commit⟩, others, rfl, rfl, places⟩ := List.map_eq_cons_iff.mp places
            obtain ⟨present, others_present⟩ := List.forall_mem_cons.mp all_present
            rw [parentsOf_eq present] at places
            exact .inr ⟨_, commit, others, rfl, present, ih.mpr ⟨places, others_present⟩, rfl⟩

theorem exists_entries {places : List Nat}
    (present : ∀ place ∈ places, ∃ commit, repository.commit? place = some commit) :
    ∃ log : List (Nat × Commit), log.map Prod.fst = places ∧
      ∀ entry ∈ log, repository.commit? entry.1 = some entry.2 := by
  induction places with
  | nil => exact ⟨[], rfl, by simp⟩
  | cons place places ih =>
      obtain ⟨⟨commit, here⟩, later⟩ := List.forall_mem_cons.mp present
      obtain ⟨log, rfl, all_present⟩ := ih later
      exact ⟨(place, commit) :: log, rfl, List.forall_mem_cons.mpr ⟨here, all_present⟩⟩

theorem exists_logFrom_eq_ok {limit : Nat} {frontier : Frontier}
    (present : ∀ place ∈ repository.takenFrom limit frontier,
      ∃ commit, repository.commit? place = some commit) :
    ∃ log, repository.logFrom limit frontier = .ok log := by
  obtain ⟨log, places, all_present⟩ := exists_entries present
  exact ⟨log, logFrom_eq_ok_iff.mpr ⟨places, all_present⟩⟩

/-- Fewer steps take the beginning of the same order, and so do more steps where nothing is left
waiting. -/
theorem takenFrom_eq_take {cap steps : Nat} {frontier : Frontier}
    (enough : cap ≤ steps ∨ (repository.takenFrom steps frontier).length < steps) :
    repository.takenFrom cap frontier = (repository.takenFrom steps frontier).take cap := by
  induction steps generalizing cap frontier with
  | zero =>
      obtain rfl : cap = 0 := by simpa using enough
      rfl
  | succ steps ih =>
      cases cap with
      | zero => rfl
      | succ cap =>
          cases newest : repository.newest? frontier.waiting with
          | none => simp [takenFrom_succ_of_none newest]
          | some place =>
              rw [takenFrom_succ_of_some newest] at enough ⊢
              rw [takenFrom_succ_of_some newest, List.take_succ_cons]
              have still_enough : cap ≤ steps ∨
                  (repository.takenFrom steps (frontier.advance place
                    (repository.parentsOf place))).length < steps := by
                simpa using enough
              rw [ih still_enough]

theorem length_logFrom_le {limit : Nat} {frontier : Frontier} (sound : frontier.IsSound)
    {log : List (Nat × Commit)} (walk : repository.logFrom limit frontier = .ok log) :
    log.length ≤ repository.commits.length := by
  have inside : log.map Prod.fst ⊆ List.range repository.commits.length := by
    intro place mem
    obtain ⟨entry, entry_mem, rfl⟩ := List.mem_map.mp mem
    have present := (logFrom_eq_ok_iff.mp walk).2 entry entry_mem
    rw [commit?, List.getElem?_eq_some_iff] at present
    exact List.mem_range.mpr present.1
  simpa using ((nodup_logFrom sound walk).1.subperm inside).length_le

/-- A log has no more entries than there are commits, since it lists none of them twice. -/
theorem length_log_le {limit : Option Nat} {log : List (Nat × Commit)}
    (walk : repository.log limit = .ok log) : log.length ≤ repository.commits.length := by
  obtain ⟨head, -, -, -, run⟩ := log_eq_ok_iff.mp walk
  exact length_logFrom_le (Frontier.isSound_start head) run

/-- A cap is no more than a limit, where no limit is more than any number. -/
def AtMost : (cap limit : Option Nat) → Prop
  | _, none => True
  | none, some _ => False
  | some cap, some limit => cap ≤ limit

theorem eq_none_of_atMost_none {limit : Option Nat} (atMost : AtMost none limit) :
    limit = none := by
  cases limit with
  | none => rfl
  | some limit => exact atMost.elim

def stepsOf (repository : Repository) (limit : Option Nat) : Nat :=
  limit.getD (repository.commits.length + 1)

theorem atMost_stepsOf (repository : Repository) (limit : Option Nat) :
    AtMost (some (repository.stepsOf limit)) limit := by
  cases limit with
  | none => trivial
  | some limit => exact Nat.le_refl limit

theorem takenFrom_eq_take_log {limit : Option Nat} {log : List (Nat × Commit)} {head steps : Nat}
    (walk : repository.log limit = .ok log) (at_head : repository.head = some head)
    (allowed : AtMost (some steps) limit) :
    repository.takenFrom steps ⟨[head], [head]⟩ = (log.map Prod.fst).take steps := by
  have short := length_log_le walk
  obtain ⟨start, -, at_start, -, run⟩ := log_eq_ok_iff.mp walk
  obtain rfl := Option.some.inj (at_start.symm.trans at_head)
  have places : log.map Prod.fst =
      repository.takenFrom (repository.stepsOf limit) ⟨[start], [start]⟩ :=
    (logFrom_eq_ok_iff.mp run).1
  have enough : steps ≤ repository.stepsOf limit ∨
      (repository.takenFrom (repository.stepsOf limit) ⟨[start], [start]⟩).length <
        repository.stepsOf limit := by
    cases limit with
    | none =>
        -- one step more than there are commits, so the order ends before the steps do
        rw [← places, List.length_map]
        exact .inr (Nat.lt_succ_of_le short)
    | some limit => exact .inl allowed
  rw [takenFrom_eq_take enough, ← places]

/-- Under a smaller limit the log is the beginning of what it is under a larger one. -/
theorem log_eq_ok_of_atMost {cap limit : Option Nat} (atMost : AtMost cap limit)
    {log : List (Nat × Commit)} (walk : repository.log limit = .ok log) :
    ∃ beginning, repository.log cap = .ok beginning ∧ beginning <+: log := by
  cases cap with
  | none =>
      obtain rfl := eq_none_of_atMost_none atMost
      exact ⟨log, walk, List.prefix_rfl⟩
  | some cap =>
      obtain ⟨head, commit, at_head, present, run⟩ := log_eq_ok_iff.mp walk
      have all_present := (logFrom_eq_ok_iff.mp run).2
      have places := takenFrom_eq_take_log walk at_head atMost
      have capped_run : repository.logFrom cap ⟨[head], [head]⟩ = .ok (log.take cap) := by
        refine logFrom_eq_ok_iff.mpr ⟨?_, ?_⟩
        · rw [places, List.map_take]
        · exact fun entry mem => all_present entry (List.mem_of_mem_take mem)
      exact ⟨log.take cap, log_eq_ok_iff.mpr ⟨head, commit, at_head, present, capped_run⟩,
        List.take_prefix cap log⟩

/-- A commit, missing or not, is taken in a number of steps that a limit allows. -/
def Takes (repository : Repository) (limit : Option Nat) (place : Nat) : Prop :=
  ∃ head steps, repository.head = some head ∧ AtMost (some steps) limit ∧
    place ∈ repository.takenFrom steps ⟨[head], [head]⟩

theorem commit?_of_mem_log {limit : Option Nat} {log : List (Nat × Commit)}
    (walk : repository.log limit = .ok log) {entry : Nat × Commit} (mem : entry ∈ log) :
    repository.commit? entry.1 = some entry.2 := by
  obtain ⟨head, -, -, -, run⟩ := log_eq_ok_iff.mp walk
  exact (logFrom_eq_ok_iff.mp run).2 entry mem

theorem mem_log_iff_takes {limit : Option Nat} {log : List (Nat × Commit)}
    (walk : repository.log limit = .ok log) (place : Nat) :
    place ∈ log.map Prod.fst ↔ repository.Takes limit place := by
  constructor
  · intro mem
    obtain ⟨head, -, at_head, -, run⟩ := log_eq_ok_iff.mp walk
    rw [(logFrom_eq_ok_iff.mp run).1] at mem
    exact ⟨head, _, at_head, repository.atMost_stepsOf limit, mem⟩
  · rintro ⟨head, steps, at_head, allowed, taken⟩
    rw [takenFrom_eq_take_log walk at_head allowed] at taken
    exact List.mem_of_mem_take taken

theorem exists_log_iff {limit : Option Nat} :
    (∃ log, repository.log limit = .ok log) ↔
      (∃ commit, repository.headCommit? = some commit) ∧
        ∀ place, repository.Takes limit place →
          ∃ commit, repository.commit? place = some commit := by
  constructor
  · rintro ⟨log, walk⟩
    obtain ⟨head, commit, at_head, present, -⟩ := log_eq_ok_iff.mp walk
    refine ⟨⟨commit, by simp [headCommit?, at_head, present]⟩, fun place taken => ?_⟩
    obtain ⟨entry, mem, rfl⟩ := List.mem_map.mp ((mem_log_iff_takes walk place).mpr taken)
    exact ⟨entry.2, commit?_of_mem_log walk mem⟩
  · rintro ⟨⟨commit, at_head⟩, present⟩
    obtain ⟨head, head_eq, head_present⟩ := Option.bind_eq_some_iff.mp at_head
    have taken_present : ∀ place ∈ repository.takenFrom (repository.stepsOf limit) ⟨[head], [head]⟩,
        ∃ commit, repository.commit? place = some commit :=
      fun place taken => present place ⟨head, _, head_eq, repository.atMost_stepsOf limit, taken⟩
    obtain ⟨log, run⟩ := exists_logFrom_eq_ok taken_present
    exact ⟨log, log_eq_ok_iff.mpr ⟨head, commit, head_eq, head_present, run⟩⟩

end CodeGauge.Repository
