import CodeGauge.Repository.Basic
import Mathlib.Data.List.Nodup

/-!
# Runs of the log

A log that is not cut off at once begins with the head (`log_eq_cons`), and no commit is taken
twice (`nodup_log`): a commit that was taken stays among those that were met, and only commits not
met before begin to wait.
-/

namespace CodeGauge.Repository

namespace Frontier

/-- No commit waits twice, and every waiting commit was met. -/
structure IsSound (frontier : Frontier) : Prop where
  distinct : frontier.waiting.Nodup
  waiting_met : ∀ place ∈ frontier.waiting, place ∈ frontier.met

/-- Whether a commit can still be taken: it waits or was not met yet. -/
def Admits (frontier : Frontier) (place : Nat) : Prop :=
  place ∈ frontier.waiting ∨ place ∉ frontier.met

theorem isSound_start (place : Nat) : IsSound ⟨[place], [place]⟩ :=
  ⟨by simp, by simp⟩

theorem isSound_meet {frontier : Frontier} (sound : frontier.IsSound) (place : Nat) :
    (frontier.meet place).IsSound := by
  unfold meet
  split
  · exact sound
  · rename_i unmet
    have fresh : place ∉ frontier.met := by simpa using unmet
    constructor
    · rw [← List.concat_eq_append]
      exact sound.distinct.concat (mt (sound.waiting_met place) fresh)
    · intro other mem
      rcases List.mem_append.mp mem with mem | mem
      · exact List.mem_cons_of_mem place (sound.waiting_met other mem)
      · exact List.mem_cons.mpr (.inl (List.mem_singleton.mp mem))

theorem admits_of_meet {frontier : Frontier} {place other : Nat}
    (admitted : (frontier.meet place).Admits other) : frontier.Admits other := by
  unfold meet at admitted
  split at admitted
  · exact admitted
  · rename_i unmet
    have fresh : place ∉ frontier.met := by simpa using unmet
    rcases admitted with waiting | unmet_after
    · rcases List.mem_append.mp waiting with waiting | waiting
      · exact .inl waiting
      · exact .inr (List.mem_singleton.mp waiting ▸ fresh)
    · exact .inr fun met => unmet_after (List.mem_cons_of_mem place met)

theorem isSound_foldl_meet {frontier : Frontier} (sound : frontier.IsSound) (places : List Nat) :
    (places.foldl meet frontier).IsSound := by
  induction places generalizing frontier with
  | nil => exact sound
  | cons place places ih => exact ih (isSound_meet sound place)

theorem admits_of_foldl_meet {frontier : Frontier} {places : List Nat} {other : Nat}
    (admitted : (places.foldl meet frontier).Admits other) : frontier.Admits other := by
  induction places generalizing frontier with
  | nil => exact admitted
  | cons place places ih => exact admits_of_meet (ih admitted)

theorem isSound_advance {frontier : Frontier} (sound : frontier.IsSound) (place : Nat)
    (parents : List Nat) : (frontier.advance place parents).IsSound := by
  refine isSound_foldl_meet ⟨sound.distinct.erase place, ?_⟩ parents
  intro other mem
  exact sound.waiting_met other (List.mem_of_mem_erase mem)

/-- A commit that was taken is never admitted again, and no other commit is admitted anew. -/
theorem admits_of_advance {frontier : Frontier} (sound : frontier.IsSound) {place other : Nat}
    (waiting : place ∈ frontier.waiting) {parents : List Nat}
    (admitted : (frontier.advance place parents).Admits other) :
    other ≠ place ∧ frontier.Admits other := by
  rcases admits_of_foldl_meet admitted with left | unmet
  · obtain ⟨differs, still⟩ := sound.distinct.mem_erase_iff.mp left
    exact ⟨differs, .inl still⟩
  · refine ⟨?_, .inr unmet⟩
    rintro rfl
    exact unmet (sound.waiting_met other waiting)

end Frontier

variable {repository : Repository}

theorem mem_of_newest? {places : List Nat} {place : Nat}
    (newest : repository.newest? places = some place) : place ∈ places := by
  induction places generalizing place with
  | nil => simp [newest?] at newest
  | cons first others ih =>
      rw [newest?] at newest
      split at newest
      · exact List.mem_cons.mpr (.inl (Option.some.inj newest).symm)
      · rename_i other other_newest
        split at newest
        · exact List.mem_cons_of_mem first (ih (Option.some.inj newest ▸ other_newest))
        · exact List.mem_cons.mpr (.inl (Option.some.inj newest).symm)

/-- What a step of the log does when the whole log succeeds: it ends where nothing waits, and
otherwise takes the newest of the waiting commits, which has to be there. -/
theorem logFrom_succ_eq_ok_iff {limit : Nat} {frontier : Frontier} {log : List (Nat × Commit)} :
    repository.logFrom (limit + 1) frontier = .ok log ↔
      (repository.newest? frontier.waiting = none ∧ log = []) ∨
        ∃ place commit others,
          repository.newest? frontier.waiting = some place ∧
            repository.commit? place = some commit ∧
              repository.logFrom limit (frontier.advance place commit.parents) = .ok others ∧
                log = (place, commit) :: others := by
  rw [logFrom]
  cases newest : repository.newest? frontier.waiting with
  | none => simp [eq_comm]
  | some place =>
      cases present : repository.commit? place with
      | none => simp [present]
      | some commit =>
          cases rest : repository.logFrom limit (frontier.advance place commit.parents) with
          | error failure => simp [present, rest]
          | ok others => simp [present, rest, eq_comm]

/-- Every commit of a log is admitted by the frontier from which the log starts, and none is taken
twice. -/
theorem nodup_logFrom {limit : Nat} {frontier : Frontier} (sound : frontier.IsSound)
    {log : List (Nat × Commit)} (walk : repository.logFrom limit frontier = .ok log) :
    (log.map Prod.fst).Nodup ∧ ∀ entry ∈ log, frontier.Admits entry.1 := by
  induction limit generalizing frontier log with
  | zero =>
      obtain rfl : [] = log := by simpa [logFrom] using walk
      simp
  | succ limit ih =>
      rcases logFrom_succ_eq_ok_iff.mp walk with ⟨-, rfl⟩ | ⟨place, commit, others, step⟩
      · simp
      · obtain ⟨newest, -, rest, rfl⟩ := step
        have waiting := mem_of_newest? newest
        obtain ⟨distinct, admitted⟩ := ih (Frontier.isSound_advance sound place _) rest
        have later : ∀ entry ∈ others, entry.1 ≠ place ∧ frontier.Admits entry.1 :=
          fun entry mem => Frontier.admits_of_advance sound waiting (admitted entry mem)
        constructor
        · rw [List.map_cons, List.nodup_cons]
          refine ⟨?_, distinct⟩
          rintro again
          obtain ⟨entry, mem, same⟩ := List.mem_map.mp again
          exact (later entry mem).1 same
        · intro entry mem
          rcases List.mem_cons.mp mem with rfl | mem
          · exact .inl waiting
          · exact (later entry mem).2

def headCommit? (repository : Repository) : Option Commit :=
  repository.head.bind repository.commit?

theorem log_eq_ok_iff {limit : Option Nat} {log : List (Nat × Commit)} :
    repository.log limit = .ok log ↔
      ∃ head commit, repository.head = some head ∧ repository.commit? head = some commit ∧
        repository.logFrom (limit.getD (repository.commits.length + 1)) ⟨[head], [head]⟩ =
          .ok log := by
  unfold Repository.log
  cases repository.head with
  | none => simp
  | some head =>
      cases present : repository.commit? head with
      | none => simp [present]
      | some commit => simp [present]

theorem nodup_log {limit : Option Nat} {log : List (Nat × Commit)}
    (walk : repository.log limit = .ok log) : (log.map Prod.fst).Nodup := by
  obtain ⟨head, -, -, -, run⟩ := log_eq_ok_iff.mp walk
  exact (nodup_logFrom (Frontier.isSound_start head) run).1

theorem logFrom_head {limit head : Nat} {commit : Commit} {log : List (Nat × Commit)}
    (present : repository.commit? head = some commit)
    (run : repository.logFrom (limit + 1) ⟨[head], [head]⟩ = .ok log) :
    ∃ others, log = (head, commit) :: others ∧
      repository.logFrom limit (Frontier.advance ⟨[head], [head]⟩ head commit.parents) =
        .ok others := by
  rcases logFrom_succ_eq_ok_iff.mp run with ⟨nothing, -⟩ | ⟨place, taken, others, step⟩
  · simp [newest?] at nothing
  · obtain ⟨newest, found, rest, rfl⟩ := step
    obtain rfl : head = place := by simpa [newest?] using newest
    obtain rfl : commit = taken := Option.some.inj (present.symm.trans found)
    exact ⟨others, rfl, rest⟩

theorem log_eq_cons {limit : Option Nat} (uncut : limit ≠ some 0) {log : List (Nat × Commit)}
    (walk : repository.log limit = .ok log) :
    ∃ head commit others, repository.head = some head ∧
      repository.commit? head = some commit ∧ log = (head, commit) :: others := by
  obtain ⟨head, commit, at_head, present, run⟩ := log_eq_ok_iff.mp walk
  obtain ⟨count, enough⟩ : ∃ count, limit.getD (repository.commits.length + 1) = count + 1 := by
    cases limit with
    | none => exact ⟨_, rfl⟩
    | some limit => exact Nat.exists_eq_succ_of_ne_zero fun zero => uncut (congrArg some zero)
  rw [enough] at run
  obtain ⟨others, rfl, -⟩ := logFrom_head present run
  exact ⟨head, commit, others, at_head, present, rfl⟩

theorem log_one_eq {log : List (Nat × Commit)} (walk : repository.log (some 1) = .ok log) :
    ∃ head commit, repository.head = some head ∧ repository.commit? head = some commit ∧
      log = [(head, commit)] := by
  obtain ⟨head, commit, at_head, present, run⟩ := log_eq_ok_iff.mp walk
  obtain ⟨others, rfl, rest⟩ := logFrom_head present run
  obtain rfl : [] = others := by simpa [logFrom] using rest
  exact ⟨head, commit, at_head, present, rfl⟩

end CodeGauge.Repository
