import CodeGauge.Command.Arguments
import Mathlib.Data.List.Nodup
import Mathlib.Data.List.TakeDrop

/-!
# Options that are read

Whatever stands on a command line, an option is settled only if the command has it, and with a
value that its form allows (`offers_of_readCommand`).  Options that are written in full are read as
they stand, so what one command settles another one can settle too (`exists_reads`).
-/

namespace CodeGauge.Command

theorem bind_eq_ok_iff {ε α β : Type} {result : Except ε α} {f : α → Except ε β} {b : β} :
    result >>= f = .ok b ↔ ∃ a, result = .ok a ∧ f a = .ok b := by
  cases result <;> simp [bind, Except.bind]

theorem map_eq_ok_iff {ε α β : Type} {result : Except ε α} {f : α → β} {b : β} :
    result.map f = .ok b ↔ ∃ a, result = .ok a ∧ f a = b := by
  cases result <;> simp [Except.map]

variable {switches : List Switch} {switch : Switch} {settled after : List (Topic × Value)}
  {reading next : Reading} {text : List Char}

/-- One of the switches gives an option its value. -/
def Offers (switches : List Switch) (option : Topic × Value) : Prop :=
  ∃ switch ∈ switches, switch.topic = option.1 ∧
    ∃ text, readValue switch.form text = .ok option.2

namespace Reading

/-- What is settled, and what is pending, belongs to some switches. -/
structure IsOffered (switches : List Switch) (reading : Reading) : Prop where
  settled : ∀ option ∈ reading.settled, Offers switches option
  pending : ∀ switch text, reading.pending = some (switch, text) → switch ∈ switches

theorem isOffered_start (switches : List Switch) : start.IsOffered switches :=
  ⟨List.forall_mem_nil _, fun _ _ pending => nomatch pending⟩

theorem settleWith_eq_ok_iff :
    settleWith settled switch text = .ok after ↔
      ((settled.lookup switch.topic).isSome && switch.form != .often) = false ∧
      ∃ value, readValue switch.form text = .ok value ∧
        after = settled ++ [(switch.topic, value)] := by
  rw [settleWith]
  cases (settled.lookup switch.topic).isSome && switch.form != .often <;>
    cases readValue switch.form text <;> simp [eq_comm]

theorem offers_of_settleWith (mem : switch ∈ switches)
    (offered : ∀ option ∈ settled, Offers switches option)
    (accepted : settleWith settled switch text = .ok after) :
    ∀ option ∈ after, Offers switches option := by
  obtain ⟨-, value, read, rfl⟩ := settleWith_eq_ok_iff.mp accepted
  intro option option_mem
  rcases List.mem_append.mp option_mem with earlier | new
  · exact offered option earlier
  · obtain rfl := List.mem_singleton.mp new
    exact ⟨switch, mem, rfl, text, read⟩

theorem IsOffered.settle (offered : reading.IsOffered switches)
    (accepted : reading.settle = .ok after) : ∀ option ∈ after, Offers switches option := by
  obtain ⟨settled, pending⟩ := reading
  match pending with
  | none =>
      obtain rfl := Except.ok.inj accepted
      exact offered.settled
  | some (switch, none) => cases accepted
  | some (switch, some text) =>
      exact offers_of_settleWith (offered.pending switch _ rfl) offered.settled accepted

theorem IsOffered.take (offered : reading.IsOffered switches) (mem : switch ∈ switches)
    (accepted : reading.take switch text = .ok next) : next.IsOffered switches := by
  obtain ⟨before, settling, taking⟩ := bind_eq_ok_iff.mp accepted
  split at taking
  · cases taking
  · obtain ⟨after, settled, last⟩ := bind_eq_ok_iff.mp taking
    obtain rfl := Except.ok.inj last
    exact ⟨offers_of_settleWith mem (offered.settle settling) settled,
      fun _ _ pending => nomatch pending⟩

theorem IsOffered.expect (offered : reading.IsOffered switches) (mem : switch ∈ switches)
    (accepted : reading.expect switch = .ok next) : next.IsOffered switches := by
  obtain ⟨before, settling, last⟩ := bind_eq_ok_iff.mp accepted
  obtain rfl := Except.ok.inj last
  refine ⟨offered.settle settling, fun other text pending => ?_⟩
  obtain ⟨rfl, -⟩ := Prod.mk.inj (Option.some.inj pending)
  exact mem

theorem IsOffered.supply (offered : reading.IsOffered switches) (text : List Char) :
    (reading.supply text).IsOffered switches := by
  obtain ⟨settled, pending⟩ := reading
  match pending with
  | none => exact offered
  | some (switch, some _) => exact offered
  | some (switch, none) =>
      refine ⟨offered.settled, fun other text pending => ?_⟩
      obtain ⟨rfl, -⟩ := Prod.mk.inj (Option.some.inj pending)
      exact offered.pending switch none rfl

theorem IsOffered.takeWord {word : List Char} {attached : Option (List Char)}
    (offered : reading.IsOffered switches)
    (accepted : reading.takeWord switches word attached = .ok next) :
    next.IsOffered switches := by
  unfold Reading.takeWord at accepted
  split at accepted
  · cases accepted
  · have mem := List.mem_of_find?_eq_some ‹_›
    split at accepted
    · exact offered.take mem accepted
    · exact offered.expect mem accepted
    · cases accepted
    · exact offered.take mem accepted

theorem IsOffered.takeLetters {letters : List Char} (offered : reading.IsOffered switches)
    (accepted : reading.takeLetters switches letters = .ok next) :
    next.IsOffered switches := by
  induction letters generalizing reading with
  | nil =>
      obtain rfl := Except.ok.inj accepted
      exact offered
  | cons letter rest ih =>
      unfold Reading.takeLetters at accepted
      split at accepted
      · cases accepted
      · have mem := List.mem_of_find?_eq_some ‹_›
        split at accepted
        · split at accepted
          · exact offered.expect mem accepted
          · exact offered.take mem accepted
          · exact offered.take mem accepted
        · split at accepted
          · cases accepted
          · exact ih (offered.take mem ‹_›) accepted

end Reading

theorem Reading.IsOffered.readArgument {argument : List Char} (offered : reading.IsOffered switches)
    (accepted : readArgument switches reading argument = .ok (some next)) :
    next.IsOffered switches := by
  have supplied : (Except.ok (ε := Refusal)
      (if reading.awaits then some (reading.supply argument) else none)) = .ok (some next) →
      next.IsOffered switches := by
    intro supplying
    split at supplying
    · obtain rfl := Option.some.inj (Except.ok.inj supplying)
      exact offered.supply argument
    · cases supplying
  unfold Command.readArgument at accepted
  extract_lets otherwise at accepted
  split at accepted
  · obtain ⟨taken, taking, last⟩ := map_eq_ok_iff.mp accepted
    obtain rfl := Option.some.inj last
    exact offered.takeWord taking
  · split at accepted
    · exact supplied accepted
    · obtain ⟨taken, taking, last⟩ := map_eq_ok_iff.mp accepted
      obtain rfl := Option.some.inj last
      exact offered.takeLetters taking
  · exact supplied accepted

/-- The options of a command are settled from its switches. -/
theorem offers_of_readOptions {arguments : List (List Char)} (offered : reading.IsOffered switches)
    (accepted : readOptions switches reading arguments = .ok settled) :
    ∀ option ∈ settled, Offers switches option := by
  induction arguments generalizing reading with
  | nil => exact offered.settle accepted
  | cons argument others ih =>
      unfold readOptions at accepted
      split at accepted
      · split at accepted
        · exact offered.settle accepted
        · cases accepted
      · split at accepted
        · cases accepted
        · cases accepted
        · exact ih (offered.readArgument ‹_›) accepted

/-- Whatever a command line says, its command has just options of its own, and the common options
are common ones. -/
theorem offers_of_readCommand {arguments : List (List Char)} {found : Matches}
    (offered : reading.IsOffered commonSwitches)
    (accepted : readCommand reading arguments = .ok found) :
    (∀ option ∈ found.common, Offers commonSwitches option) ∧
      ∀ option ∈ found.own, Offers found.command.switches option := by
  induction arguments generalizing reading with
  | nil =>
      obtain ⟨settled, -, refused⟩ := bind_eq_ok_iff.mp accepted
      cases refused
  | cons argument others ih =>
      unfold readCommand at accepted
      split at accepted
      · cases accepted
      · obtain ⟨own, own_read, rest⟩ := bind_eq_ok_iff.mp accepted
        obtain ⟨common, settling, last⟩ := bind_eq_ok_iff.mp rest
        obtain rfl := Except.ok.inj last
        exact ⟨offered.settle settling,
          offers_of_readOptions (Reading.isOffered_start _) own_read⟩
      · split at accepted
        · split at accepted
          · obtain ⟨settled, -, refused⟩ := bind_eq_ok_iff.mp accepted
            cases refused
          · cases accepted
        · split at accepted
          · cases accepted
          · cases accepted
          · exact ih (offered.readArgument ‹_›) accepted

/-- An option as it is written in full: its word, and its value after an equals sign. -/
def Switch.written (switch : Switch) (text : List Char) : List Char :=
  '-' :: '-' :: (switch.word ++ if switch.form.takesValue then '=' :: text else [])

/-- A switch is found by its word and takes a value or stands alone. -/
structure Switch.IsWritable (switches : List Switch) (switch : Switch) : Prop where
  found : (switches.find? fun other => other.word == switch.word) = some switch
  named : switch.word ≠ []
  plain : '=' ∉ switch.word
  single : switch.form ∈ [.once, .path, .integer]

instance Switch.IsWritable.instDecidable (switches : List Switch) (switch : Switch) :
    Decidable (switch.IsWritable switches) :=
  decidable_of_iff
    ((switches.find? fun other => other.word == switch.word) = some switch ∧ switch.word ≠ [] ∧
      '=' ∉ switch.word ∧ switch.form ∈ [.once, .path, .integer])
    ⟨fun ⟨found, named, plain, single⟩ => ⟨found, named, plain, single⟩,
      fun ⟨found, named, plain, single⟩ => ⟨found, named, plain, single⟩⟩

theorem span_word {word rest : List Char} (plain : '=' ∉ word) (sign : ∀ c ∈ rest.head?, c = '=') :
    (word ++ rest).span (· != '=') = (word, rest) := by
  have before : ∀ c ∈ word, (c != '=') = true := by
    intro c mem
    exact bne_iff_ne.mpr fun same => plain (same ▸ mem)
  rw [List.span_eq_takeWhile_dropWhile, List.takeWhile_append_of_pos before,
    List.dropWhile_append_of_pos before]
  cases rest with
  | nil => simp
  | cons c rest =>
      obtain rfl := sign c rfl
      simp

theorem take_of_fresh {value : Value} (single : switch.form ∈ [.once, .path, .integer])
    (fresh : settled.lookup switch.topic = none) (read : readValue switch.form text = .ok value) :
    Reading.take ⟨settled, none⟩ switch text =
      .ok ⟨settled ++ [(switch.topic, value)], none⟩ := by
  have settling : Reading.settleWith settled switch text =
      .ok (settled ++ [(switch.topic, value)]) :=
    Reading.settleWith_eq_ok_iff.mpr ⟨by simp [fresh], value, read, rfl⟩
  refine bind_eq_ok_iff.mpr ⟨settled, rfl, ?_⟩
  split
  · rename_i stop
    simp [stop] at single
  · exact bind_eq_ok_iff.mpr ⟨_, settling, rfl⟩

theorem readArgument_written {value : Value} (writable : switch.IsWritable switches)
    (fresh : settled.lookup switch.topic = none) (read : readValue switch.form text = .ok value) :
    readArgument switches ⟨settled, none⟩ (switch.written text) =
      .ok (some ⟨settled ++ [(switch.topic, value)], none⟩) := by
  have single := writable.single
  have word_found := writable.found
  cases takes : switch.form.takesValue with
  | false =>
      have alone : readValue switch.form [] = .ok value := by
        cases form : switch.form <;> simp_all [Form.takesValue, readValue]
      simp only [readArgument, Switch.written, takes]
      rw [span_word writable.plain (by simp)]
      simp [Reading.takeWord, word_found, takes, take_of_fresh single fresh alone, Except.map]
  | true =>
      simp only [readArgument, Switch.written, takes]
      rw [span_word writable.plain (by simp)]
      simp [Reading.takeWord, word_found, takes, take_of_fresh single fresh read, Except.map]

/-- Options written in full that take one reading to another. -/
inductive Reads (switches : List Switch) : Reading → List (List Char) → Reading → Prop
  | nil (reading : Reading) : Reads switches reading [] reading
  | cons {argument : List Char} {others : List (List Char)} {reading next last : Reading}
      (long : argument.take 2 = separator) (more : argument ≠ separator)
      (ready : reading.awaits = false)
      (step : readArgument switches reading argument = .ok (some next))
      (steps : Reads switches next others last) : Reads switches reading (argument :: others) last

theorem readOptions_of_reads {arguments rest : List (List Char)}
    (reads : Reads switches reading arguments next) :
    readOptions switches reading (arguments ++ rest) = readOptions switches next rest := by
  induction reads with
  | nil => rfl
  | cons long more ready step steps ih =>
      simp only [List.cons_append, readOptions, if_neg more, step, ih]

theorem named?_of_long {argument : List Char} (long : argument.take 2 = separator) :
    named? argument = none := by
  have other : ∀ name : List Char, name.take 2 ≠ separator → argument ≠ name := by
    rintro name short rfl
    exact short long
  rw [named?, if_neg (other _ (by decide)), if_neg (other _ (by decide)),
    if_neg (other _ (by decide))]

theorem readCommand_of_reads {arguments rest : List (List Char)}
    (reads : Reads commonSwitches reading arguments next) :
    readCommand reading (arguments ++ rest) = readCommand next rest := by
  induction reads with
  | nil => rfl
  | cons long more ready step steps ih =>
      simp only [List.cons_append, readCommand, ready, named?_of_long long, if_neg more, step]
      exact ih

def settledOf (shared : List Switch) (settled : List (Topic × Value)) : List (Topic × Value) :=
  shared.filterMap fun switch => (settled.lookup switch.topic).map (Prod.mk switch.topic)

theorem settledOf_cons_of_none {shared : List Switch}
    (absent : settled.lookup switch.topic = none) :
    settledOf (switch :: shared) settled = settledOf shared settled := by
  rw [settledOf, List.filterMap_cons, absent]
  rfl

theorem settledOf_cons_of_some {shared : List Switch} {value : Value}
    (given : settled.lookup switch.topic = some value) :
    settledOf (switch :: shared) settled = (switch.topic, value) :: settledOf shared settled := by
  rw [settledOf, List.filterMap_cons, given]
  rfl

theorem lookup_settledOf (shared : List Switch) (settled : List (Topic × Value)) (topic : Topic) :
    (settledOf shared settled).lookup topic =
      if topic ∈ shared.map Switch.topic then settled.lookup topic else none := by
  induction shared with
  | nil => rfl
  | cons switch shared ih =>
      simp only [List.map_cons, List.mem_cons]
      by_cases same : topic = switch.topic
      · subst same
        rw [if_pos (Or.inl rfl)]
        cases value : settled.lookup switch.topic with
        | none => rw [settledOf_cons_of_none value, ih, value, ite_self]
        | some value => rw [settledOf_cons_of_some ‹_›, List.lookup_cons_self]
      · simp only [same, false_or, ← ih]
        cases value : settled.lookup switch.topic with
        | none => rw [settledOf_cons_of_none value]
        | some value => rw [settledOf_cons_of_some ‹_›, List.lookup_cons, beq_false_of_ne same]

theorem exists_readValue_of_lookup {value : Value}
    (offered : ∀ option ∈ settled, Offers switches option)
    (alike : ∀ other ∈ switches, other.topic = switch.topic → other = switch)
    (given : settled.lookup switch.topic = some value) :
    ∃ text, readValue switch.form text = .ok value := by
  obtain ⟨first, last, rfl, -⟩ := List.lookup_eq_some_iff.mp given
  obtain ⟨other, mem, topic, text, read⟩ := offered (switch.topic, value) (by simp)
  obtain rfl := alike other mem topic
  exact ⟨text, read⟩

/-- What is settled from one table of switches can be settled from another one by options written in
full, as far as the tables share switches. -/
theorem exists_reads (switches : List Switch) {table : List Switch} (shared : List Switch)
    (offered : ∀ option ∈ settled, Offers table option)
    (alike : ∀ switch ∈ shared, ∀ other ∈ table, other.topic = switch.topic → other = switch)
    (writable : ∀ switch ∈ shared, switch.IsWritable switches)
    (distinct : (shared.map Switch.topic).Nodup) (before : List (Topic × Value))
    (fresh : ∀ switch ∈ shared, before.lookup switch.topic = none) :
    ∃ arguments, Reads switches ⟨before, none⟩ arguments
      ⟨before ++ settledOf shared settled, none⟩ := by
  induction shared generalizing before with
  | nil => exact ⟨[], by simpa [settledOf] using Reads.nil _⟩
  | cons switch shared ih =>
      obtain ⟨apart, distinct⟩ := List.nodup_cons.mp distinct
      have rest := ih (fun _ mem => alike _ (List.mem_cons_of_mem _ mem))
        (fun _ mem => writable _ (List.mem_cons_of_mem _ mem)) distinct
      have fresh_rest : ∀ other ∈ shared, before.lookup other.topic = none :=
        fun _ mem => fresh _ (List.mem_cons_of_mem _ mem)
      have writable_first := writable switch List.mem_cons_self
      cases given : settled.lookup switch.topic with
      | none =>
          rw [settledOf_cons_of_none given]
          exact rest before fresh_rest
      | some value =>
          obtain ⟨text, read⟩ :=
            exists_readValue_of_lookup offered (alike switch List.mem_cons_self) given
          obtain ⟨arguments, reads⟩ := rest (before ++ [(switch.topic, value)]) fun other mem => by
            have differs : other.topic ≠ switch.topic :=
              fun same => apart (same ▸ List.mem_map_of_mem mem)
            rw [List.lookup_append, fresh_rest other mem, List.lookup_cons,
              beq_false_of_ne differs]
            rfl
          rw [List.append_assoc] at reads
          rw [settledOf_cons_of_some given]
          refine ⟨switch.written text :: arguments, .cons rfl ?_ rfl
            (readArgument_written writable_first (fresh switch List.mem_cons_self) read) reads⟩
          simp [Switch.written, separator, writable_first.named]

end CodeGauge.Command
