import CodeGauge.Measurement.Figures

/-!
# Samples and histories

A sample holds the figures of one file at one commit, or the mean of several.  A history keeps
samples by file stem: a series begins where its stem is first met, and grows at its end.  An indexed
history also keeps the place of each stem, so that nothing is filed by a search.
-/

namespace CodeGauge

open Measurement

/-- Values filed under one stem, in the order in which they came. -/
structure Series (α : Type) where
  stem : String
  samples : List α
  deriving Repr, DecidableEq

/-- Series in the order in which their stems were first met. -/
structure History (α : Type) where
  series : List (Series α)
  deriving Repr, DecidableEq

namespace History

variable {α : Type}

def empty : History α := ⟨[]⟩

/-- Files a value under a stem, at the end of its series or in a new series. -/
def insertInto (stem : String) (value : α) : List (Series α) → List (Series α)
  | [] => [⟨stem, [value]⟩]
  | first :: others =>
    if first.stem = stem then ⟨first.stem, first.samples ++ [value]⟩ :: others
    else first :: insertInto stem value others

def push (history : History α) (stem : String) (value : α) : History α :=
  ⟨insertInto stem value history.series⟩

def stems (history : History α) : List String := history.series.map Series.stem

def position? (history : History α) (stem : String) : Option Nat :=
  history.series.findIdx? fun series => series.stem == stem

def get? (history : History α) (stem : String) : Option (List α) :=
  (history.position? stem).bind fun place => history.series[place]?.map Series.samples

def samples (history : History α) : List α := history.series.flatMap Series.samples

def size (history : History α) : Nat := history.series.length

def isEmpty (history : History α) : Bool := history.series.isEmpty

def ofPairs (pairs : List (String × α)) : History α :=
  pairs.foldl (fun history pair => history.push pair.1 pair.2) empty

@[simp]
theorem ofPairs_nil : (ofPairs [] : History α) = empty := rfl

theorem ofPairs_append_singleton (pairs : List (String × α)) (stem : String) (value : α) :
    ofPairs (pairs ++ [(stem, value)]) = (ofPairs pairs).push stem value := by
  simp [ofPairs]

end History

/-- The figures of a file at a commit, or of several files together. -/
structure Sample where
  figures : Figures Float
  file : Option String
  date : Option String

namespace Sample

def ofFigures (figures : Figures Float) : Sample := ⟨figures, none, none⟩

/-- The mean of some samples, without file and date. -/
def mean (samples : List Sample) : Sample := .ofFigures (.mean (samples.map Sample.figures))

def withDate (sample : Sample) (date : String) : Sample := { sample with date := some date }

def withFile (sample : Sample) (stem : String) : Sample := { sample with file := some stem }

end Sample

namespace History

/-- The dates of some samples, each once, the latest text first. -/
def dates (samples : List Sample) : List String :=
  (samples.filterMap Sample.date).eraseDups.mergeSort fun first second => decide (second ≤ first)

def onDate (samples : List Sample) (date : String) : Sample :=
  (Sample.mean (samples.filter fun sample => sample.date == some date)).withDate date

/-- The means of a history by date, the latest date first; samples without a date are left out. -/
def timeline (history : History Sample) : List Sample :=
  (dates history.samples).map (onDate history.samples)

end History

def Series.add {α : Type} (series : Series α) (value : α) : Series α :=
  ⟨series.stem, series.samples ++ [value]⟩

/-- A history and the places of its stems. -/
structure IndexedHistory (α : Type) where
  history : History α
  places : List (String × Nat)
  deriving Repr, DecidableEq

namespace IndexedHistory

variable {α : Type}

def empty : IndexedHistory α := ⟨.empty, []⟩

def place? (indexed : IndexedHistory α) (stem : String) : Option Nat :=
  indexed.places.lookup stem

/-- Files a value in the series to which the index points, or in a new series with an entry in the
index. -/
def push (indexed : IndexedHistory α) (stem : String) (value : α) : IndexedHistory α :=
  match indexed.place? stem with
  | some place => ⟨⟨indexed.history.series.modify place (·.add value)⟩, indexed.places⟩
  | none =>
    ⟨⟨indexed.history.series ++ [⟨stem, [value]⟩]⟩,
      (stem, indexed.history.size) :: indexed.places⟩

def ofPairs (pairs : List (String × α)) : IndexedHistory α :=
  pairs.foldl (fun indexed pair => indexed.push pair.1 pair.2) empty

end IndexedHistory

end CodeGauge
