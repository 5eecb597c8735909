/-!
# Figures and their mean

The figures of a file are its complexity, its maintainability and its lines of code.  They are drawn
together into a mean in which each file weighs as much as it has lines.  The formulas are written
for any numbers with the operations they name, of which the doubles are one kind.
-/

namespace CodeGauge.Measurement

def total : List Nat → Nat
  | [] => 0
  | count :: others => count + total others

@[simp]
theorem total_nil : total [] = 0 := rfl

@[simp]
theorem total_cons (count : Nat) (others : List Nat) :
    total (count :: others) = count + total others := rfl

@[simp]
theorem total_append (first second : List Nat) :
    total (first ++ second) = total first + total second := by
  induction first with
  | nil => simp
  | cons count others ih => simp [ih, Nat.add_assoc]

theorem total_flatMap {β : Type} (keys : List β) (counts : β → List Nat) :
    total (keys.flatMap counts) = total (keys.map fun key => total (counts key)) := by
  induction keys with
  | nil => rfl
  | cons key keys ih => rw [List.flatMap_cons, List.map_cons, total_append, total_cons, ih]

theorem total_map_ite {β : Type} (items : List β) (test : β → Bool) (count : β → Nat) :
    total (items.map fun item => if test item then count item else 0) =
      total ((items.filter test).map count) := by
  induction items with
  | nil => rfl
  | cons item items ih => cases accepted : test item <;> simp [accepted, ih]

/-- Items that count nothing can be left out of a sum. -/
theorem total_map_filter {β : Type} {items : List β} {test : β → Bool} {count : β → Nat}
    (vanishes : ∀ item ∈ items, test item = false → count item = 0) :
    total ((items.filter test).map count) = total (items.map count) := by
  rw [← total_map_ite]
  refine congrArg total (List.map_congr_left fun item mem => ?_)
  cases accepted : test item with
  | true => exact if_pos rfl
  | false => rw [vanishes item mem accepted, ite_self]

theorem total_perm {first second : List Nat} (same : first.Perm second) :
    total first = total second := by
  induction same with
  | nil => rfl
  | cons count _ ih => rw [total_cons, total_cons, ih]
  | swap a b counts => rw [total_cons, total_cons, total_cons, total_cons, Nat.add_left_comm]
  | trans _ _ left right => exact left.trans right

/-- Numbers with the four operations, among which the counts are found. -/
class Quantity (α : Type) extends Zero α, Add α, Sub α, Mul α, Div α where
  ofCount : Nat → α

export Quantity (ofCount)

/-- Numbers with the functions from which the maintainability index is made. -/
class Analytic (α : Type) extends Quantity α, LE α, LT α, OfScientific α where
  ln : α → α
  log2 : α → α
  sin : α → α
  sqrt : α → α
  pi : α
  decidableLE : DecidableLE α
  decidableLT : DecidableLT α

instance Analytic.instDecidableLE {α : Type} [Analytic α] : DecidableLE α := Analytic.decidableLE

instance Analytic.instDecidableLT {α : Type} [Analytic α] : DecidableLT α := Analytic.decidableLT

instance Quantity.instFloat : Quantity Float where
  zero := 0
  ofCount := Float.ofNat

instance Analytic.instFloat : Analytic Float where
  ln := Float.log
  log2 := Float.log2
  sin := Float.sin
  sqrt := Float.sqrt
  pi := 3.141592653589793
  decidableLE := inferInstance
  decidableLT := inferInstance

instance Quantity.instRat : Quantity Rat where
  zero := 0
  ofCount := Nat.cast

/-- The three figures that are reported for code. -/
structure Figures (α : Type) where
  complexity : α
  maintainability : α
  lines : Nat
  deriving Repr, DecidableEq

namespace Figures

variable {α : Type} [Quantity α]

def zero : Figures α := ⟨0, 0, 0⟩

/-- The sum of a figure, each summand weighed by its lines of code. -/
def weighedSum (figure : Figures α → α) (list : List (Figures α)) : α :=
  list.foldl (fun sum figures => sum + figure figures * ofCount figures.lines) 0

def totalLines (list : List (Figures α)) : Nat := total (list.map Figures.lines)

/-- The mean of some figures by lines of code, together with the sum of the lines.  Where there are
no lines at all, all figures are zero. -/
def mean (list : List (Figures α)) : Figures α :=
  let lines := totalLines list
  if lines = 0 then zero
  else ⟨weighedSum complexity list / ofCount lines,
    weighedSum maintainability list / ofCount lines, lines⟩

@[simp]
theorem lines_mean (list : List (Figures α)) : (mean list).lines = totalLines list := by
  by_cases none : totalLines list = 0 <;> simp [mean, zero, none]

end Figures

end CodeGauge.Measurement
