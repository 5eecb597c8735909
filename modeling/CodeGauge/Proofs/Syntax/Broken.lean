import CodeGauge.Proofs.Syntax.Address

/-!
# The first broken node

A tree is flagged rightly if a node carries the flag just when a broken node is at or below it.  In
such a tree the search that passes over unflagged children finds what a search of the whole tree
finds (`firstBroken?_eq_find?`), so a tree is refused exactly when it has a broken node, and the
place that is named is that of the first one in preorder (`accept_names_first_broken`).
-/

namespace CodeGauge.Syntax.Node

/-- Every node of a tree is flagged exactly when it is broken or has a broken node below it. -/
def IsFlagged (root : Node) : Prop :=
  ∀ node ∈ root.preorder,
    node.label.hasError = true ↔ ∃ broken ∈ node.preorder, broken.isBroken = true

instance instDecidableIsFlagged (root : Node) : Decidable root.IsFlagged :=
  inferInstanceAs (Decidable (∀ node ∈ _, _ ↔ _))

theorem IsFlagged.child {root child : Node} (flagged : root.IsFlagged)
    (below : child ∈ root.children) : child.IsFlagged :=
  fun node mem => flagged node (mem_preorder_iff.mpr (.inr ⟨child, below, mem⟩))

theorem IsFlagged.hasError_iff {root : Node} (flagged : root.IsFlagged) :
    root.label.hasError = true ↔ ∃ node ∈ root.preorder, node.isBroken = true :=
  flagged root root.mem_preorder_self

theorem firstBroken?_eq (node : Node) :
    node.firstBroken? = if node.isBroken then some node else firstBrokenIn? node.children := by
  cases node with
  | mk label children => rw [firstBroken?]; rfl

/-- A child without a flag has no broken node, so passing it over loses nothing. -/
theorem firstBrokenIn?_eq_find? (nodes : List Node) (flagged : ∀ node ∈ nodes, node.IsFlagged)
    (found : ∀ node ∈ nodes, node.firstBroken? = node.preorder.find? isBroken) :
    firstBrokenIn? nodes = (preorderAll nodes).find? isBroken := by
  induction nodes with
  | nil => rfl
  | cons node others ih =>
      obtain ⟨node_flagged, others_flagged⟩ := List.forall_mem_cons.mp flagged
      obtain ⟨node_found, others_found⟩ := List.forall_mem_cons.mp found
      rw [firstBrokenIn?, preorderAll, List.find?_append, ih others_flagged others_found,
        node_found]
      split
      · rfl
      · rename_i unflagged
        have whole : node.preorder.find? isBroken = none := by
          rw [List.find?_eq_none]
          intro broken mem is_broken
          have flag := node_flagged.hasError_iff.mpr ⟨broken, mem, is_broken⟩
          exact unflagged (by rw [flag, Bool.true_or])
        rw [whole, Option.none_or]

theorem firstBroken?_eq_find? {root : Node} (flagged : root.IsFlagged) :
    root.firstBroken? = root.preorder.find? isBroken := by
  induction root using induction with
  | step root ih =>
      have below := firstBrokenIn?_eq_find? root.children
        (fun child mem => flagged.child mem) (fun child mem => ih child mem (flagged.child mem))
      rw [firstBroken?_eq, preorder_eq, List.find?_cons, below]
      cases root.isBroken <;> rfl

theorem accept_eq_ok_iff {root tree : Node} :
    root.accept = .ok tree ↔ root.label.hasError = false ∧ tree = root := by
  unfold accept
  cases root.label.hasError <;> simp [eq_comm]

theorem accept_eq_error_iff {root : Node} {error : SyntaxError} :
    root.accept = .error error ↔ root.label.hasError = true ∧
      error = ⟨(root.firstBroken?.getD root).line,
        (root.firstBroken?.getD root).label.start.column⟩ := by
  unfold accept
  cases root.label.hasError <;> simp [eq_comm]

/-- A rightly flagged tree is refused exactly when it has a broken node.  The error names the first
broken node in preorder; the search never comes back without a node, and comes back with the root
only if the root itself is broken. -/
theorem accept_names_first_broken {root : Node} (flagged : root.IsFlagged) :
    root.firstBroken? = root.preorder.find? isBroken ∧
    (root.accept = .ok root ↔ ∀ node ∈ root.preorder, node.isBroken = false) ∧
    ((∃ error, root.accept = .error error) ↔ ∃ node ∈ root.preorder, node.isBroken = true) ∧
    (∀ error, root.accept = .error error ↔
      ∃ before first after, root.preorder = before ++ first :: after ∧
        (∀ node ∈ before, node.isBroken = false) ∧ first.isBroken = true ∧
        error = ⟨first.label.start.row + 1, first.label.start.column⟩) ∧
    (root.label.hasError = true → root.firstBroken?.isSome = true) ∧
    (root.isBroken = false →
      ∀ first, root.firstBroken? = some first → first ∈ preorderAll root.children) := by
  have search := firstBroken?_eq_find? flagged
  have has_broken := flagged.hasError_iff
  have found : root.label.hasError = true → root.firstBroken?.isSome = true := by
    rw [search, List.find?_isSome]
    exact has_broken.mp
  have whole : root.label.hasError = false ↔ ∀ node ∈ root.preorder, node.isBroken = false := by
    rw [← Bool.not_eq_true, has_broken]
    simp
  refine ⟨search, ?_, ?_, fun error => ?_, found, fun sound first => ?_⟩
  · rw [accept_eq_ok_iff, whole]
    exact and_iff_left rfl
  · simp only [accept_eq_error_iff, exists_and_left, exists_eq, and_true, has_broken]
  · rw [accept_eq_error_iff]
    constructor
    · rintro ⟨flag, rfl⟩
      obtain ⟨first, first_eq⟩ := Option.isSome_iff_exists.mp (found flag)
      obtain ⟨broken, before, after, split, clear⟩ :=
        List.find?_eq_some_iff_append.mp (search ▸ first_eq)
      refine ⟨before, first, after, split, fun node mem => ?_, broken, ?_⟩
      · simpa using clear node mem
      · rw [first_eq]
        rfl
    · rintro ⟨before, first, after, split, clear, broken, rfl⟩
      have first_eq : root.firstBroken? = some first := by
        rw [search, List.find?_eq_some_iff_append]
        exact ⟨broken, before, after, split, fun node mem => by rw [clear node mem]; rfl⟩
      have mem : first ∈ root.preorder := split ▸ List.mem_append_right before List.mem_cons_self
      exact ⟨has_broken.mpr ⟨first, mem, broken⟩, by rw [first_eq]; rfl⟩
  · intro first_eq
    have below : (preorderAll root.children).find? isBroken = some first := by
      rw [← first_eq, search, preorder_eq, List.find?_cons, sound]
    exact List.mem_of_find?_eq_some below

/-- A part of a line in a tree of one line each: a kind, the flags, a row and a column. -/
def linePart (kind : String) (isError isMissing hasError : Bool) (row column : Nat)
    (children : List Node) : Node :=
  .mk ⟨kind, true, isError, isMissing, hasError, none, ⟨0, row, column⟩, 0, row⟩ children

/-- Three statements, of which the second one lacks its value and the third one is a bracket. -/
def brokenModule : Node :=
  linePart "module" false false true 0 0
    [linePart "expression_statement" false false false 0 0
        [linePart "identifier" false false false 0 0 []],
      linePart "expression_statement" false false true 1 0
        [linePart "assignment" false false true 1 0
          [linePart "identifier" false false false 1 0 [],
            linePart "identifier" false true true 1 3 []]],
      linePart "ERROR" true false true 2 0 [linePart ")" false false false 2 0 []]]

theorem brokenModule_names_missing_value :
    brokenModule.IsFlagged ∧ brokenModule.isBroken = false ∧
    brokenModule.firstBroken? = brokenModule.preorder.find? isBroken ∧
    brokenModule.accept = .error ⟨2, 3⟩ := by
  have flagged : brokenModule.IsFlagged := by decide
  obtain ⟨search, -, -, named, -, -⟩ := accept_names_first_broken flagged
  refine ⟨flagged, rfl, search, (named ⟨2, 3⟩).mpr ?_⟩
  exact ⟨brokenModule.preorder.take 6, linePart "identifier" false true true 1 3 [],
    brokenModule.preorder.drop 7, rfl, by decide, rfl, rfl⟩

end CodeGauge.Syntax.Node
