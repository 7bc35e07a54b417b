/-
Which predicates of the host have a filter, and what their filters say.

A predicate is refused for its parts that no filter stands for (`IsUnmapped`), and only for those. The parts are listed from
left to right, a composite before its children, each with the number of composites above it (`nodes`); the first one that is
refused is the one named, and every composite above it wraps the text once (`wrapped`). On the other side a predicate has a
meaning of its own in SQL's three-valued logic, null-safe equality and the constants included (`sqlTruth`): tests for null
are never unknown, comparisons beside null always are, and the comparisons are those of the engine. Main results:
- `translate_outcome`: a predicate is refused with the error of its first refused part, or has a filter;
- `truth_eq_sqlTruth`: a filter says of every row what its predicate says;
- `translate_exact`: both, for every predicate.
-/
import PartitionedScan.Proofs.Filter.Evaluation
import PartitionedScan.Proofs.Predicate

namespace PartitionedScan

theorem Value.isNull_iff {v : Value} : v.isNull = true ↔ v = .null := by
  cases v <;> simp [isNull]

namespace Predicate

/-! ## Parts that are refused -/

/-- no filter stands for this part, whatever is below it -/
def IsUnmapped : Predicate → Prop
  | equalNullSafe _ _ => True
  | alwaysTrue => True
  | alwaysFalse => True
  | equalTo _ v => v = .null
  | greaterThan _ v => v = .null
  | greaterThanOrEqual _ v => v = .null
  | lessThan _ v => v = .null
  | lessThanOrEqual _ v => v = .null
  | oneOf _ vs => vs = [] ∨ .null ∈ vs
  | _ => False

instance : (p : Predicate) → Decidable p.IsUnmapped
  | equalNullSafe _ _ | alwaysTrue | alwaysFalse => .isTrue trivial
  | equalTo _ v | greaterThan _ v | greaterThanOrEqual _ v | lessThan _ v | lessThanOrEqual _ v =>
    inferInstanceAs (Decidable (v = .null))
  | oneOf _ vs => inferInstanceAs (Decidable (vs = [] ∨ .null ∈ vs))
  | isNull _ | isNotNull _ | and _ _ | or _ _ | not _ | startsWith _ _ | endsWith _ _ | contains _ _ => .isFalse id

/-- the parts from left to right, a composite before its children, each with the number of its ancestors -/
def nodes : Predicate → List (Nat × Predicate)
  | and left right => (0, and left right) :: (left.nodes ++ right.nodes).map (Prod.map (· + 1) id)
  | or left right => (0, or left right) :: (left.nodes ++ right.nodes).map (Prod.map (· + 1) id)
  | not child => (0, not child) :: child.nodes.map (Prod.map (· + 1) id)
  | p => [(0, p)]

/-- the text of a refused part, wrapped by each of its ancestors -/
def wrapped (ancestors : Nat) (text : String) : String :=
  ("child predicate is not supported: " ++ ·)^[ancestors] text

/-- the error for a part with so many ancestors, if it is refused -/
def refusal? (x : Nat × Predicate) : Option CompileError :=
  if x.2.IsUnmapped then some (.unsupportedPredicate (wrapped x.1 x.2.display)) else none

/-- the error for the first part that is refused -/
def error? (p : Predicate) : Option CompileError :=
  p.nodes.findSome? refusal?

/-- one more ancestor wraps the text once more -/
theorem refusal?_below (x : Nat × Predicate) : refusal? (Prod.map (· + 1) id x) = (refusal? x).map childError := by
  obtain ⟨n, q⟩ := x
  simp only [refusal?, Prod.map_apply, id_eq]
  split_ifs
  · simp only [Option.map_some, childError, wrapped, Function.iterate_succ_apply']
  · rfl

theorem findSome?_below (xs : List (Nat × Predicate)) :
    (xs.map (Prod.map (· + 1) id)).findSome? refusal? = (xs.findSome? refusal?).map childError := by
  rw [List.findSome?_map]
  induction xs with
  | nil => rfl
  | cons x xs ih =>
    rw [List.findSome?_cons, List.findSome?_cons, Function.comp_apply, refusal?_below, ih]
    cases refusal? x <;> rfl

theorem error?_atom {p : Predicate} (h : p.nodes = [(0, p)]) :
    p.error? = if p.IsUnmapped then some (.unsupportedPredicate p.display) else none := by
  rw [error?, h, List.findSome?_singleton, refusal?]
  rfl

theorem error?_pair {p left right : Predicate} (h : ¬ p.IsUnmapped)
    (hnodes : p.nodes = (0, p) :: (left.nodes ++ right.nodes).map (Prod.map (· + 1) id)) :
    p.error? = (left.error?.or right.error?).map childError := by
  have hroot : refusal? (0, p) = none := if_neg h
  rw [error?, hnodes, List.findSome?_cons, hroot]
  simp only [findSome?_below, List.findSome?_append, error?]

theorem error?_not (child : Predicate) : (not child).error? = child.error?.map childError := by
  have hroot : refusal? (0, not child) = none := if_neg id
  rw [error?, nodes, List.findSome?_cons, hroot]
  exact findSome?_below child.nodes

/-! ## Translation -/

/-- a predicate is refused with the error, or has a filter -/
def Answers (p : Predicate) : Option CompileError → Prop
  | some e => p.translate = .error e
  | none => ∃ f, p.translate = .ok f

theorem answers_single {p : Predicate} {attr : String} {c : Comparator} {v : Value}
    (h : p.translate = single p attr c v) :
    p.Answers (if v = .null then some (.unsupportedPredicate p.display) else none) := by
  unfold single at h
  split_ifs with hv
  · rwa [if_pos (Value.isNull_iff.2 hv)] at h
  · rw [if_neg (mt Value.isNull_iff.1 hv)] at h
    exact ⟨_, h⟩

/-- a pair of parts is refused for the first of them that is -/
theorem answers_pair {p left right : Predicate} (join : Filter → Filter → Filter)
    (h : p.translate = match left.translate with
      | .error e => Except.error (childError e)
      | .ok l => match right.translate with
        | .error e => .error (childError e)
        | .ok r => .ok (join l r))
    (hleft : left.Answers left.error?) (hright : right.Answers right.error?) :
    p.Answers ((left.error?.or right.error?).map childError) := by
  cases hl : left.error? with
  | some e =>
    rw [hl] at hleft
    have hleft : left.translate = .error e := hleft
    rw [hleft] at h
    exact h
  | none =>
    rw [hl] at hleft
    obtain ⟨l, hleft⟩ := hleft
    rw [hleft] at h
    cases hr : right.error? with
    | some e =>
      rw [hr] at hright
      have hright : right.translate = .error e := hright
      rw [hright] at h
      exact h
    | none =>
      rw [hr] at hright
      obtain ⟨r, hright⟩ := hright
      rw [hright] at h
      exact ⟨join l r, h⟩

/-- **A predicate is refused with the error of its first refused part, or has a filter** -/
theorem translate_outcome (p : Predicate) : p.Answers p.error? := by
  induction p with
  | equalTo attr v =>
    rw [error?_atom rfl]
    exact answers_single rfl
  | greaterThan attr v =>
    rw [error?_atom rfl]
    exact answers_single rfl
  | greaterThanOrEqual attr v =>
    rw [error?_atom rfl]
    exact answers_single rfl
  | lessThan attr v =>
    rw [error?_atom rfl]
    exact answers_single rfl
  | lessThanOrEqual attr v =>
    rw [error?_atom rfl]
    exact answers_single rfl
  | equalNullSafe attr v => rfl
  | alwaysTrue => rfl
  | alwaysFalse => rfl
  | oneOf attr vs =>
    rw [error?_atom rfl]
    have hrefused : (vs.isEmpty || vs.any Value.isNull) = true ↔ vs = [] ∨ .null ∈ vs := by
      simp [Value.isNull_iff]
    split_ifs with h
    · exact if_pos (hrefused.2 h)
    · exact ⟨_, if_neg (mt hrefused.1 h)⟩
  | isNull attr => exact ⟨_, rfl⟩
  | isNotNull attr => exact ⟨_, rfl⟩
  | startsWith attr text => exact ⟨_, rfl⟩
  | endsWith attr text => exact ⟨_, rfl⟩
  | contains attr text => exact ⟨_, rfl⟩
  | and left right ihl ihr =>
    rw [error?_pair id rfl]
    exact answers_pair (fun l r => .composite .and [l, r]) rfl ihl ihr
  | or left right ihl ihr =>
    rw [error?_pair id rfl]
    exact answers_pair (fun l r => .composite .or [l, r]) rfl ihl ihr
  | not child ih =>
    rw [error?_not]
    cases hc : child.error? with
    | some e =>
      rw [hc] at ih
      have ih : child.translate = .error e := ih
      simp only [Option.map_some, Answers, translate, ih]
    | none =>
      rw [hc] at ih
      obtain ⟨c, ih⟩ := ih
      exact ⟨.composite .not [c], by rw [translate, ih]⟩

theorem translate_eq_error_iff {p : Predicate} {e : CompileError} : p.translate = .error e ↔ p.error? = some e := by
  have houtcome := p.translate_outcome
  cases he : p.error? with
  | some e' =>
    rw [he] at houtcome
    have houtcome : p.translate = .error e' := houtcome
    rw [houtcome, Except.error.injEq, Option.some.injEq]
  | none =>
    rw [he] at houtcome
    obtain ⟨f, hf⟩ := houtcome
    simp [hf]

/-! ## Meaning -/

/-- the cell of a row that a column means; null when the row has no such key -/
def cell (row : JsonRow) (attr : String) : Json :=
  (row.get? (columnKey attr)).getD .null

/-- whether a cell is equal to a candidate; unknown when the candidate is null -/
def candidateTruth (cell : Json) (v : Value) : Truth :=
  if v.isNull then none else some (cell.order? v.toJson == some .eq)

/-- what a predicate says about a row in SQL's three-valued logic -/
def sqlTruth (row : JsonRow) : Predicate → Truth
  | equalTo attr v => Comparator.eq.truth (cell row attr) v.toJson
  | equalNullSafe attr v =>
    some (if v.isNull then (cell row attr).isNull else (cell row attr).order? v.toJson == some .eq)
  | greaterThan attr v => Comparator.gt.truth (cell row attr) v.toJson
  | greaterThanOrEqual attr v => Comparator.ge.truth (cell row attr) v.toJson
  | lessThan attr v => Comparator.lt.truth (cell row attr) v.toJson
  | lessThanOrEqual attr v => Comparator.le.truth (cell row attr) v.toJson
  | oneOf attr vs => if (cell row attr).isNull then none else Truth.any (vs.map (candidateTruth (cell row attr)))
  | isNull attr => some (cell row attr).isNull
  | isNotNull attr => some (!(cell row attr).isNull)
  | and left right => Truth.conj (left.sqlTruth row) (right.sqlTruth row)
  | or left right => Truth.disj (left.sqlTruth row) (right.sqlTruth row)
  | not child => Truth.neg (child.sqlTruth row)
  | startsWith attr text => Comparator.startsWith.truth (cell row attr) (.string text)
  | endsWith attr text => Comparator.endsWith.truth (cell row attr) (.string text)
  | contains attr text => Comparator.contains.truth (cell row attr) (.string text)
  | alwaysTrue => some true
  | alwaysFalse => some false

theorem leafTruth_eq (row : JsonRow) (attr : String) {c : Comparator} (hin : c ≠ .oneOf) (hdefined : c ≠ .isDefined)
    (v : Value) : Leaf.truth row ⟨attr, c, [v]⟩ = c.truth (cell row attr) v.toJson := by
  rw [Leaf.truth_single rfl hin hdefined, c.truth_eq hin hdefined]
  rfl

theorem singleTruth_eq {unmapped : Predicate → Truth} {row : JsonRow} {p : Predicate} {attr : String} {c : Comparator}
    {v : Value} (hin : c ≠ .oneOf) (hdefined : c ≠ .isDefined)
    (h : unmapped p = c.truth (cell row attr) v.toJson) :
    singleTruth unmapped row p attr c v = c.truth (cell row attr) v.toJson := by
  unfold singleTruth
  split_ifs
  · exact h
  · exact leafTruth_eq row attr hin hdefined v

/-- candidates none of which is null are true together just when one of them is equal -/
theorem any_candidateTruth {vs : List Value} (h : .null ∉ vs) (cell : Json) :
    Truth.any (vs.map (candidateTruth cell)) = some (vs.any fun v => Comparator.eq.relates cell v.toJson) := by
  induction vs with
  | nil => rfl
  | cons v vs ih =>
    rw [List.mem_cons, not_or] at h
    have hv : candidateTruth cell v = some (Comparator.eq.relates cell v.toJson) :=
      if_neg (mt Value.isNull_iff.1 (Ne.symm h.1))
    rw [List.map_cons, Truth.any_cons, hv, ih h.2, List.any_cons]
    cases Comparator.eq.relates cell v.toJson with
    | true => rw [Truth.true_disj, Bool.true_or]
    | false => rw [Truth.false_disj, Bool.false_or]

/-- a predicate whose atoms without a filter are read as SQL reads them means what it means in SQL -/
theorem truth_eq_sqlTruth (row : JsonRow) (p : Predicate) : p.truth (sqlTruth row) row = p.sqlTruth row := by
  induction p with
  | equalTo attr v => exact singleTruth_eq (by decide) (by decide) rfl
  | greaterThan attr v => exact singleTruth_eq (by decide) (by decide) rfl
  | greaterThanOrEqual attr v => exact singleTruth_eq (by decide) (by decide) rfl
  | lessThan attr v => exact singleTruth_eq (by decide) (by decide) rfl
  | lessThanOrEqual attr v => exact singleTruth_eq (by decide) (by decide) rfl
  | equalNullSafe attr v => rfl
  | alwaysTrue => rfl
  | alwaysFalse => rfl
  | oneOf attr vs =>
    rw [truth]
    split_ifs with h
    · rfl
    · have hnull : .null ∉ vs := by
        intro hmem
        apply h
        simp [List.any_eq_true, Value.isNull_iff, hmem]
      rw [sqlTruth, any_candidateTruth hnull]
      rfl
  | isNull attr =>
    simp only [truth, sqlTruth, Leaf.truth, Truth.neg, Option.map_some, Bool.not_not]
    rfl
  | isNotNull attr => rfl
  | startsWith attr text => exact leafTruth_eq row attr (by decide) (by decide) (.string text)
  | endsWith attr text => exact leafTruth_eq row attr (by decide) (by decide) (.string text)
  | contains attr text => exact leafTruth_eq row attr (by decide) (by decide) (.string text)
  | and left right ihl ihr => rw [truth, sqlTruth, ihl, ihr]
  | or left right ihl ihr => rw [truth, sqlTruth, ihl, ihr]
  | not child ih => rw [truth, sqlTruth, ih]

/-- **Translation is exact.** A predicate is refused just when some part of it, at any depth, is null-safe equality, a
constant, a comparison with null, or a list that is empty or holds null. The error names the first such part from left to
right, wrapped once by each of its ancestors. Otherwise the predicate has a filter, and the filter says of every row what
the predicate says in SQL. -/
theorem translate_exact (p : Predicate) :
    ((∃ e, p.translate = .error e) ↔ ∃ x ∈ p.nodes, x.2.IsUnmapped) ∧
    (∀ e, p.translate = .error e ↔ ∃ before ancestors q after, p.nodes = before ++ (ancestors, q) :: after ∧
      (∀ x ∈ before, ¬ x.2.IsUnmapped) ∧ q.IsUnmapped ∧ e = .unsupportedPredicate (wrapped ancestors q.display)) ∧
    ∀ f, p.translate = .ok f → ∀ row, f.truth row = p.sqlTruth row := by
  refine ⟨?_, ?_, ?_⟩
  · simp only [translate_eq_error_iff]
    rw [← Option.isSome_iff_exists, error?, List.findSome?_isSome_iff]
    simp [refusal?]
  · intro e
    rw [translate_eq_error_iff, error?, List.findSome?_eq_some_iff]
    constructor
    · rintro ⟨before, ⟨ancestors, q⟩, after, hnodes, hq, hbefore⟩
      obtain ⟨hunmapped, he⟩ := Option.ite_none_right_eq_some.1 hq
      refine ⟨before, ancestors, q, after, hnodes, fun x hx => ?_, hunmapped, (Option.some.inj he).symm⟩
      simpa [refusal?] using hbefore x hx
    · rintro ⟨before, ancestors, q, after, hnodes, hbefore, hunmapped, rfl⟩
      exact ⟨before, (ancestors, q), after, hnodes, if_pos hunmapped, fun x hx => if_neg (hbefore x hx)⟩
  · intro f h row
    rw [truth_of_translate (sqlTruth row) row h, truth_eq_sqlTruth]

/-- two parts of it are refused, the first of them three composites deep -/
def refusedTwice : Predicate :=
  .and (.isNotNull "a") (.or (.not (.equalNullSafe "b" (.string "x"))) .alwaysTrue)

/-- a test for null beside a list, none of it refused -/
def absentOrListed : Predicate :=
  .or (.isNull "zip") (.not (.oneOf "people.id" [.int 1, .int 2]))

theorem translate_exact_deep :
    refusedTwice.translate = .error (.unsupportedPredicate ("child predicate is not supported: " ++
      "child predicate is not supported: child predicate is not supported: EqualNullSafe(b,\"x\")")) ∧
    ∃ f, absentOrListed.translate = .ok f ∧
      f.truth (SortedMap.ofList [("id", .number (.ofInt64 2))]) = some true ∧
      f.truth (SortedMap.ofList [("zip", .string "8001")]) = none := by
  refine ⟨?_, _, rfl, ?_, ?_⟩
  · refine ((translate_exact refusedTwice).2.1 _).2 ⟨[(0, refusedTwice), (1, .isNotNull "a"),
      (1, .or (.not (.equalNullSafe "b" (.string "x"))) .alwaysTrue), (2, .not (.equalNullSafe "b" (.string "x")))],
      3, .equalNullSafe "b" (.string "x"), [(2, .alwaysTrue)], rfl, by decide, trivial, by decide +kernel⟩
  · rw [(translate_exact absentOrListed).2.2 _ rfl]
    decide
  · rw [(translate_exact absentOrListed).2.2 _ rfl]
    decide

end Predicate

end PartitionedScan
