/-
What a predicate of the host says about a row.

The host compares as the engine does and joins in Kleene's logic. An atom without a filter (null-safe equality, the
constants, a comparison with null, a list that is empty or holds null) may have any truth: `unmapped` gives it. Whatever
`translate` accepts has no such atom in it, so its filter means the same: `truth_of_translate`.
-/
import PartitionedScan.Predicate
import PartitionedScan.Proofs.Filter.Meaning

namespace PartitionedScan

namespace Predicate

/-- a comparison with one literal; with null it has no filter -/
def singleTruth (unmapped : Predicate → Truth) (row : JsonRow) (p : Predicate) (attr : String) (c : Comparator)
    (v : Value) : Truth :=
  if v.isNull then unmapped p else Leaf.truth row ⟨attr, c, [v]⟩

/-- what a predicate says about a row, its atoms without a filter given -/
def truth (unmapped : Predicate → Truth) (row : JsonRow) : Predicate → Truth
  | equalTo attr v => singleTruth unmapped row (equalTo attr v) attr .eq v
  | greaterThan attr v => singleTruth unmapped row (greaterThan attr v) attr .gt v
  | greaterThanOrEqual attr v => singleTruth unmapped row (greaterThanOrEqual attr v) attr .ge v
  | lessThan attr v => singleTruth unmapped row (lessThan attr v) attr .lt v
  | lessThanOrEqual attr v => singleTruth unmapped row (lessThanOrEqual attr v) attr .le v
  | oneOf attr vs =>
    if vs.isEmpty || vs.any Value.isNull then unmapped (oneOf attr vs) else Leaf.truth row ⟨attr, .oneOf, vs⟩
  | isNull attr => Truth.neg (Leaf.truth row ⟨attr, .isDefined, []⟩)
  | isNotNull attr => Leaf.truth row ⟨attr, .isDefined, []⟩
  | startsWith attr text => Leaf.truth row ⟨attr, .startsWith, [.string text]⟩
  | endsWith attr text => Leaf.truth row ⟨attr, .endsWith, [.string text]⟩
  | contains attr text => Leaf.truth row ⟨attr, .contains, [.string text]⟩
  | and left right => Truth.conj (left.truth unmapped row) (right.truth unmapped row)
  | or left right => Truth.disj (left.truth unmapped row) (right.truth unmapped row)
  | not child => Truth.neg (child.truth unmapped row)
  | p@(equalNullSafe _ _) => unmapped p
  | p@alwaysTrue => unmapped p
  | p@alwaysFalse => unmapped p

variable {unmapped : Predicate → Truth} {row : JsonRow}

theorem truth_of_single {p : Predicate} {attr : String} {c : Comparator} {v : Value} {f : Filter}
    (h : single p attr c v = .ok f) : f.truth row = singleTruth unmapped row p attr c v := by
  unfold single at h
  unfold singleTruth
  split_ifs at h ⊢
  cases h
  rfl

/-- the children of a translated composite are translated -/
theorem translate_pair {left right : Predicate} {f : Filter} (join : Filter → Filter → Filter)
    (h : (match left.translate with
      | .error e => Except.error (childError e)
      | .ok l => match right.translate with
        | .error e => .error (childError e)
        | .ok r => .ok (join l r)) = .ok f) :
    ∃ l r, left.translate = .ok l ∧ right.translate = .ok r ∧ f = join l r := by
  cases hl : left.translate with
  | error e => rw [hl] at h; cases h
  | ok l =>
    cases hr : right.translate with
    | error e => rw [hl, hr] at h; cases h
    | ok r => rw [hl, hr] at h; exact ⟨l, r, rfl, rfl, (Except.ok.inj h).symm⟩

/-- **Translation means the same.** A predicate that has a filter says of every row what its filter says. -/
theorem truth_of_translate (unmapped : Predicate → Truth) (row : JsonRow) {p : Predicate} {f : Filter}
    (h : p.translate = .ok f) : f.truth row = p.truth unmapped row := by
  induction p generalizing f with
  | equalTo attr v => exact truth_of_single h
  | greaterThan attr v => exact truth_of_single h
  | greaterThanOrEqual attr v => exact truth_of_single h
  | lessThan attr v => exact truth_of_single h
  | lessThanOrEqual attr v => exact truth_of_single h
  | equalNullSafe attr v => cases h
  | alwaysTrue => cases h
  | alwaysFalse => cases h
  | oneOf attr vs =>
    simp only [translate] at h
    simp only [truth]
    split_ifs at h ⊢
    cases h
    rfl
  | isNull attr => cases h; rfl
  | isNotNull attr => cases h; rfl
  | startsWith attr text => cases h; rfl
  | endsWith attr text => cases h; rfl
  | contains attr text => cases h; rfl
  | and left right ihl ihr =>
    obtain ⟨l, r, hl, hr, rfl⟩ := translate_pair (fun l r => .composite .and [l, r]) h
    simp only [Filter.truth, Filter.truths, Combinator.combine, Truth.all_cons, Truth.all_nil, Truth.conj_true, truth,
      ihl hl, ihr hr]
  | or left right ihl ihr =>
    obtain ⟨l, r, hl, hr, rfl⟩ := translate_pair (fun l r => .composite .or [l, r]) h
    simp only [Filter.truth, Filter.truths, Combinator.combine, Truth.any_cons, Truth.any_nil, Truth.disj_false, truth,
      ihl hl, ihr hr]
  | not child ih =>
    simp only [translate] at h
    cases hc : child.translate with
    | error e => rw [hc] at h; cases h
    | ok c =>
      rw [hc] at h
      cases h
      simp only [Filter.truth, Filter.truths, Combinator.combine, truth, ih hc]

end Predicate

end PartitionedScan
