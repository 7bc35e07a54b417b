/-
Parts of a filter that compiles.

Where nothing is left out, the polarity of a part and the policy make no difference: every part compiles as it would strictly,
on its own and from any number (`compileFrom_of_complete`, over the tree). So a filter with a part that fails on its own, under
any policy, fails itself or has something left out. Main result:
- `compiles_at`: every part of a filter that compiles with nothing left out compiles on its own, under every policy.
-/
import PartitionedScan.Proofs.Filter.Pruning

namespace PartitionedScan

namespace Filter

variable {schema : Option Schema} {policy : FallbackPolicy}

mutual

/-- **What compiles with nothing left out compiles strictly**, to the same and under any number of `not`s -/
theorem compileFrom_of_complete : ∀ (f : Filter) {negated : Bool} (negated' : Bool) {next : Nat} {r : Compiled Operator},
    compileFrom schema policy negated next f = .ok r → r.dropped = [] →
    compileFrom schema .strict negated' next f = .ok r
  | .leaf l, negated, negated', next, r, h, _ => by
    rw [compileFrom_leaf] at h ⊢
    exact h
  | .composite function children, negated, negated', next, r, h, hd => by
    obtain ⟨harity, rs, hrs, hkept, rfl⟩ := compileFrom_composite h
    have hchildren := compileAll_of_complete children (negated' ^^ (function == .not)) hrs hd
    rw [← not_droppable_strict negated' function] at hchildren
    exact compileFrom_of_compileAll harity hchildren (ne_nil_of_allows hkept)

theorem compileAll_of_complete : ∀ (xs : List Filter) {drop negated : Bool} (negated' : Bool) {next : Nat}
    {rs : Compiled (List Arg)}, compileAll schema policy drop negated next xs = .ok rs → rs.dropped = [] →
    compileAll schema .strict false negated' next xs = .ok rs
  | [], drop, negated, negated', next, rs, h, _ => by
    rw [compileAll_nil] at h ⊢
    exact h
  | x :: xs, drop, negated, negated', next, rs, h, hd => by
    rcases compileAll_cons h with ⟨r, rest, hx, hrest, rfl⟩ | ⟨e, rest, _, _, _, rfl⟩
    · obtain ⟨hhead, htail⟩ := List.append_eq_nil_iff.1 hd
      have hx' := compileFrom_of_complete x negated' hx hhead
      have hrest' := compileAll_of_complete xs negated' hrest htail
      rw [compileAll, hx']
      simp only [hrest']
    · cases hd

end

theorem child_of_compileAll {xs : List Filter} {negated : Bool} {next : Nat} {rs : Compiled (List Arg)}
    (h : compileAll schema .strict false negated next xs = .ok rs) {x : Filter} (hx : x ∈ xs) :
    ∃ next' r, compileFrom schema .strict negated next' x = .ok r := by
  induction xs generalizing next rs with
  | nil => cases hx
  | cons y xs ih =>
    rcases compileAll_cons h with ⟨r, rest, hy, hrest, _⟩ | ⟨_, _, _, hdrop, _⟩
    · rcases List.mem_cons.1 hx with rfl | hx
      · exact ⟨next, r, hy⟩
      · exact ih hrest hx
    · cases hdrop

theorem compileFrom_at {p : Place} {f g : Filter} {negated : Bool} {next : Nat} {r : Compiled Operator}
    (h : compileFrom schema .strict negated next f = .ok r) (hg : f.at? p = some g) :
    ∃ negated' next' s, compileFrom schema .strict negated' next' g = .ok s := by
  induction p generalizing f negated next r with
  | nil =>
    cases hg
    exact ⟨negated, next, r, h⟩
  | cons i p ih =>
    cases f with
    | leaf l => cases hg
    | composite function children =>
      rw [at?, child?] at hg
      obtain ⟨x, hx, hg⟩ := Option.bind_eq_some_iff.1 hg
      obtain ⟨_, rs, hrs, _, _⟩ := compileFrom_composite h
      rw [not_droppable_strict] at hrs
      obtain ⟨next', s, hs⟩ := child_of_compileAll hrs (List.mem_of_getElem? hx)
      exact ih hs hg

/-- a filter compiles with nothing left out just when it compiles strictly -/
theorem compile_complete_iff {f : Filter} {c : Compilation} :
    f.compile schema policy = .ok c ∧ c.dropped = [] ↔ f.compile schema .strict = .ok c := by
  constructor
  · rintro ⟨h, hd⟩
    obtain ⟨r, hr, rfl⟩ := compile_eq_ok_iff.1 h
    exact compile_eq_ok_iff.2 ⟨r, compileFrom_of_complete f false hr hd, rfl⟩
  · intro h
    obtain ⟨r, hr, rfl⟩ := compile_eq_ok_iff.1 h
    exact ⟨compile_eq_ok_iff.2 ⟨r, compileFrom_of_strict f policy hr, rfl⟩, dropped_of_strict h⟩

/-- **Every part of a filter that compiles strictly compiles on its own**, under every policy -/
theorem compiles_at {f g : Filter} {c : Compilation} (h : f.compile schema .strict = .ok c) {p : Place}
    (hg : f.at? p = some g) (policy : FallbackPolicy) : ∃ d, g.compile schema policy = .ok d := by
  obtain ⟨r, hr, _⟩ := compile_eq_ok_iff.1 h
  obtain ⟨negated, next, s, hs⟩ := compileFrom_at hr hg
  have hplain := compileFrom_of_complete g false hs (dropped_of_compileFrom g hs)
  obtain ⟨t, ht, _⟩ := compileFrom_ok_renumber hplain 0
  exact ⟨_, compile_eq_ok_iff.2 ⟨t, compileFrom_of_strict g policy ht, rfl⟩⟩

end Filter

end PartitionedScan
