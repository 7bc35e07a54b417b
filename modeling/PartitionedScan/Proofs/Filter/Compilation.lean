/-
What compiling a filter can come to.

`compileFrom_composite` and `compileAll_cons` are the inversions that later proofs use in place of the compiler's text: a
composite has compiled children under an allowed number of them, a child is either compiled or left out. The number of
the first placeholder decides nothing but names: `compileFrom_renumber` says that a filter compiles from every number or
from none, with the same literals and the same parts left out.
-/
import PartitionedScan.Proofs.Bindings

namespace PartitionedScan

namespace Compiled

variable {Document : Type}

/-- the literals and what was left out -/
def contents (r : Compiled Document) : List Value × List CompileError := (r.values, r.dropped)

end Compiled

namespace Leaf

/-- the document of a leaf whose first placeholder is number `next` -/
def document (next : Nat) (l : Leaf) : Operator :=
  ⟨l.comparator.ns, l.comparator.functionName, .ofOperator (.column l.attr) :: placeholders next l.values⟩

/-- a leaf compiles unless something is wrong with it, and nothing is ever left out of it -/
theorem compile_eq_ok_iff {schema : Option Schema} {next : Nat} {l : Leaf} {r : Compiled Operator} :
    l.compile schema next = .ok r ↔ l.refusal? schema = none ∧ r = ⟨l.document next, l.values, []⟩ := by
  unfold compile
  cases l.refusal? schema with
  | some e => simp
  | none => simp [document, eq_comm]

end Leaf

namespace Filter

variable {schema : Option Schema} {policy : FallbackPolicy}

/-! ## Inversions -/

/-- whether a composite may leave children out -/
def droppable (policy : FallbackPolicy) (negated : Bool) (function : Combinator) : Bool :=
  function == .and && !negated && policy == .dropUnsupported

theorem droppable_iff {negated : Bool} {function : Combinator} :
    droppable policy negated function = true ↔ function = .and ∧ negated = false ∧ policy = .dropUnsupported := by
  cases function <;> cases negated <;> cases policy <;> decide

theorem compileFrom_leaf {negated : Bool} {next : Nat} {l : Leaf} :
    compileFrom schema policy negated next (.leaf l) = l.compile schema next := by
  rw [compileFrom]

theorem compileAll_nil {drop negated : Bool} {next : Nat} :
    compileAll schema policy drop negated next [] = .ok ⟨[], [], []⟩ := by
  rw [compileAll]

/-- a child that compiles is followed by the others, one that does not is left out if that is allowed -/
theorem compileAll_cons {drop negated : Bool} {next : Nat} {x : Filter} {xs : List Filter} {rs : Compiled (List Arg)}
    (h : compileAll schema policy drop negated next (x :: xs) = .ok rs) :
    (∃ r rest, compileFrom schema policy negated next x = .ok r ∧
      compileAll schema policy drop negated (next + r.values.length) xs = .ok rest ∧
      rs = ⟨.ofOperator r.document :: rest.document, r.values ++ rest.values, r.dropped ++ rest.dropped⟩) ∨
    ∃ e rest, compileFrom schema policy negated next x = .error e ∧ drop = true ∧
      compileAll schema policy drop negated next xs = .ok rest ∧
      rs = ⟨rest.document, rest.values, e :: rest.dropped⟩ := by
  rw [compileAll] at h
  cases hx : compileFrom schema policy negated next x with
  | ok r =>
    rw [hx] at h
    simp only at h
    cases hxs : compileAll schema policy drop negated (next + r.values.length) xs with
    | error e => rw [hxs] at h; cases h
    | ok rest => rw [hxs] at h; exact Or.inl ⟨r, rest, rfl, hxs, (Except.ok.inj h).symm⟩
  | error e =>
    rw [hx] at h
    simp only at h
    split_ifs at h with hd
    cases hxs : compileAll schema policy drop negated next xs with
    | error e' => rw [hxs] at h; cases h
    | ok rest => rw [hxs] at h; exact Or.inr ⟨e, rest, rfl, hd, hxs ▸ rfl, (Except.ok.inj h).symm⟩

/-- children are lost only where that is allowed, and every lost one is recorded -/
theorem compileAll_length {drop negated : Bool} {next : Nat} {xs : List Filter} {rs : Compiled (List Arg)}
    (h : compileAll schema policy drop negated next xs = .ok rs) :
    xs.length ≤ rs.document.length + rs.dropped.length ∧ (drop = false → rs.document.length = xs.length) := by
  induction xs generalizing next rs with
  | nil =>
    rw [compileAll_nil] at h
    cases h
    exact ⟨le_rfl, fun _ => rfl⟩
  | cons x xs ih =>
    rcases compileAll_cons h with ⟨r, rest, _, hrest, rfl⟩ | ⟨e, rest, _, hd, hrest, rfl⟩
    · obtain ⟨h1, h2⟩ := ih hrest
      simp only [List.length_cons, List.length_append]
      exact ⟨by omega, fun hd => by rw [h2 hd]⟩
    · obtain ⟨h1, _⟩ := ih hrest
      simp only [List.length_cons]
      exact ⟨by omega, fun hf => by rw [hf] at hd; cases hd⟩

/-- a compiled composite keeps its connective over an allowed number of compiled children -/
theorem compileFrom_composite {negated : Bool} {next : Nat} {function : Combinator} {children : List Filter}
    {r : Compiled Operator} (h : compileFrom schema policy negated next (.composite function children) = .ok r) :
    function.arity.allows children.length = true ∧ ∃ rs,
      compileAll schema policy (droppable policy negated function) (negated ^^ (function == .not)) next children = .ok rs ∧
      function.arity.allows rs.document.length = true ∧
      r = ⟨.op function.functionName rs.document, rs.values, rs.dropped⟩ := by
  rw [compileFrom, ← droppable] at h
  cases harity : function.arity.allows children.length with
  | false => rw [harity] at h; cases h
  | true =>
    rw [harity] at h
    simp only [Bool.not_true, Bool.false_eq_true, if_false] at h
    refine ⟨rfl, ?_⟩
    cases hrs : compileAll schema policy (droppable policy negated function) (negated ^^ (function == .not)) next
        children with
    | error e => rw [hrs] at h; cases h
    | ok rs =>
      rw [hrs] at h
      obtain ⟨hcount, hkept⟩ := compileAll_length hrs
      refine ⟨rs, rfl, ?_, ?_⟩
      · cases hd : droppable policy negated function with
        | false => rwa [hkept hd]
        | true =>
          -- an `and` that lost every child would have failed with the first error
          rw [(droppable_iff.1 hd).1] at harity ⊢
          have hpos : 1 ≤ children.length := of_decide_eq_true harity
          obtain ⟨document, values, dropped⟩ := rs
          cases document with
          | cons d ds => exact decide_eq_true (Nat.le_add_left 1 ds.length)
          | nil =>
            cases dropped with
            | nil => simp only [List.length_nil] at hcount; omega
            | cons e es => cases h
      · obtain ⟨document, values, dropped⟩ := rs
        cases document with
        | cons d ds => exact (Except.ok.inj h).symm
        | nil =>
          cases dropped with
          | nil => exact (Except.ok.inj h).symm
          | cons e es => cases h

theorem compileFrom_of_compileAll {negated : Bool} {next : Nat} {function : Combinator} {children : List Filter}
    {rs : Compiled (List Arg)} (harity : function.arity.allows children.length = true)
    (h : compileAll schema policy (droppable policy negated function) (negated ^^ (function == .not)) next children = .ok rs)
    (hne : rs.document ≠ []) :
    compileFrom schema policy negated next (.composite function children) =
      .ok ⟨.op function.functionName rs.document, rs.values, rs.dropped⟩ := by
  rw [compileFrom, ← droppable, harity]
  simp only [Bool.not_true, Bool.false_eq_true, if_false]
  rw [h]
  obtain ⟨document, values, dropped⟩ := rs
  cases document with
  | nil => exact absurd rfl hne
  | cons d ds => rfl

/-- compiling a filter numbers its placeholders from 0 and binds them to its literals -/
theorem compile_eq_ok_iff {f : Filter} {c : Compilation} :
    f.compile schema policy = .ok c ↔ ∃ r, compileFrom schema policy false 0 f = .ok r ∧
      c = ⟨r.document, literalBindings r.values, r.dropped⟩ := by
  rw [compile]
  cases compileFrom schema policy false 0 f with
  | error e => simp
  | ok r => simp [literalBindings, eq_comm]

/-! ## Numbers of placeholders -/

theorem leaf_compile_renumber (l : Leaf) (next next' : Nat) :
    (l.compile schema next).map Compiled.contents = (l.compile schema next').map Compiled.contents := by
  unfold Leaf.compile
  split <;> rfl

mutual

/-- **Numbers are only names.** The number of the first placeholder decides neither whether a filter compiles nor what
it binds or leaves out. -/
theorem compileFrom_renumber : ∀ (f : Filter) (negated : Bool) (next next' : Nat),
    (compileFrom schema policy negated next f).map Compiled.contents =
      (compileFrom schema policy negated next' f).map Compiled.contents
  | .leaf l, negated, next, next' => by
    rw [compileFrom_leaf, compileFrom_leaf, leaf_compile_renumber l next next']
  | .composite function children, negated, next, next' => by
    rw [compileFrom, compileFrom]
    split_ifs
    · rfl
    · simp only
      rcases except_map_eq (compileAll_renumber children (function == .and && !negated && policy == .dropUnsupported)
        (negated ^^ (function == .not)) next next') with ⟨e, h, h'⟩ | ⟨rs, rs', h, h', heq⟩
      · rw [h, h']
      · obtain ⟨document, values, dropped⟩ := rs
        obtain ⟨document', values', dropped'⟩ := rs'
        simp only [Compiled.contents, Prod.mk.injEq] at heq
        obtain ⟨hlen, rfl, rfl⟩ := heq
        rw [h, h']
        cases document with
        | nil =>
          obtain rfl := List.length_eq_zero_iff.1 hlen.symm
          cases dropped <;> rfl
        | cons d ds =>
          cases document' with
          | nil => cases hlen
          | cons d' ds' => rfl

theorem compileAll_renumber : ∀ (xs : List Filter) (drop negated : Bool) (next next' : Nat),
    (compileAll schema policy drop negated next xs).map (fun rs => (rs.document.length, rs.contents)) =
      (compileAll schema policy drop negated next' xs).map fun rs => (rs.document.length, rs.contents)
  | [], drop, negated, next, next' => by rw [compileAll_nil, compileAll_nil]
  | x :: xs, drop, negated, next, next' => by
    rw [compileAll, compileAll]
    rcases except_map_eq (compileFrom_renumber x negated next next') with ⟨e, h, h'⟩ | ⟨r, r', h, h', heq⟩
    · rw [h, h']
      simp only
      split_ifs
      · rcases except_map_eq (compileAll_renumber xs drop negated next next') with ⟨e', h, h'⟩ | ⟨rs, rs', h, h', heq⟩
        · rw [h, h']
        · simp only [Compiled.contents, Prod.mk.injEq] at heq
          obtain ⟨hlen, hvalues, hdropped⟩ := heq
          rw [h, h']
          simp only [Except.map, Compiled.contents, hlen, hvalues, hdropped]
      · rfl
    · simp only [Compiled.contents, Prod.mk.injEq] at heq
      obtain ⟨hvalues, hdropped⟩ := heq
      rw [h, h']
      simp only [hvalues]
      rcases except_map_eq (compileAll_renumber xs drop negated (next + r'.values.length)
        (next' + r'.values.length)) with ⟨e', h, h'⟩ | ⟨rs, rs', h, h', heq⟩
      · rw [h, h']
      · simp only [Compiled.contents, Prod.mk.injEq] at heq
        obtain ⟨hlen, hvalues', hdropped'⟩ := heq
        rw [h, h']
        simp only [Except.map, Compiled.contents, List.length_cons, hlen, hdropped, hvalues', hdropped']

end

/-- what compiles from one number compiles from every number, to the same contents -/
theorem compileFrom_ok_renumber {f : Filter} {negated : Bool} {next : Nat} {r : Compiled Operator}
    (h : compileFrom schema policy negated next f = .ok r) (next' : Nat) :
    ∃ s, compileFrom schema policy negated next' f = .ok s ∧ r.contents = s.contents := by
  rcases except_map_eq (compileFrom_renumber f negated next next') with ⟨e, he, _⟩ | ⟨r', s, hr, hs, heq⟩
  · rw [h] at he
    cases he
  · rw [h] at hr
    cases hr
    exact ⟨s, hs, heq⟩

/-! ## Strict compilation -/

theorem not_droppable_strict (negated : Bool) (function : Combinator) : droppable .strict negated function = false := by
  rw [Bool.eq_false_iff, ne_eq, droppable_iff]
  exact fun hdrop => absurd hdrop.2.2 (by decide)

mutual

theorem dropped_of_compileFrom : ∀ (f : Filter) {negated : Bool} {next : Nat} {r : Compiled Operator},
    compileFrom schema .strict negated next f = .ok r → r.dropped = []
  | .leaf l, negated, next, r, h => by
    rw [compileFrom_leaf, Leaf.compile_eq_ok_iff] at h
    obtain ⟨_, rfl⟩ := h
    rfl
  | .composite function children, negated, next, r, h => by
    obtain ⟨_, rs, hrs, _, rfl⟩ := compileFrom_composite h
    rw [not_droppable_strict] at hrs
    exact dropped_of_compileAll children hrs

theorem dropped_of_compileAll : ∀ (xs : List Filter) {negated : Bool} {next : Nat} {rs : Compiled (List Arg)},
    compileAll schema .strict false negated next xs = .ok rs → rs.dropped = []
  | [], negated, next, rs, h => by
    rw [compileAll_nil] at h
    cases h
    rfl
  | x :: xs, negated, next, rs, h => by
    rcases compileAll_cons h with ⟨r, rest, hx, hrest, rfl⟩ | ⟨_, _, _, hdrop, _⟩
    · simp only [dropped_of_compileFrom x hx, dropped_of_compileAll xs hrest, List.append_nil]
    · cases hdrop

end

/-- a filter compiles strictly as a whole or not at all -/
theorem dropped_of_strict {f : Filter} {c : Compilation} (h : f.compile schema .strict = .ok c) : c.dropped = [] := by
  obtain ⟨r, hr, rfl⟩ := compile_eq_ok_iff.1 h
  exact dropped_of_compileFrom f hr

end Filter

end PartitionedScan
