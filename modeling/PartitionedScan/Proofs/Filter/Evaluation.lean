/-
Compiled filters mean what the filters mean.

A leaf becomes a comparison of its column with placeholders, and evaluates to its meaning wherever the placeholders are
bound to its literals (`evaluates_leaf`). A composite becomes its connective over the documents of its children, and the
early exits of the evaluator do not show (`Arg.truth_op`). Both together, by induction over the recursion of the compiler,
make every document evaluate to its reading by the meanings of its origins (`evaluates_of_compileFrom`), parts left out or
not. Main results:
- `compile_preserves_meaning`: with nothing left out, the document evaluates to the Kleene meaning of the filter;
- `evaluates_widened`: with parts left out it evaluates to a truth on the allowed side of that meaning.
-/
import PartitionedScan.Proofs.Bindings
import PartitionedScan.Proofs.Filter.Dropping

namespace PartitionedScan

/-! ## Operands -/

namespace Operator

variable {scope : Scope}

theorem operand_column (l : Leaf) : (column l.attr).operand scope = .ok (l.cell scope.row) := by
  have hname : ((column l.attr).ns == "op" && ["col", "view-col", "schema-col"].contains (column l.attr).name) = true := by
    unfold column
    split <;> rfl
  rw [operand, if_pos hname, column_key]
  rfl

theorem operand_param {name : String} {v : Value} (h : scope.params.get? name = some v) :
    (param name).operand scope = .ok v.toJson := by
  have hname : ((param name).ns == "op" && ["col", "view-col", "schema-col"].contains (param name).name) = false := rfl
  have hparam : (param name).is "op" "param" = true := rfl
  have hfirst : (param name).args.head?.bind Arg.string? = some name := rfl
  rw [operand, hname, if_neg (by decide), if_pos hparam, hfirst]
  simp only [h]

theorem mapM_operator (o : Operator) (ops : List Operator) :
    (ops.map Arg.ofOperator).mapM (fun arg => match arg.operator? with
      | some child => Except.ok child
      | none => Except.error (RemoteError.badPlan (o.title ++ " expects expression arguments (found " ++ arg.display ++ ")")))
      = .ok ops := by
  induction ops with
  | nil => rfl
  | cons x xs ih =>
    rw [List.map_cons, List.mapM_cons, ih]
    rfl

theorem expressions_of_args {o : Operator} {ops : List Operator} (h : o.args = ops.map Arg.ofOperator) :
    o.expressions = .ok ops := by
  rw [expressions, h]
  exact mapM_operator o ops

end Operator

/-! ## Leaves -/

namespace Leaf

/-- the placeholders of literals as operators -/
def parameters (next : Nat) : List Value → List Operator
  | [] => []
  | _ :: values => .param (placeholder next) :: parameters (next + 1) values

theorem placeholders_eq (next : Nat) (values : List Value) :
    placeholders next values = (parameters next values).map Arg.ofOperator := by
  induction values generalizing next with
  | nil => rfl
  | cons v values ih => rw [placeholders, parameters, List.map_cons, ih]

theorem expressions_document (l : Leaf) (next : Nat) :
    (l.document next).expressions = .ok (.column l.attr :: parameters next l.values) :=
  Operator.expressions_of_args (by rw [document, placeholders_eq, List.map_cons])

variable {scope : Scope}

/-- looking for a cell among bound literals -/
theorem membership_parameters {next : Nat} {values : List Value} (h : Bound scope.params next values) (cell : Json) :
    Operator.membership scope cell (parameters next values) =
      .ok (some (values.any fun v => Comparator.eq.relates cell v.toJson)) := by
  induction values generalizing next with
  | nil => rfl
  | cons v values ih =>
    rw [parameters, Operator.membership, Operator.operand_param h.head, List.any_cons]
    cases hv : Comparator.eq.relates cell v.toJson with
    | true =>
      have : cell.order? v.toJson = some .eq := by simpa [Comparator.relates] using hv
      simp [bind, Except.bind, this, pure, Except.pure]
    | false =>
      have : cell.order? v.toJson ≠ some .eq := by simpa [Comparator.relates] using hv
      simp only [bind, Except.bind, if_neg this, Bool.false_or]
      exact ih h.tail

end Leaf

namespace Text

theorem occursIn_iff (part text : List Char) : occursIn part text = true ↔ part <:+: text := by
  induction text with
  | nil => simp [occursIn]
  | cons c r ih => rw [occursIn, Bool.or_eq_true, ih, List.infix_cons_iff, List.isPrefixOf_iff_prefix]

end Text

namespace Comparator

theorem matchesText_eq (c : Comparator) (h : c.isTextMatch = true) (s t : String) :
    c.matchesText s.toList t.toList = c.relates (.string s) (.string t) := by
  cases c with
  | startsWith => exact Bool.eq_iff_iff.2 (List.isPrefixOf_iff_prefix.trans decide_eq_true_iff.symm)
  | endsWith => exact Bool.eq_iff_iff.2 (List.isSuffixOf_iff_suffix.trans decide_eq_true_iff.symm)
  | contains => exact Bool.eq_iff_iff.2 ((Text.occursIn_iff _ _).trans decide_eq_true_iff.symm)
  | _ => cases h

/-- the evaluator compares as the meaning says -/
theorem truth_eq (c : Comparator) (h1 : c ≠ .oneOf) (h2 : c ≠ .isDefined) (a b : Json) :
    c.truth a b = if a.isNull || b.isNull then none else some (c.relates a b) := by
  unfold truth
  split_ifs with hnull htext
  · rfl
  · cases a with
    | string s =>
      cases b with
      | string t => exact congrArg some (matchesText_eq c htext s t)
      | _ => cases c <;> simp_all [isTextMatch, relates]
    | _ => cases c <;> simp_all [isTextMatch, relates]
  · cases horder : a.order? b with
    | none => cases c <;> simp_all [isTextMatch, relates]
    | some o => cases o <;> cases c <;> simp_all [isTextMatch, relates, holdsOn]

end Comparator

namespace Operator

variable {scope : Scope}

theorem comparison_eq {o column literal : Operator} {a b : Json} (ho : o.expressions = .ok [column, literal])
    (ha : column.operand scope = .ok a) (hb : literal.operand scope = .ok b) (c : Comparator) :
    o.comparison scope c = .ok (c.truth a b) := by
  simp [comparison, operands, ho, ha, hb, bind, Except.bind, pure, Except.pure]

end Operator

namespace Leaf

variable {scope : Scope}

/-- a comparison of the column with one bound literal -/
theorem comparison_document {next : Nat} {l : Leaf} {v : Value} (hl : l.values = [v])
    (h : Bound scope.params next l.values) (c : Comparator) (h1 : c ≠ .oneOf) (h2 : c ≠ .isDefined) :
    (l.document next).comparison scope c =
      .ok (if (l.cell scope.row).isNull || v.toJson.isNull then none
        else some (c.relates (l.cell scope.row) v.toJson)) := by
  rw [hl] at h
  have hexpr := l.expressions_document next
  rw [hl] at hexpr
  rw [Operator.comparison_eq hexpr (Operator.operand_column l) (Operator.operand_param h.head), c.truth_eq h1 h2]

theorem atom_comparison (l : Leaf) (next : Nat) (h1 : l.comparator ≠ .oneOf) (h2 : l.comparator ≠ .isDefined) :
    (l.document next).atom scope = (l.document next).comparison scope l.comparator := by
  obtain ⟨attr, comparator, values⟩ := l
  cases comparator with
  | oneOf => exact absurd rfl h1
  | isDefined => exact absurd rfl h2
  | _ => rfl

theorem arity_of_refusal? {schema : Option Schema} {l : Leaf} (h : l.refusal? schema = none) :
    l.comparator.arity.allows l.values.length = true := by
  unfold refusal? at h
  split_ifs at h with _ harity
  simpa using harity

theorem truth_single {l : Leaf} {v : Value} (hl : l.values = [v]) (h1 : l.comparator ≠ .oneOf)
    (h2 : l.comparator ≠ .isDefined) (row : JsonRow) :
    l.truth row = if (l.cell row).isNull || v.toJson.isNull then none
      else some (l.comparator.relates (l.cell row) v.toJson) := by
  obtain ⟨attr, comparator, values⟩ := l
  obtain rfl : values = [v] := hl
  cases comparator with
  | oneOf => exact absurd rfl h1
  | isDefined => exact absurd rfl h2
  | _ => rfl

/-- **A compiled leaf means the leaf**, wherever its placeholders are bound to its literals -/
theorem atom_document {schema : Option Schema} {next : Nat} {l : Leaf} (hl : l.refusal? schema = none)
    (h : Bound scope.params next l.values) : (l.document next).atom scope = .ok (l.truth scope.row) := by
  have harity := arity_of_refusal? hl
  have hcolumn : (Operator.column l.attr).operand scope = .ok (l.cell scope.row) := Operator.operand_column l
  by_cases h1 : l.comparator = .isDefined
  · have hnone : l.values = [] := by
      rw [h1] at harity
      exact List.length_eq_zero_iff.1 (beq_iff_eq.1 harity)
    have his : (l.document next).is "op" "is-defined" = true := by rw [document, h1]; rfl
    have hexpr := l.expressions_document next
    rw [hnone] at hexpr
    rw [Operator.atom, if_pos his, truth, h1, hnone]
    simp [Operator.operands, hexpr, parameters, hcolumn, bind, Except.bind, pure, Except.pure]
  by_cases h2 : l.comparator = .oneOf
  · have hdefined : (l.document next).is "op" "is-defined" = false := by rw [document, h2]; rfl
    have hin : (l.document next).is "op" "in" = true := by rw [document, h2]; rfl
    rw [Operator.atom, hdefined, if_neg Bool.false_ne_true, if_pos hin, expressions_document, truth, h2]
    simp only [bind, Except.bind, hcolumn]
    split_ifs
    · rfl
    · exact membership_parameters h _
  · have hone : ∃ v, l.values = [v] := by
      refine List.length_eq_one_iff.1 ?_
      revert harity h1 h2
      cases l.comparator <;> simp [Comparator.arity, Arity.allows]
    obtain ⟨v, hv⟩ := hone
    rw [atom_comparison l next h2 h1, comparison_document hv h _ h2 h1, truth_single hv h2 h1]

end Leaf

/-! ## Trees -/

namespace Arg

variable {scope : Scope}

/-- what is no connective is evaluated as an atom -/
theorem truth_atom {o : Operator} (h : (ofOperator o).connective? = none) : (ofOperator o).truth scope = o.atom scope := by
  have hnot (c : Combinator) : o.is "op" c.functionName = false := by
    by_contra hc
    rw [Bool.not_eq_false, Operator.is, Bool.and_eq_true, beq_iff_eq, beq_iff_eq] at hc
    simp only [ofOperator, connective?, hc.1, hc.2, if_true, Combinator.ofName?_functionName] at h
    cases h
  have hand : o.is "op" "and" = false := hnot .and
  have hor : o.is "op" "or" = false := hnot .or
  have hneg : o.is "op" "not" = false := hnot .not
  rw [ofOperator, truth]
  simp only [hand, hor, hneg, Bool.false_eq_true, if_false]

theorem truth_op {function : Combinator} {ops : List Operator} {ts : List Truth}
    (harity : function.arity.allows ops.length = true) (h : Evaluates scope (ops.map ofOperator) ts) :
    (ofOperator (.op function.functionName (ops.map ofOperator))).truth scope = .ok (function.combine ts) := by
  have hexpr : (Operator.op function.functionName (ops.map ofOperator)).expressions = .ok ops :=
    Operator.expressions_of_args rfl
  simp only [Operator.op] at hexpr
  rw [ofOperator, Operator.op, truth]
  simp only [Operator.is]
  cases function with
  | and =>
    simp only [Combinator.functionName, beq_self_eq_true, Bool.and_self, if_true] at hexpr ⊢
    rw [hexpr]
    exact (truthOfAll_eq h (some true) (by decide)).trans (by rw [Truth.true_conj]; rfl)
  | or =>
    have hand : ("or" == "and") = false := by decide
    simp only [Combinator.functionName, beq_self_eq_true, hand, Bool.and_self, Bool.and_false, Bool.false_eq_true,
      if_true, if_false] at hexpr ⊢
    rw [hexpr]
    exact (truthOfAny_eq h (some false) (by decide)).trans (by rw [Truth.false_disj]; rfl)
  | not =>
    have hand : ("not" == "and") = false := by decide
    have hor : ("not" == "or") = false := by decide
    simp only [Combinator.functionName, beq_self_eq_true, hand, hor, Bool.and_self, Bool.and_false, Bool.false_eq_true,
      if_true, if_false] at hexpr ⊢
    obtain ⟨o, rfl⟩ := List.length_eq_one_iff.1 (beq_iff_eq.1 harity)
    rw [hexpr]
    cases h with
    | cons ho htail =>
      cases htail
      simp only [bind, Except.bind, List.map_cons, List.map_nil, truthOfFirst, ho]
      rfl

end Arg

namespace Filter

variable {schema : Option Schema} {policy : FallbackPolicy} {scope : Scope}

theorem truthAt_cons {row : JsonRow} {function : Combinator} {children : List Filter} {k : Nat} {x : Filter}
    (h : children[k]? = some x) (p : Place) : truthAt row (.composite function children) (k :: p) = truthAt row x p := by
  rw [truthAt, at?, child?, h]
  rfl

mutual

/-- **Documents evaluate to their origins.** Wherever the placeholders of a compiled filter are bound to its literals, the
document evaluates without an error, to its reading by what the filter says at the origins. -/
theorem evaluates_of_compileFrom : ∀ (f : Filter) {negated : Bool} {next : Nat} {r : Compiled Operator},
    compileFrom schema policy negated next f = .ok r → Bound scope.params next r.values →
    (Arg.ofOperator r.document).truth scope =
      .ok ((Arg.ofOperator r.document).truthBy fun p => f.truthAt scope.row (f.origin schema policy negated p))
  | .leaf l, negated, next, r, h, hb => by
    rw [compileFrom_leaf, Leaf.compile_eq_ok_iff] at h
    obtain ⟨hl, rfl⟩ := h
    rw [Arg.truth_atom (l.document_atom next), Arg.truthBy_atom (l.document_atom next), Leaf.atom_document hl hb]
    rfl
  | .composite function children, negated, next, r, h, hb => by
    obtain ⟨_, rs, hrs, harity, rfl⟩ := compileFrom_composite h
    obtain ⟨ops, hops, hts⟩ := evaluates_of_compileAll children (k := 0) (j := 0)
      (v := truthAt scope.row (.composite function children))
      (w := fun p => truthAt scope.row (.composite function children)
        ((composite function children).origin schema policy negated p))
      hrs hb (fun i x m hx p => by simp only [Nat.zero_add, origin, hx])
      (fun i x hx p => by rw [Nat.zero_add, truthAt_cons hx])
    simp only at hops hts ⊢
    rw [Arg.truthBy_op, if_pos harity]
    rw [hops] at hts harity ⊢
    rw [List.length_map] at harity
    exact Arg.truth_op harity hts

theorem evaluates_of_compileAll : ∀ (xs : List Filter) {drop negated : Bool} {next k j : Nat} {rs : Compiled (List Arg)}
    {v w : Place → Truth}, compileAll schema policy drop negated next xs = .ok rs → Bound scope.params next rs.values →
    (∀ i x m, (survivors schema policy negated k xs)[i]? = some (x, m) →
      ∀ p, w ((j + i) :: p) = v (m :: origin schema policy negated x p)) →
    (∀ i x, xs[i]? = some x → ∀ p, v ((k + i) :: p) = x.truthAt scope.row p) →
    ∃ ops : List Operator, rs.document = ops.map Arg.ofOperator ∧
      Arg.Evaluates scope rs.document (Arg.truthsBy w j rs.document)
  | [], drop, negated, next, k, j, rs, v, w, h, hb, hw, hv => by
    rw [compileAll_nil] at h
    cases h
    exact ⟨[], rfl, .nil⟩
  | x :: xs, drop, negated, next, k, j, rs, v, w, h, hb, hw, hv => by
    have hv' : ∀ i y, xs[i]? = some y → ∀ p, v ((k + 1 + i) :: p) = y.truthAt scope.row p := fun i y hy p => by
      rw [← hv (i + 1) y hy p, show k + 1 + i = k + (i + 1) by omega]
    rcases compileAll_cons h with ⟨r, rest, hx, hrest, rfl⟩ | ⟨e, rest, hx, _, hrest, rfl⟩
    · rw [survivors_cons_ok (compiles_of_ok hx)] at hw
      obtain ⟨ops, hops, hts⟩ := evaluates_of_compileAll xs (k := k + 1) (j := j + 1) hrest hb.right
        (fun i y m hy p => by rw [← hw (i + 1) y m hy p, show j + (i + 1) = j + 1 + i by omega]) hv'
      refine ⟨r.document :: ops, by rw [hops, List.map_cons], ?_⟩
      have hhead : (fun p => w (j :: p)) = fun p => x.truthAt scope.row (x.origin schema policy negated p) :=
        funext fun p => (hw 0 x k rfl p).trans (hv 0 x rfl _)
      rw [Arg.truthsBy, hhead]
      exact .cons (evaluates_of_compileFrom x hx hb.left) hts
    · rw [survivors_cons_error (compiles_of_error hx)] at hw
      obtain ⟨ops, hops, hts⟩ := evaluates_of_compileAll xs (k := k + 1) (j := j) hrest hb hw hv'
      exact ⟨ops, hops, hts⟩

end

/-- a document evaluates to a truth on the allowed side of what the filter says, and to just that when nothing was left
out -/
theorem evaluates_widened (scope : Scope) {f : Filter} {negated : Bool} {next : Nat} {r : Compiled Operator}
    (h : compileFrom schema policy negated next f = .ok r) (hb : Bound scope.params next r.values) :
    ∃ t, r.document.truth scope = .ok t ∧ Truth.Widens negated (f.truth scope.row) t ∧
      (r.dropped = [] → t = f.truth scope.row) := by
  obtain ⟨hwidens, heq⟩ := truthBy_widens f (f.truthAt scope.row) h
  rw [← truth_eq_truthBy] at hwidens heq
  exact ⟨_, evaluates_of_compileFrom f h hb, hwidens, heq⟩

/-- **Compilation preserves meaning.** When a filter compiles with nothing left out, its document evaluates on every row,
over the bindings of the compiler and nothing else, to what the filter says about the row. -/
theorem compile_preserves_meaning (schema : Option Schema) (policy : FallbackPolicy) (f : Filter) (c : Compilation)
    (h : f.compile schema policy = .ok c) (hd : c.dropped = []) (row : JsonRow) :
    c.document.truth ⟨SortedMap.ofList c.bindings, row⟩ = .ok (f.truth row) := by
  obtain ⟨r, hr, rfl⟩ := compile_eq_ok_iff.1 h
  obtain ⟨t, ht, _, heq⟩ := evaluates_widened ⟨SortedMap.ofList (literalBindings r.values), row⟩ hr
    (Bound.of_literals SortedMap.empty r.values)
  rw [← heq hd]
  exact ht

/-- neither the prefix nor the view-qualified column decides it for a row without a zip code -/
def notElsewhere : Filter :=
  .composite .not [.composite .or [.compare "name" .startsWith (.string "B"), .compare "people.zip" .eq (.int 7)]]

theorem compile_preserves_meaning_unknown :
    ∃ c, notElsewhere.compile none .strict = .ok c ∧ c.dropped = [] ∧
      c.document.truth ⟨SortedMap.ofList c.bindings, SortedMap.ofList [("name", .string "Ada"), ("zip", .null)]⟩ =
        .ok none :=
  ⟨_, rfl, rfl, compile_preserves_meaning none .strict notElsewhere _ rfl rfl
    (SortedMap.ofList [("name", .string "Ada"), ("zip", .null)])⟩

end Filter

end PartitionedScan
