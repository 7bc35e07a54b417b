/-
Compiling loses nothing.

A document keeps the columns, the comparisons and the connectives of a filter, its bindings the literals, and the
placeholders say how many of them each leaf takes. Two compiled filters with one document therefore agree leaf by leaf, so
the flat lists of their literals are cut at the same points (`alike_of_compileFrom`). A column is the pieces of its reference
put together again (`Operator.joined_column`), whichever of the three forms it has, and a text belongs to one document only
(`Json.render_injective`). Main result:
- `compile_lossless`: filters that compile strictly to one text with equal bindings are equal, and filters whose
  literals are only the same one by one differ in nothing else.
-/
import PartitionedScan.Proofs.Decimal.ReadBack
import PartitionedScan.Proofs.Filter.Application
import PartitionedScan.Proofs.PlanDocuments

namespace PartitionedScan

/-! ## Columns and operators -/

namespace Operator

/-- the pieces of a column reference, put together with dots -/
def joined (o : Operator) : String :=
  String.ofList (['.'].intercalate ((o.args.filterMap Arg.string?).map String.toList))

theorem joined_column (attr : String) : (column attr).joined = attr := by
  have hpieces {ps : List String} (h : (Text.segments '.' attr.toList).map String.ofList = ps) :
      String.ofList (['.'].intercalate (ps.map String.toList)) = attr := by
    have hlists : ps.map String.toList = Text.segments '.' attr.toList := by
      rw [← h, List.map_map]
      exact (List.map_congr_left fun _ _ => String.toList_ofList).trans (List.map_id _)
    rw [hlists, Text.intercalate_segments, String.ofList_toList]
  unfold column
  split
  · next h => exact hpieces h
  · next h => exact hpieces h
  · simp [joined, op, Arg.text, Arg.string?]

theorem column_injective : Function.Injective column := by
  intro a b h
  rw [← joined_column a, h, joined_column]

end Operator

theorem Arg.ofOperator_injective : Function.Injective Arg.ofOperator := by
  rintro ⟨ns, name, args⟩ ⟨ns', name', args'⟩ h
  simpa [ofOperator] using h

/-- no comparison is taken for a connective -/
theorem Leaf.document_ne_op (l : Leaf) (next : Nat) (function : Combinator) (args : List Arg) :
    l.document next ≠ .op function.functionName args := by
  intro h
  have hatom := l.document_atom next
  rw [h, Arg.connective?_op] at hatom
  cases hatom

theorem forall₂_of_append {α β : Type} {r : α → β → Prop} {xs xs' : List α} {ys ys' : List β}
    (hlen : xs.length = ys.length) (h : List.Forall₂ r (xs ++ xs') (ys ++ ys')) :
    List.Forall₂ r xs ys ∧ List.Forall₂ r xs' ys' := by
  have hleft := List.forall₂_take_append _ ys ys' h
  have hright := List.forall₂_drop_append _ ys ys' h
  rw [← hlen, List.take_left] at hleft
  rw [← hlen, List.drop_left] at hright
  exact ⟨hleft, hright⟩

namespace Filter

/-! ## Filters that differ in their literals -/

mutual

/-- the filters have one shape, and their literals are the same one by one -/
def Alike (same : Value → Value → Prop) : Filter → Filter → Prop
  | .leaf l, .leaf m => l.attr = m.attr ∧ l.comparator = m.comparator ∧ List.Forall₂ same l.values m.values
  | .composite function xs, .composite function' ys => function = function' ∧ AlikeAll same xs ys
  | _, _ => False

def AlikeAll (same : Value → Value → Prop) : List Filter → List Filter → Prop
  | [], [] => True
  | x :: xs, y :: ys => Alike same x y ∧ AlikeAll same xs ys
  | _, _ => False

end

mutual

theorem alike_eq_iff : ∀ f g : Filter, Alike Eq f g ↔ f = g
  | .leaf l, g => by
    cases g with
    | leaf m =>
      obtain ⟨attr, comparator, values⟩ := l
      obtain ⟨attr', comparator', values'⟩ := m
      simp [Alike]
    | composite _ _ => simp [Alike]
  | .composite _ xs, g => by
    cases g with
    | leaf m => simp [Alike]
    | composite _ ys => simp [Alike, alikeAll_eq_iff xs ys]

theorem alikeAll_eq_iff : ∀ xs ys : List Filter, AlikeAll Eq xs ys ↔ xs = ys
  | [], ys => by cases ys <;> simp [AlikeAll]
  | x :: xs, ys => by
    cases ys with
    | nil => simp [AlikeAll]
    | cons y ys => simp [AlikeAll, alike_eq_iff x y, alikeAll_eq_iff xs ys]

end

/-! ## What a document keeps -/

section

variable {s t : Option Schema} {negated negated' : Bool} {next next' : Nat}

/-- a document tells how many literals belong to it -/
theorem length_values_of_document {f g : Filter} {r r' : Compiled Operator}
    (hf : compileFrom s .strict negated next f = .ok r) (hg : compileFrom t .strict negated' next' g = .ok r')
    (h : r.document = r'.document) : r.values.length = r'.values.length := by
  have hnames := congrArg List.length (paramNames_of_compileFrom f hf)
  rw [h, paramNames_of_compileFrom g hg] at hnames
  simpa using hnames.symm

/-- nothing of a strict compilation is left out, so the documents tell how many children there are -/
theorem length_eq_of_documents {xs ys : List Filter} {rs rs' : Compiled (List Arg)}
    (hxs : compileAll s .strict false negated next xs = .ok rs)
    (hys : compileAll t .strict false negated' next' ys = .ok rs') (h : rs.document = rs'.document) :
    xs.length = ys.length := by
  rw [← (compileAll_length hxs).2 rfl, h, (compileAll_length hys).2 rfl]

variable {same : Value → Value → Prop}

mutual

/-- one document and literals that are the same one by one come of filters that are alike -/
theorem alike_of_compileFrom : ∀ (f g : Filter) {negated negated' : Bool} {next next' : Nat} {r r' : Compiled Operator},
    compileFrom s .strict negated next f = .ok r → compileFrom t .strict negated' next' g = .ok r' →
    r.document = r'.document → List.Forall₂ same r.values r'.values → Alike same f g
  | .leaf l, .leaf m, _, _, next, next', r, r', hf, hg, hdoc, hvalues => by
    rw [compileFrom_leaf, Leaf.compile_eq_ok_iff] at hf hg
    obtain ⟨_, rfl⟩ := hf
    obtain ⟨_, rfl⟩ := hg
    simp only [Leaf.document, Operator.mk.injEq, List.cons.injEq] at hdoc
    obtain ⟨_, hname, hcolumn, _⟩ := hdoc
    have hattr := Operator.column_injective (Arg.ofOperator_injective hcolumn)
    exact ⟨hattr, Comparator.functionName_injective hname, hvalues⟩
  -- the names of comparisons and of connectives are apart, so a leaf never meets a composite
  | .leaf l, .composite function ys, _, _, next, next', r, r', hf, hg, hdoc, hvalues => by
    rw [compileFrom_leaf, Leaf.compile_eq_ok_iff] at hf
    obtain ⟨_, rfl⟩ := hf
    obtain ⟨_, rs', _, _, rfl⟩ := compileFrom_composite hg
    exact absurd hdoc (l.document_ne_op next function rs'.document)
  | .composite function xs, .leaf m, _, _, next, next', r, r', hf, hg, hdoc, hvalues => by
    obtain ⟨_, rs, _, _, rfl⟩ := compileFrom_composite hf
    rw [compileFrom_leaf, Leaf.compile_eq_ok_iff] at hg
    obtain ⟨_, rfl⟩ := hg
    exact absurd hdoc.symm (m.document_ne_op next' function rs.document)
  | .composite function xs, .composite function' ys, _, _, next, next', r, r', hf, hg, hdoc, hvalues => by
    obtain ⟨_, rs, hxs, _, rfl⟩ := compileFrom_composite hf
    obtain ⟨_, rs', hys, _, rfl⟩ := compileFrom_composite hg
    rw [not_droppable_strict] at hxs hys
    simp only [Operator.op, Operator.mk.injEq, true_and] at hdoc
    exact ⟨Combinator.functionName_injective hdoc.1, alikeAll_of_compileAll xs ys hxs hys hdoc.2 hvalues⟩

theorem alikeAll_of_compileAll : ∀ (xs ys : List Filter) {negated negated' : Bool} {next next' : Nat}
    {rs rs' : Compiled (List Arg)}, compileAll s .strict false negated next xs = .ok rs →
    compileAll t .strict false negated' next' ys = .ok rs' → rs.document = rs'.document →
    List.Forall₂ same rs.values rs'.values → AlikeAll same xs ys
  | [], [], _, _, next, next', rs, rs', hxs, hys, hdoc, hvalues => trivial
  | [], y :: ys, _, _, next, next', rs, rs', hxs, hys, hdoc, hvalues => by
    cases length_eq_of_documents hxs hys hdoc
  | x :: xs, [], _, _, next, next', rs, rs', hxs, hys, hdoc, hvalues => by
    cases length_eq_of_documents hxs hys hdoc
  | x :: xs, y :: ys, _, _, next, next', rs, rs', hxs, hys, hdoc, hvalues => by
    obtain ⟨r, rest, hx, hrest, rfl⟩ | ⟨_, _, _, hdrop, _⟩ := compileAll_cons hxs
    · obtain ⟨r', rest', hy, hrest', rfl⟩ | ⟨_, _, _, hdrop, _⟩ := compileAll_cons hys
      · simp only [List.cons.injEq] at hdoc
        have hhead := Arg.ofOperator_injective hdoc.1
        -- the first documents are equal, so the flat lists are cut after as many literals
        obtain ⟨hvalue, hvalues⟩ := forall₂_of_append (length_values_of_document hx hy hhead) hvalues
        exact ⟨alike_of_compileFrom x y hx hy hhead hvalue, alikeAll_of_compileAll xs ys hrest hrest' hdoc.2 hvalues⟩
      · cases hdrop
    · cases hdrop

end

end

/-- **Compiling loses nothing**: when two filters compile strictly, against any schemas, to documents with one text, equal
bindings make them equal; bindings that are only the same in some sense, as two zeros are, make them alike in that sense -/
theorem compile_lossless {s t : Option Schema} {f g : Filter} {c d : Compilation} (hf : f.compile s .strict = .ok c)
    (hg : g.compile t .strict = .ok d) (htext : c.document.render = d.document.render) :
    (c.bindings = d.bindings → f = g) ∧ ∀ same : Value → Value → Prop,
      List.Forall₂ same (c.bindings.map Prod.snd) (d.bindings.map Prod.snd) → Alike same f g := by
  have hdoc : c.document = d.document := by
    have hjson : (Arg.ofOperator c.document).toJson = (Arg.ofOperator d.document).toJson := Json.render_injective htext
    apply Arg.ofOperator_injective
    rw [← stable_document hf, hjson, stable_document hg]
  have halike : ∀ same : Value → Value → Prop,
      List.Forall₂ same (c.bindings.map Prod.snd) (d.bindings.map Prod.snd) → Alike same f g := by
    intro same hvalues
    obtain ⟨r, hr, rfl⟩ := compile_eq_ok_iff.1 hf
    obtain ⟨r', hr', rfl⟩ := compile_eq_ok_iff.1 hg
    rw [literalBindings_literals, literalBindings_literals] at hvalues
    exact alike_of_compileFrom f g hr hr' hdoc hvalues
  refine ⟨fun hbindings => (alike_eq_iff f g).1 (halike Eq ?_), halike⟩
  rw [hbindings, List.forall₂_eq_eq_eq]

/-- a tree with columns of every form; its bound may be either zero -/
def fromZero (zero : Binary64) : Filter :=
  .composite .and [.composite .not [.compare "s.v.a" .lt (.float zero)], .isDefined "v.b",
    .leaf ⟨"c", .oneOf, [.int 1, .string "x.y"]⟩]

/-- the document of such a tree -/
def fromZeroDocument : Operator :=
  .op "and" [.ofOperator (.op "not" [.ofOperator (.op "lt" [.ofOperator (.op "schema-col" [.text "s", .text "v", .text "a"]),
      .ofOperator (.param (placeholder 0))])]),
    .ofOperator (.op "is-defined" [.ofOperator (.op "view-col" [.text "v", .text "b"])]),
    .ofOperator (.op "in" [.ofOperator (.op "col" [.text "c"]), .ofOperator (.param (placeholder 1)),
      .ofOperator (.param (placeholder 2))])]

/-- the same tree, once with each zero -/
theorem compile_lossless_zeros :
    let zero : Binary64 := ⟨0⟩
    let negative : Binary64 := ⟨0x8000000000000000⟩
    let same (v w : Value) : Prop := v = w ∨ v = .float zero ∧ w = .float negative
    let compilation (x : Binary64) : Compilation :=
      ⟨fromZeroDocument, [(placeholder 0, .float x), (placeholder 1, .int 1), (placeholder 2, .string "x.y")], []⟩
    (fromZero zero).compile none .strict = .ok (compilation zero) ∧
      (fromZero negative).compile none .strict = .ok (compilation negative) ∧
      fromZero zero ≠ fromZero negative ∧ Alike same (fromZero zero) (fromZero negative) := by
  intro zero negative same compilation
  have hzero : (fromZero zero).compile none .strict = .ok (compilation zero) := by decide +kernel
  have hnegative : (fromZero negative).compile none .strict = .ok (compilation negative) := by decide +kernel
  refine ⟨hzero, hnegative, by decide +kernel, (compile_lossless hzero hnegative rfl).2 same ?_⟩
  exact .cons (Or.inr ⟨rfl, rfl⟩) (.cons (Or.inl rfl) (.cons (Or.inl rfl) .nil))

end Filter

end PartitionedScan
