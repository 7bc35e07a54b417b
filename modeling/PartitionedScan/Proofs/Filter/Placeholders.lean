/-
Placeholders and literals go together.

The comparisons of a document, read from left to right (`comparisons`), are the leaves that are left of its filter
(`kept`), each at the place it came from, and their placeholders are numbered through: a leaf begins where the one before
it ended (`Leaf.documents`). One equation says all of it, by the recursions of the compiler; where a part is left out the
numbers go on from what was bound before it. Main results:
- `mem_comparisons`: the comparisons are the parts of a document that are no connectives;
- `comparisons_of_compileFrom`: they are the leaves that are left, with the literals of these leaves in order;
- `placeholders_attached`: names, literals and leaves correspond one to one, also on a ledger that is rolled back.
-/
import PartitionedScan.Proofs.Filter.Application
import PartitionedScan.Proofs.Filter.Pruning

namespace PartitionedScan

/-! ## Comparisons of a document -/

namespace Arg

mutual

/-- the parts of an expression that are no connectives, from left to right, each with its place -/
def comparisons : Arg → List (Place × Arg)
  | .node ns name args =>
    match if ns = "op" then Combinator.ofName? name else none with
    | some _ => comparisonsAll 0 args
    | none => [([], .node ns name args)]
  | .list items => [([], .list items)]
  | .scalar value => [([], .scalar value)]

/-- the same for arguments that are numbered from `k` on -/
def comparisonsAll (k : Nat) : List Arg → List (Place × Arg)
  | [] => []
  | x :: xs => (comparisons x).map (Prod.map (List.cons k) id) ++ comparisonsAll (k + 1) xs

end

theorem comparisons_atom {a : Arg} (h : a.connective? = none) : a.comparisons = [([], a)] := by
  cases a with
  | node ns name args =>
    simp only [connective?] at h
    rw [comparisons]
    split_ifs at h ⊢
    · rw [Option.map_eq_none_iff] at h
      rw [h]
    · rfl
  | list items => rw [comparisons]
  | scalar value => rw [comparisons]

theorem comparisons_connective {a : Arg} {function : Combinator} {args : List Arg}
    (h : a.connective? = some (function, args)) : a.comparisons = comparisonsAll 0 args := by
  cases a with
  | node ns name args' =>
    simp only [connective?] at h
    rw [comparisons]
    split_ifs at h ⊢
    obtain ⟨function', hname, heq⟩ := Option.map_eq_some_iff.1 h
    rw [hname]
    cases heq
    rfl
  | list items => cases h
  | scalar value => cases h

/-- an expression that is no connective is its only comparison -/
theorem mem_comparisons_atom {a b : Arg} {p : Place} (h : a.connective? = none) :
    (p, b) ∈ a.comparisons ↔ a.at? p = some b ∧ b.connective? = none := by
  rw [comparisons_atom h, List.mem_singleton, Prod.mk.injEq]
  cases p with
  | nil =>
    rw [at?, Option.some.injEq]
    constructor
    · rintro ⟨_, rfl⟩
      exact ⟨rfl, h⟩
    · rintro ⟨rfl, _⟩
      exact ⟨rfl, rfl⟩
  | cons i p => simp [at?, h]

mutual

/-- **The comparisons** of an expression are its parts that are no connectives -/
theorem mem_comparisons : ∀ (a : Arg) {p : Place} {b : Arg},
    (p, b) ∈ a.comparisons ↔ a.at? p = some b ∧ b.connective? = none
  | .node ns name args, p, b => by
    cases hc : (Arg.node ns name args).connective? with
    | none => exact mem_comparisons_atom hc
    | some c =>
      obtain ⟨function, args'⟩ := c
      have hargs : args' = args := by
        simp only [connective?] at hc
        split_ifs at hc
        obtain ⟨_, _, heq⟩ := Option.map_eq_some_iff.1 hc
        exact (Prod.mk.inj heq).2.symm
      subst hargs
      rw [comparisons_connective hc, mem_comparisonsAll]
      cases p with
      | nil =>
        simp only [List.nil_eq, reduceCtorEq, false_and, exists_false, at?, Option.some.injEq, false_iff]
        rintro ⟨rfl, hb⟩
        rw [hc] at hb
        cases hb
      | cons i p =>
        simp only [Nat.zero_add, List.cons.injEq, at?, hc, Option.bind_some, Option.bind_eq_some_iff]
        constructor
        · rintro ⟨_, _, x, ⟨rfl, rfl⟩, hx, hp, hb⟩
          exact ⟨⟨x, hx, hp⟩, hb⟩
        · rintro ⟨⟨x, hx, hp⟩, hb⟩
          exact ⟨i, p, x, ⟨rfl, rfl⟩, hx, hp, hb⟩
  | .list items, p, b => mem_comparisons_atom rfl
  | .scalar value, p, b => mem_comparisons_atom rfl

theorem mem_comparisonsAll : ∀ (xs : List Arg) {k : Nat} {q : Place} {b : Arg}, (q, b) ∈ comparisonsAll k xs ↔
    ∃ i p x, q = (k + i) :: p ∧ xs[i]? = some x ∧ x.at? p = some b ∧ b.connective? = none
  | [], k, q, b => by simp [comparisonsAll]
  | x :: xs, k, q, b => by
    rw [comparisonsAll, List.mem_append, mem_comparisonsAll xs, List.mem_map]
    constructor
    · rintro (⟨⟨p, b'⟩, hmem, heq⟩ | ⟨i, p, y, rfl, hy, hp, hb⟩)
      · cases heq
        obtain ⟨hp, hb⟩ := (mem_comparisons x).1 hmem
        exact ⟨0, p, x, rfl, rfl, hp, hb⟩
      · exact ⟨i + 1, p, y, by rw [show k + 1 + i = k + (i + 1) by omega], hy, hp, hb⟩
    · rintro ⟨i, p, y, rfl, hy, hp, hb⟩
      cases i with
      | zero =>
        cases hy
        exact Or.inl ⟨(p, b), (mem_comparisons x).2 ⟨hp, hb⟩, rfl⟩
      | succ i => exact Or.inr ⟨i, p, y, by rw [show k + 1 + i = k + (i + 1) by omega], hy, hp, hb⟩

end

end Arg

/-! ## Leaves with their documents -/

namespace Leaf

/-- the documents of leaves, at the same places; placeholders are numbered through from `next` on -/
def documents (next : Nat) : List (Place × Leaf) → List (Place × Arg)
  | [] => []
  | (p, l) :: rest => (p, .ofOperator (l.document next)) :: documents (next + l.values.length) rest

/-- the literals of leaves, in order -/
def literals (leaves : List (Place × Leaf)) : List Value :=
  leaves.flatMap fun x => x.2.values

theorem literals_map (f : Place → Place) (leaves : List (Place × Leaf)) :
    literals (leaves.map (Prod.map f id)) = literals leaves := by
  rw [literals, List.flatMap_map]
  rfl

theorem literals_append (leaves more : List (Place × Leaf)) :
    literals (leaves ++ more) = literals leaves ++ literals more :=
  List.flatMap_append

theorem documents_map (f : Place → Place) (next : Nat) (leaves : List (Place × Leaf)) :
    documents next (leaves.map (Prod.map f id)) = (documents next leaves).map (Prod.map f id) := by
  induction leaves generalizing next with
  | nil => rfl
  | cons x leaves ih =>
    obtain ⟨p, l⟩ := x
    rw [List.map_cons, Prod.map_apply, documents, documents, List.map_cons]
    exact congrArg _ (ih _)

theorem documents_append (next : Nat) (leaves more : List (Place × Leaf)) :
    documents next (leaves ++ more) =
      documents next leaves ++ documents (next + (literals leaves).length) more := by
  induction leaves generalizing next with
  | nil => rfl
  | cons x leaves ih =>
    rw [List.cons_append, documents, documents, ih, List.cons_append, literals, literals, List.flatMap_cons,
      List.length_append, Nat.add_assoc]

end Leaf

/-! ## What is left of a filter -/

namespace Filter

mutual

/-- the leaves that are left of a filter, from left to right, each with its place -/
def kept (schema : Option Schema) (policy : FallbackPolicy) (negated : Bool) : Filter → List (Place × Leaf)
  | .leaf l => [([], l)]
  | .composite function children => keptAll schema policy (negated ^^ (function == .not)) 0 children

/-- the same for children that are numbered from `k` on -/
def keptAll (schema : Option Schema) (policy : FallbackPolicy) (negated : Bool) (k : Nat) :
    List Filter → List (Place × Leaf)
  | [] => []
  | x :: xs =>
    (if compiles schema policy negated x then (kept schema policy negated x).map (Prod.map (List.cons k) id) else []) ++
      keptAll schema policy negated (k + 1) xs

end

variable {schema : Option Schema} {policy : FallbackPolicy}

mutual

theorem at?_of_mem_kept : ∀ (f : Filter) {negated : Bool} {p : Place} {l : Leaf},
    (p, l) ∈ f.kept schema policy negated → f.at? p = some (.leaf l)
  | .leaf l, negated, p, l', h => by
    rw [kept, List.mem_singleton] at h
    cases h
    rfl
  | .composite function children, negated, q, l, h => by
    obtain ⟨i, p, x, rfl, hx, hp⟩ := at?_of_mem_keptAll children h
    rw [Nat.zero_add, at?, child?, hx, Option.bind_some]
    exact hp

theorem at?_of_mem_keptAll : ∀ (xs : List Filter) {negated : Bool} {k : Nat} {q : Place} {l : Leaf},
    (q, l) ∈ keptAll schema policy negated k xs →
    ∃ i p x, q = (k + i) :: p ∧ xs[i]? = some x ∧ x.at? p = some (.leaf l)
  | [], negated, k, q, l, h => by cases h
  | x :: xs, negated, k, q, l, h => by
    rw [keptAll, List.mem_append] at h
    rcases h with h | h
    · split_ifs at h
      · obtain ⟨⟨p, l'⟩, hmem, heq⟩ := List.mem_map.1 h
        cases heq
        exact ⟨0, p, x, rfl, rfl, at?_of_mem_kept x hmem⟩
      · cases h
    · obtain ⟨i, p, y, rfl, hy, hp⟩ := at?_of_mem_keptAll xs h
      exact ⟨i + 1, p, y, by rw [show k + 1 + i = k + (i + 1) by omega], hy, hp⟩

end

mutual

theorem kept_before : ∀ (f : Filter) (negated : Bool),
    ((f.kept schema policy negated).map Prod.fst).Pairwise Place.Before
  | .leaf l, negated => by
    rw [kept]
    exact List.pairwise_singleton _ _
  | .composite function children, negated => keptAll_before children (negated ^^ (function == .not)) 0

theorem keptAll_before : ∀ (xs : List Filter) (negated : Bool) (k : Nat),
    ((keptAll schema policy negated k xs).map Prod.fst).Pairwise Place.Before
  | [], negated, k => .nil
  | x :: xs, negated, k => by
    rw [keptAll, List.map_append, List.pairwise_append]
    have hlater {q : Place} (hq : q ∈ (keptAll schema policy negated (k + 1) xs).map Prod.fst) :
        ∃ i p, k < i ∧ q = i :: p := by
      obtain ⟨⟨q, l⟩, hmem, rfl⟩ := List.mem_map.1 hq
      obtain ⟨i, p, _, rfl, _⟩ := at?_of_mem_keptAll xs hmem
      exact ⟨k + 1 + i, p, by omega, rfl⟩
    refine ⟨?_, keptAll_before xs negated (k + 1), ?_⟩
    · split_ifs
      · rw [List.map_map]
        have hfst : Prod.fst ∘ Prod.map (List.cons k) (id : Leaf → Leaf) = List.cons k ∘ Prod.fst := rfl
        rw [hfst, ← List.map_map]
        exact List.pairwise_map.2 ((kept_before x negated).imp fun h => h.cons k)
      · exact .nil
    · intro p hp q hq
      obtain ⟨i, below, hlt, rfl⟩ := hlater hq
      split_ifs at hp
      · simp only [List.map_map, List.mem_map] at hp
        obtain ⟨⟨p, l⟩, _, rfl⟩ := hp
        exact Place.before_of_lt hlt p below
      · cases hp

end

mutual

/-- **The comparisons of a document are the leaves that are left of its filter**, each from its place, and the literals
are theirs -/
theorem comparisons_of_compileFrom : ∀ (f : Filter) {negated : Bool} {next : Nat} {r : Compiled Operator},
    compileFrom schema policy negated next f = .ok r →
    (Arg.ofOperator r.document).comparisons.map (Prod.map (f.origin schema policy negated) id) =
        Leaf.documents next (f.kept schema policy negated) ∧
      r.values = Leaf.literals (f.kept schema policy negated)
  | .leaf l, negated, next, r, h => by
    rw [compileFrom_leaf, Leaf.compile_eq_ok_iff] at h
    obtain ⟨_, rfl⟩ := h
    rw [Arg.comparisons_atom (l.document_atom next), kept]
    constructor
    · rw [List.map_singleton, Prod.map_apply, origin_nil]
      rfl
    · exact (List.flatMap_singleton _ _).symm
  | .composite function children, negated, next, r, h => by
    obtain ⟨_, rs, hrs, _, rfl⟩ := compileFrom_composite h
    rw [Arg.comparisons_connective (Arg.connective?_op function rs.document), kept]
    refine comparisons_of_compileAll children hrs fun i x m hx p => ?_
    simp only [Nat.zero_add, origin, hx]

/-- the same for children; `w` takes a place in their documents to where it came from -/
theorem comparisons_of_compileAll : ∀ (xs : List Filter) {drop negated : Bool} {next k j : Nat} {rs : Compiled (List Arg)}
    {w : Place → Place}, compileAll schema policy drop negated next xs = .ok rs →
    (∀ i x m, (survivors schema policy negated k xs)[i]? = some (x, m) →
      ∀ p, w ((j + i) :: p) = m :: origin schema policy negated x p) →
    (Arg.comparisonsAll j rs.document).map (Prod.map w id) =
        Leaf.documents next (keptAll schema policy negated k xs) ∧
      rs.values = Leaf.literals (keptAll schema policy negated k xs)
  | [], drop, negated, next, k, j, rs, w, h, hw => by
    rw [compileAll_nil] at h
    cases h
    exact ⟨rfl, rfl⟩
  | x :: xs, drop, negated, next, k, j, rs, w, h, hw => by
    rcases compileAll_cons h with ⟨r, rest, hx, hrest, rfl⟩ | ⟨e, rest, hx, _, hrest, rfl⟩
    · rw [survivors_cons_ok (compiles_of_ok hx)] at hw
      obtain ⟨hdocument, hvalues⟩ := comparisons_of_compileFrom x hx
      obtain ⟨hdocuments, hvalues'⟩ := comparisons_of_compileAll xs (k := k + 1) (j := j + 1) (w := w) hrest
        fun i y m hy p => by rw [← hw (i + 1) y m hy p, show j + 1 + i = j + (i + 1) by omega]
      have hhead : Prod.map w id ∘ Prod.map (List.cons j) (id : Arg → Arg) =
          Prod.map (List.cons k) id ∘ Prod.map (x.origin schema policy negated) id :=
        funext fun y => Prod.ext (hw 0 x k rfl y.1) rfl
      rw [keptAll, if_pos (compiles_of_ok hx), Leaf.documents_append, Leaf.documents_map, Leaf.literals_append,
        Leaf.literals_map, ← hdocument, ← hvalues, ← hdocuments, ← hvalues', Arg.comparisonsAll, List.map_append,
        List.map_map, List.map_map, hhead]
      exact ⟨rfl, rfl⟩
    · -- what is left out binds nothing, so the numbers go on where they were
      rw [survivors_cons_error (compiles_of_error hx)] at hw
      rw [keptAll, if_neg (by rw [compiles_of_error hx]; decide), List.nil_append]
      have htail := comparisons_of_compileAll xs hrest hw
      exact htail

end

/-- the literals of a compilation belong to these leaves of its filter, and its comparisons are these leaves -/
structure Attaches (schema : Option Schema) (policy : FallbackPolicy) (f : Filter) (c : Compilation)
    (leaves : List (Place × Leaf)) : Prop where
  /-- every leaf stands in the filter -/
  stands : ∀ x ∈ leaves, f.at? x.1 = some (.leaf x.2)
  /-- from left to right, and none twice -/
  ordered : (leaves.map Prod.fst).Pairwise Place.Before
  /-- each comparison is the document of the leaf it came from, and begins with the placeholder after the last one's -/
  documents : (Arg.ofOperator c.document).comparisons.map (Prod.map (f.origin schema policy false) id) =
    Leaf.documents 0 leaves
  /-- the literals bound are those of the leaves, in order -/
  literals : c.bindings.map Prod.snd = Leaf.literals leaves

/-- **Placeholders and literals correspond one to one**, also when compiling is done on one ledger that is rolled back after
failures. The document names as many placeholders as literals are bound, each once and in order, and the bindings have the
same names; the literals are, in order, those of the leaves that are left in the document, each read by the comparison that
its leaf became. -/
theorem placeholders_attached (schema : Option Schema) (policy : FallbackPolicy) (f : Filter) (c : Compilation)
    (h : f.compile schema policy = .ok c) :
    f.compileInPlace schema policy = .ok c ∧
    c.document.paramNames = (List.range c.bindings.length).map placeholder ∧ c.document.paramNames.Nodup ∧
    c.bindings.map Prod.fst = (List.range c.bindings.length).map placeholder ∧
    ∃ leaves, f.Attaches schema policy c leaves := by
  have hnames := paramNames_document h
  obtain ⟨r, hr, rfl⟩ := compile_eq_ok_iff.1 h
  obtain ⟨hdocuments, hvalues⟩ := comparisons_of_compileFrom f hr
  have hbound : (literalBindings r.values).map Prod.fst =
      (List.range (literalBindings r.values).length).map placeholder := by
    rw [literalBindings_names, List.range_eq_range', ← List.length_map Prod.snd, literalBindings_literals]
  refine ⟨(compileInPlace_eq schema policy f).trans h, hnames.trans hbound, ?_, hbound, f.kept schema policy false, ?_⟩
  · rw [hnames]
    exact literalBindings_nodup r.values
  · refine ⟨fun x hx => at?_of_mem_kept f hx, kept_before f false, hdocuments, ?_⟩
    rw [literalBindings_literals, hvalues]

/-- a conjunction that binds a literal of its second part before that part fails, and goes on binding after it -/
def boundThenLeft : Filter :=
  .composite .and [.leaf ⟨"id", .oneOf, [.int 1, .int 2]⟩,
    .composite .or [.compare "zip" .gt (.int 3), .compare "zip" .lt .null], .compare "name" .eq (.string "x")]

/-- what is left of it -/
def boundThenLeftDocument : Operator :=
  .op "and" [.ofOperator (Leaf.document 0 ⟨"id", .oneOf, [.int 1, .int 2]⟩),
    .ofOperator (Leaf.document 2 ⟨"name", .eq, [.string "x"]⟩)]

theorem placeholders_attached_after_failure :
    let c : Compilation := ⟨boundThenLeftDocument, [("shardscan_param_0", .int 1), ("shardscan_param_1", .int 2),
      ("shardscan_param_2", .string "x")], [.nullLiteral "lt" "zip"]⟩
    boundThenLeft.compile none .dropUnsupported = .ok c ∧
    c.document.paramNames = ["shardscan_param_0", "shardscan_param_1", "shardscan_param_2"] ∧
    ∃ leaves, boundThenLeft.Attaches none .dropUnsupported c leaves :=
  have h := placeholders_attached none .dropUnsupported boundThenLeft _ (by decide)
  ⟨by decide, h.2.1, h.2.2.2.2⟩

end Filter

end PartitionedScan
