/-
Which filters compile strictly, and what is wrong with the others.

What a leaf must be is said without the checks of the compiler (`Leaf.Valid`), and so is every way in which it can fail
(`Leaf.Fault`): one constructor for each condition, in the order in which they are looked at, holding that the conditions
before it are met; literals are looked at one by one. A composite must have the right number of children. The nodes of a
filter are listed in pre-order (`nodes`), and compiling strictly is one pass over that list: the first node with something
wrong decides the error, and otherwise the document is the filter with its literals moved out (`mirror`). Main results:
- `Leaf.refusal?_exact`: what is refused about a leaf is its first fault;
- `compileFrom_strict`: strict compilation as an equation, by the recursion of the compiler;
- `compile_strict_exact`: the same for whole filters, in the words of `ValidNode` and `NodeFault`.
-/
import PartitionedScan.Proofs.Filter.Documents
import PartitionedScan.Proofs.Filter.WireForm

namespace PartitionedScan

/-! ## Literals -/

namespace Comparator

/-- the number of literals that a comparison takes -/
def Takes : Comparator → Nat → Prop
  | isDefined, n => n = 0
  | oneOf, n => 1 ≤ n
  | _, n => n = 1

theorem arity_allows_iff {c : Comparator} {n : Nat} : c.arity.allows n = true ↔ c.Takes n := by
  cases c <;> simp [arity, Arity.allows, Takes]

/-- a literal that a comparison can take on some column -/
structure Suits (c : Comparator) (v : Value) : Prop where
  /-- neither null nor a float that is not finite -/
  admitted : v.Admitted
  text : c.isTextMatch = true → ∃ s, v = .string s
  range : c.isRange = true → (∀ b, v ≠ .bool b) ∧ ∀ data, v ≠ .bytes data

/-- what is wrong with a literal, whatever the column -/
inductive Refuses (c : Comparator) (attr : String) : Value → CompileError → Prop where
  | null : Refuses c attr .null (.nullLiteral c.functionName attr)
  | infinite {x : Binary64} (infinite : x.isFinite = false) :
      Refuses c attr (.float x) (.nonFiniteFloat c.functionName attr)
  | text {v : Value} (admitted : v.Admitted) (textMatch : c.isTextMatch = true) (other : ∀ s, v ≠ .string s) :
      Refuses c attr v (.typeMismatch c.functionName attr v.typeName)
  | bool {b : Bool} (range : c.isRange = true) :
      Refuses c attr (.bool b) (.typeMismatch c.functionName attr (Value.bool b).typeName)
  | bytes {data : List UInt8} (range : c.isRange = true) :
      Refuses c attr (.bytes data) (.typeMismatch c.functionName attr (Value.bytes data).typeName)

theorem refusal?_of_suits {c : Comparator} {attr : String} {v : Value} (h : c.Suits v) : c.refusal? attr v = none := by
  obtain ⟨hadmitted, htext, hrange⟩ := h
  have hmatch : (∀ s, v ≠ .string s) → c.isTextMatch = false := fun hother =>
    Bool.eq_false_iff.2 fun ht => (htext ht).elim hother
  cases v with
  | null => exact absurd hadmitted id
  | string s => rfl
  | bool b =>
    have hr : c.isRange = false := Bool.eq_false_iff.2 fun hr => (hrange hr).1 b rfl
    simp [refusal?, hmatch, hr]
  | bytes data =>
    have hr : c.isRange = false := Bool.eq_false_iff.2 fun hr => (hrange hr).2 data rfl
    simp [refusal?, hmatch, hr]
  | float x =>
    have hfinite : x.isFinite = true := hadmitted
    simp [refusal?, hmatch, hfinite]
  | _ => simp [refusal?, hmatch]

theorem refusal?_of_refuses {c : Comparator} {attr : String} {v : Value} {e : CompileError} (h : c.Refuses attr v e) :
    c.refusal? attr v = some e := by
  cases h with
  | null => rfl
  | infinite hx => simp [refusal?, hx]
  | bool hr => simp [refusal?, hr]
  | bytes hr => simp [refusal?, hr]
  | text hadmitted ht hother =>
    cases v with
    | null => exact absurd hadmitted id
    | string s => exact absurd rfl (hother s)
    | float x =>
      have hfinite : x.isFinite = true := hadmitted
      simp [refusal?, ht, hfinite]
    | _ => simp [refusal?, ht]

/-- with every literal something is wrong or nothing is -/
theorem suits_or_refuses (c : Comparator) (attr : String) (v : Value) : c.Suits v ∨ ∃ e, c.Refuses attr v e := by
  by_cases hadmitted : v.Admitted
  · by_cases htext : c.isTextMatch = true → ∃ s, v = .string s
    · by_cases hrange : c.isRange = true → (∀ b, v ≠ .bool b) ∧ ∀ data, v ≠ .bytes data
      · exact Or.inl ⟨hadmitted, htext, hrange⟩
      · obtain ⟨hr, hv⟩ := Classical.not_imp.1 hrange
        cases v with
        | bool b => exact Or.inr ⟨_, .bool hr⟩
        | bytes data => exact Or.inr ⟨_, .bytes hr⟩
        | _ => simp at hv
    · obtain ⟨ht, hother⟩ := Classical.not_imp.1 htext
      exact Or.inr ⟨_, .text hadmitted ht (not_exists.1 hother)⟩
  · cases v with
    | null => exact Or.inr ⟨_, .null⟩
    | float x => exact Or.inr ⟨_, .infinite (Bool.eq_false_iff.2 hadmitted)⟩
    | _ => exact absurd trivial hadmitted

/-- a column has the type of a literal, and an order where one is asked for -/
def Fits (c : Comparator) (f : Field) (v : Value) : Prop :=
  f.type.accepts v = true ∧ (c.isRange = true → f.type.isOrderable = true)

end Comparator

/-! ## Leaves -/

namespace Leaf

/-- the column has a name that is not blank -/
def Named (l : Leaf) : Prop :=
  ∃ char ∈ l.attr.toList, Text.isBlank char = false

/-- a leaf that compiles strictly -/
structure Valid (schema : Option Schema) (l : Leaf) : Prop where
  named : l.Named
  counted : l.comparator.Takes l.values.length
  suited : ∀ v ∈ l.values, l.comparator.Suits v
  typed : ∀ s, schema = some s → ∃ f, s.field? l.attr = some f ∧ (∀ v ∈ l.values, f.type.accepts v = true) ∧
    (l.comparator.isRange = true → f.type.isOrderable = true)

/-- the first thing that is wrong with a leaf -/
inductive Fault (schema : Option Schema) (l : Leaf) : CompileError → Prop where
  | unnamed (blank : ¬ l.Named) : Fault schema l (.emptyAttribute l.comparator.functionName)
  | miscounted (named : l.Named) (count : ¬ l.comparator.Takes l.values.length) :
      Fault schema l (.valueArity l.comparator.functionName l.attr l.comparator.arity l.values.length)
  | unsuited (named : l.Named) (counted : l.comparator.Takes l.values.length)
      {before after : List Value} {v : Value} {e : CompileError} (split : l.values = before ++ v :: after)
      (earlier : ∀ w ∈ before, l.comparator.Suits w) (refused : l.comparator.Refuses l.attr v e) : Fault schema l e
  | unknown (named : l.Named) (counted : l.comparator.Takes l.values.length)
      (suited : ∀ v ∈ l.values, l.comparator.Suits v) {s : Schema} (given : schema = some s)
      (missing : s.field? l.attr = none) : Fault schema l (.unknownAttribute l.attr)
  | untyped (named : l.Named) (counted : l.comparator.Takes l.values.length)
      (suited : ∀ v ∈ l.values, l.comparator.Suits v) {s : Schema} {f : Field} (given : schema = some s)
      (found : s.field? l.attr = some f) {before after : List Value} {v : Value}
      (split : l.values = before ++ v :: after) (earlier : ∀ w ∈ before, l.comparator.Fits f w)
      (misfit : ¬ l.comparator.Fits f v) :
      Fault schema l (.typeMismatch l.comparator.functionName l.attr v.typeName)

variable {schema : Option Schema} {l : Leaf}

theorem isBlankText_eq_false_iff : Text.isBlankText l.attr = false ↔ l.Named := by
  simp [Text.isBlankText, Named, List.all_eq_false]

/-- a leaf with a name and the right number of literals is refused for its literals, and then by the schema -/
theorem refusal?_of_counted (hnamed : l.Named) (hcounted : l.comparator.Takes l.values.length) : l.refusal? schema =
    (l.values.findSome? (l.comparator.refusal? l.attr)).or (schema.bind fun s => l.schemaRefusal? s) := by
  simp [refusal?, isBlankText_eq_false_iff.2 hnamed, Comparator.arity_allows_iff.2 hcounted]

theorem findSome?_refusal?_of_suits {vs : List Value} (h : ∀ v ∈ vs, l.comparator.Suits v) :
    vs.findSome? (l.comparator.refusal? l.attr) = none :=
  List.findSome?_eq_none_iff.2 fun v hv => Comparator.refusal?_of_suits (h v hv)

/-- one literal of a column passes the schema just when it fits -/
theorem fits_iff {f : Field} {v : Value} : ((!l.comparator.isRange || f.type.isOrderable) && f.type.accepts v) = true ↔
    l.comparator.Fits f v := by
  cases h : l.comparator.isRange <;> simp [Comparator.Fits, h, and_comm]

theorem schemaRefusal?_of_fits {s : Schema} {f : Field} (hf : s.field? l.attr = some f)
    (h : ∀ v ∈ l.values, l.comparator.Fits f v) : l.schemaRefusal? s = none := by
  rw [schemaRefusal?, hf]
  simp only [Option.map_eq_none_iff, List.find?_eq_none]
  intro v hv
  simp [fits_iff.2 (h v hv)]

theorem schemaRefusal?_of_misfit {s : Schema} {f : Field} (hf : s.field? l.attr = some f) {before after : List Value}
    {v : Value} (hsplit : l.values = before ++ v :: after) (hbefore : ∀ w ∈ before, l.comparator.Fits f w)
    (hv : ¬ l.comparator.Fits f v) :
    l.schemaRefusal? s = some (.typeMismatch l.comparator.functionName l.attr v.typeName) := by
  rw [schemaRefusal?, hf]
  simp only [Option.map_eq_some_iff]
  refine ⟨v, List.find?_eq_some_iff_append.2 ⟨?_, before, after, hsplit, fun w hw => ?_⟩, rfl⟩
  · rw [Bool.not_eq_true', Bool.eq_false_iff, ne_eq, fits_iff]
    exact hv
  · rw [Bool.not_not]
    exact fits_iff.2 (hbefore w hw)

theorem refusal?_of_valid (h : l.Valid schema) : l.refusal? schema = none := by
  rw [refusal?_of_counted h.named h.counted, findSome?_refusal?_of_suits h.suited, Option.none_or]
  cases schema with
  | none => rfl
  | some s =>
    obtain ⟨f, hf, haccepts, horder⟩ := h.typed s rfl
    exact schemaRefusal?_of_fits hf fun v hv => ⟨haccepts v hv, horder⟩

theorem refusal?_of_fault {e : CompileError} (h : l.Fault schema e) : l.refusal? schema = some e := by
  cases h with
  | unnamed hblank =>
    have hattr : Text.isBlankText l.attr = true :=
      eq_true_of_ne_false fun h => hblank (isBlankText_eq_false_iff.1 h)
    simp [refusal?, hattr]
  | miscounted hnamed hcount =>
    have hallows : l.comparator.arity.allows l.values.length = false :=
      Bool.eq_false_iff.2 fun h => hcount (Comparator.arity_allows_iff.1 h)
    simp [refusal?, isBlankText_eq_false_iff.2 hnamed, hallows]
  | unsuited hnamed hcounted hsplit hbefore hrefused =>
    rw [refusal?_of_counted hnamed hcounted, hsplit, List.findSome?_append, findSome?_refusal?_of_suits hbefore,
      Option.none_or, List.findSome?_cons, Comparator.refusal?_of_refuses hrefused]
    rfl
  | unknown hnamed hcounted hsuited hgiven hmissing =>
    rw [refusal?_of_counted hnamed hcounted, findSome?_refusal?_of_suits hsuited, hgiven, Option.none_or,
      Option.bind_some, schemaRefusal?, hmissing]
  | untyped hnamed hcounted hsuited hgiven hfound hsplit hbefore hmisfit =>
    rw [refusal?_of_counted hnamed hcounted, findSome?_refusal?_of_suits hsuited, hgiven, Option.none_or,
      Option.bind_some, schemaRefusal?_of_misfit hfound hsplit hbefore hmisfit]

/-- the order of one column is the same for all literals; without literals nobody asks for it -/
theorem typed_of_fits {f : Field} (hcounted : l.comparator.Takes l.values.length)
    (h : ∀ v ∈ l.values, l.comparator.Fits f v) :
    (∀ v ∈ l.values, f.type.accepts v = true) ∧ (l.comparator.isRange = true → f.type.isOrderable = true) := by
  refine ⟨fun v hv => (h v hv).1, fun hr => ?_⟩
  have hone : l.values.length = 1 := by
    cases hc : l.comparator <;> rw [hc] at hr hcounted <;> first | exact hcounted | cases hr
  obtain ⟨v, hvalues⟩ := List.length_eq_one_iff.1 hone
  exact (h v (by simp [hvalues])).2 hr

/-- where nothing is wrong with a leaf alone, its column is the first thing that can be wrong -/
theorem valid_or_fault_of_suited (schema : Option Schema) (hnamed : l.Named)
    (hcounted : l.comparator.Takes l.values.length) (hsuited : ∀ v ∈ l.values, l.comparator.Suits v) :
    l.Valid schema ∨ ∃ e, l.Fault schema e := by
  cases schema with
  | none => exact Or.inl ⟨hnamed, hcounted, hsuited, fun _ h => by cases h⟩
  | some s =>
    cases hf : s.field? l.attr with
    | none => exact Or.inr ⟨_, .unknown hnamed hcounted hsuited rfl hf⟩
    | some f =>
      rcases forall_or_first (l.comparator.Fits f) l.values with hfits | ⟨before, v, after, hsplit, hbefore, hv⟩
      · refine Or.inl ⟨hnamed, hcounted, hsuited, fun s' hs => ?_⟩
        cases hs
        exact ⟨f, hf, typed_of_fits hcounted hfits⟩
      · exact Or.inr ⟨_, .untyped hnamed hcounted hsuited rfl hf hsplit hbefore hv⟩

/-- a leaf is valid or has a first fault -/
theorem valid_or_fault (schema : Option Schema) (l : Leaf) : l.Valid schema ∨ ∃ e, l.Fault schema e := by
  by_cases hnamed : l.Named
  · by_cases hcounted : l.comparator.Takes l.values.length
    · rcases forall_or_first l.comparator.Suits l.values with hsuited | ⟨before, v, after, hsplit, hbefore, hv⟩
      · exact valid_or_fault_of_suited schema hnamed hcounted hsuited
      · rcases l.comparator.suits_or_refuses l.attr v with hsuits | ⟨e, he⟩
        · exact absurd hsuits hv
        · exact Or.inr ⟨e, .unsuited hnamed hcounted hsplit hbefore he⟩
    · exact Or.inr ⟨_, .miscounted hnamed hcounted⟩
  · exact Or.inr ⟨_, .unnamed hnamed⟩

/-- **One leaf.** What is refused about a leaf is its first fault, and nothing just when it is valid. -/
theorem refusal?_exact (schema : Option Schema) (l : Leaf) :
    (l.refusal? schema = none ↔ l.Valid schema) ∧ ∀ e, l.refusal? schema = some e ↔ l.Fault schema e :=
  refusal_exact refusal?_of_valid (fun _ => refusal?_of_fault) (valid_or_fault schema l)

end Leaf

/-! ## Nodes -/

/-- the number of children that a composite takes -/
def Combinator.Takes : Combinator → Nat → Prop
  | not, n => n = 1
  | _, n => 1 ≤ n

theorem Combinator.arity_allows_iff {c : Combinator} {n : Nat} : c.arity.allows n = true ↔ c.Takes n := by
  cases c <;> simp [arity, Arity.allows, Takes]

namespace Filter

mutual

/-- the nodes of a filter in pre-order, each as the filter below it -/
def nodes : Filter → List Filter
  | .leaf l => [.leaf l]
  | .composite function children => .composite function children :: nodesAll children

def nodesAll : List Filter → List Filter
  | [] => []
  | x :: xs => nodes x ++ nodesAll xs

end

/-- a node is as it must be, whatever is below it -/
def ValidNode (schema : Option Schema) : Filter → Prop
  | .leaf l => l.Valid schema
  | .composite function children => function.Takes children.length

/-- what is wrong with a node itself -/
inductive NodeFault (schema : Option Schema) : Filter → CompileError → Prop where
  | leaf {l : Leaf} {e : CompileError} (fault : l.Fault schema e) : NodeFault schema (.leaf l) e
  | composite {function : Combinator} {children : List Filter} (count : ¬ function.Takes children.length) :
      NodeFault schema (.composite function children)
        (.childArity function.functionName function.arity children.length)

/-- the same as a check -/
def nodeRefusal? (schema : Option Schema) : Filter → Option CompileError
  | .leaf l => l.refusal? schema
  | .composite function children =>
    if function.arity.allows children.length then none
    else some (.childArity function.functionName function.arity children.length)

theorem nodeRefusal?_exact (schema : Option Schema) (g : Filter) :
    (g.nodeRefusal? schema = none ↔ g.ValidNode schema) ∧
      ∀ e, g.nodeRefusal? schema = some e ↔ g.NodeFault schema e := by
  cases g with
  | leaf l =>
    obtain ⟨hnone, hsome⟩ := l.refusal?_exact schema
    exact ⟨hnone, fun e => (hsome e).trans ⟨.leaf, fun | .leaf hfault => hfault⟩⟩
  | composite function children =>
    refine refusal_exact ?_ ?_ ?_
    · exact fun h => if_pos (Combinator.arity_allows_iff.2 h)
    · rintro e (_ | hcount)
      exact if_neg fun h => hcount (Combinator.arity_allows_iff.1 h)
    · by_cases hcount : function.Takes children.length
      · exact Or.inl hcount
      · exact Or.inr ⟨_, .composite hcount⟩

/-! ## Strict compilation -/

mutual

/-- the document of a whole filter: node for node, with placeholders numbered from `next` on for the literals -/
def mirror (next : Nat) : Filter → Operator
  | .leaf l => l.document next
  | .composite function children => .op function.functionName (mirrorAll next children)

def mirrorAll (next : Nat) : List Filter → List Arg
  | [] => []
  | x :: xs => .ofOperator (mirror next x) :: mirrorAll (next + x.literals.length) xs

end

variable {schema : Option Schema}

/-- an error if something is refused, and the result otherwise -/
def okUnless {α : Type} (refused : Option CompileError) (result : α) : Except CompileError α :=
  match refused with
  | some e => .error e
  | none => .ok result

mutual

/-- **One pass over the nodes.** The first node in pre-order with something wrong decides the error; without one the filter
compiles to what mirrors it. -/
theorem compileFrom_strict : ∀ (f : Filter) (negated : Bool) (next : Nat),
    compileFrom schema .strict negated next f =
      okUnless (f.nodes.findSome? (nodeRefusal? schema)) ⟨f.mirror next, f.literals, []⟩
  | .leaf l, negated, next => by
    rw [compileFrom_leaf, Leaf.compile, nodes, List.findSome?_singleton, nodeRefusal?]
    cases l.refusal? schema <;> rfl
  | .composite function children, negated, next => by
    rw [compileFrom, ← droppable, not_droppable_strict, nodes, List.findSome?_cons, nodeRefusal?, mirror, literals]
    cases function.arity.allows children.length with
    | false => rfl
    | true =>
      simp only [Bool.not_true, Bool.false_eq_true, if_false, if_true]
      rw [compileAll_strict children]
      cases (nodesAll children).findSome? (nodeRefusal? schema) with
      | some e => rfl
      | none =>
        cases hdoc : mirrorAll next children <;> simp only [okUnless]

theorem compileAll_strict : ∀ (xs : List Filter) (negated : Bool) (next : Nat),
    compileAll schema .strict false negated next xs =
      okUnless ((nodesAll xs).findSome? (nodeRefusal? schema)) ⟨mirrorAll next xs, literalsAll xs, []⟩
  | [], negated, next => by
    rw [compileAll]
    rfl
  | x :: xs, negated, next => by
    rw [compileAll, compileFrom_strict x, nodesAll, List.findSome?_append]
    cases x.nodes.findSome? (nodeRefusal? schema) with
    | some e => rfl
    | none =>
      simp only [okUnless, Option.none_or]
      rw [compileAll_strict xs]
      cases (nodesAll xs).findSome? (nodeRefusal? schema) with
      | some e => rfl
      | none => rfl

end

/-- **Strict compilation is exact.** A filter compiles strictly, with a schema or without, just when all its nodes are valid.
An error is what is wrong with the first node in pre-order that is not. What compiles is the filter node for node, with its
literals moved into bindings in order, and nothing is left out. -/
theorem compile_strict_exact (schema : Option Schema) (f : Filter) :
    ((∃ c, f.compile schema .strict = .ok c) ↔ ∀ g ∈ f.nodes, g.ValidNode schema) ∧
    (∀ e, f.compile schema .strict = .error e ↔ ∃ before g after, f.nodes = before ++ g :: after ∧
      (∀ b ∈ before, b.ValidNode schema) ∧ g.NodeFault schema e) ∧
    ∀ c, f.compile schema .strict = .ok c → c = ⟨f.mirror 0, literalBindings f.literals, []⟩ := by
  have hcompile : f.compile schema .strict = okUnless (f.nodes.findSome? (nodeRefusal? schema))
      ⟨f.mirror 0, literalBindings f.literals, []⟩ := by
    rw [compile, compileFrom_strict]
    cases f.nodes.findSome? (nodeRefusal? schema) <;> rfl
  rw [hcompile]
  refine ⟨?_, fun e => ?_, fun c => ?_⟩
  · have hnone : f.nodes.findSome? (nodeRefusal? schema) = none ↔ ∀ g ∈ f.nodes, g.ValidNode schema := by
      rw [List.findSome?_eq_none_iff]
      exact forall₂_congr fun g _ => (nodeRefusal?_exact schema g).1
    rw [← hnone]
    cases f.nodes.findSome? (nodeRefusal? schema) <;> simp [okUnless]
  · have hsome : f.nodes.findSome? (nodeRefusal? schema) = some e ↔ ∃ before g after, f.nodes = before ++ g :: after ∧
        (∀ b ∈ before, b.ValidNode schema) ∧ g.NodeFault schema e := by
      rw [List.findSome?_eq_some_iff]
      simp only [(nodeRefusal?_exact schema _).1, (nodeRefusal?_exact schema _).2]
      refine exists_congr fun before => exists_congr fun g => exists_congr fun after => ?_
      exact and_congr_right fun _ => and_comm
    rw [← hsome]
    cases f.nodes.findSome? (nodeRefusal? schema) <;> simp [okUnless]
  · cases f.nodes.findSome? (nodeRefusal? schema) with
    | some e => exact fun h => by cases h
    | none => exact fun h => (Except.ok.inj h).symm

/-- a column of numbers and one of days -/
def numberAndDay : Schema :=
  ⟨[⟨"id", .long, true⟩, ⟨"day", .date, true⟩]⟩

/-- below a node that is fine, a number is compared with a day; an empty alternative comes after it -/
def faultyTwice : Filter :=
  .composite .and [.compare "id" .ge (.int 1), .composite .not [.compare "day" .lt (.int 3)], .composite .or []]

/-- the same with a day for the number, and something in the alternative -/
def mended : Filter :=
  .composite .and [.compare "id" .ge (.int 1), .composite .not [.compare "day" .lt (.date 3)],
    .composite .or [.isDefined "t.id"]]

theorem compile_strict_exact_mended :
    (∃ before g after, faultyTwice.nodes = before ++ g :: after ∧ (∀ b ∈ before, b.ValidNode (some numberAndDay)) ∧
      g.NodeFault (some numberAndDay) (.typeMismatch "lt" "day" "xs:long")) ∧
    (∀ g ∈ mended.nodes, g.ValidNode (some numberAndDay)) ∧
    ∃ c, mended.compile (some numberAndDay) .strict = .ok c ∧
      c = ⟨mended.mirror 0, [("shardscan_param_0", .int 1), ("shardscan_param_1", .date 3)], []⟩ := by
  have hfaulty : faultyTwice.compile (some numberAndDay) .strict = .error (.typeMismatch "lt" "day" "xs:long") := by decide
  have hmended : ∃ c, mended.compile (some numberAndDay) .strict = .ok c := ⟨_, rfl⟩
  refine ⟨((compile_strict_exact _ faultyTwice).2.1 _).1 hfaulty, (compile_strict_exact _ mended).1.1 hmended, ?_⟩
  obtain ⟨c, hc⟩ := hmended
  exact ⟨c, hc, (compile_strict_exact _ mended).2.2 c hc⟩

end Filter

end PartitionedScan
