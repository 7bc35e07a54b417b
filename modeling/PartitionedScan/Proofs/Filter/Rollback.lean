/-
Compiling on one ledger.

`Filter.compile` hands down the number of the next placeholder and joins what its parts come to. The same compilation can
write to a single ledger of bindings and reports as it goes: a placeholder is then named after the number of bindings there
are, and a part that fails leaves behind whatever it wrote before it failed, until the ledger is rolled back to its mark. The
invariant is that a failure only ever adds to the ledger (`Extends`), so that rolling back restores it exactly
(`rollback_mark`). Main result:
- `compileInPlace_eq`: both come to the same documents, bindings, reports and errors.
-/
import PartitionedScan.Proofs.Filter.Compilation

namespace PartitionedScan

/-- what a compilation has written so far: literals under their placeholders, and reports of parts left out -/
structure Ledger where
  bindings : List (String × Value)
  dropped : List CompileError
  deriving DecidableEq

namespace Ledger

/-- nothing written yet -/
def empty : Ledger := ⟨[], []⟩

/-- binds a literal under the placeholder named after the number of bindings -/
def bind (s : Ledger) (v : Value) : Ledger :=
  { s with bindings := s.bindings ++ [(placeholder s.bindings.length, v)] }

/-- binds literals one after another, with a reference to each placeholder -/
def bindAll : List Value → Ledger → List Arg × Ledger
  | [], s => ([], s)
  | v :: values, s =>
    let (args, t) := bindAll values (s.bind v)
    (.ofOperator (.param (placeholder s.bindings.length)) :: args, t)

/-- records a part that was left out -/
def report (s : Ledger) (e : CompileError) : Ledger :=
  { s with dropped := s.dropped ++ [e] }

/-- how much is written: bindings and reports -/
def mark (s : Ledger) : Nat × Nat :=
  (s.bindings.length, s.dropped.length)

/-- forgets what was written after a mark -/
def rollback (s : Ledger) (m : Nat × Nat) : Ledger :=
  ⟨s.bindings.take m.1, s.dropped.take m.2⟩

end Ledger

/-- checks a leaf, then binds its literals -/
def Leaf.compileOn (schema : Option Schema) (l : Leaf) (s : Ledger) : Except CompileError Operator × Ledger :=
  match l.refusal? schema with
  | some e => (.error e, s)
  | none =>
    let (args, t) := s.bindAll l.values
    (.ok ⟨l.comparator.ns, l.comparator.functionName, .ofOperator (.column l.attr) :: args⟩, t)

namespace Filter

mutual

/-- a filter on the ledger `s`; after an error the ledger may hold what was written before it -/
def compileOn (schema : Option Schema) (policy : FallbackPolicy) (negated : Bool) :
    Filter → Ledger → Except CompileError Operator × Ledger
  | .leaf l, s => l.compileOn schema s
  | .composite function children, s =>
    let name := function.functionName
    if !function.arity.allows children.length then (.error (.childArity name function.arity children.length), s)
    else
      let droppable := function == .and && !negated && policy == .dropUnsupported
      match compileAllOn schema policy droppable (negated ^^ (function == .not)) none children s with
      | (.error e, t) => (.error e, t)
      | (.ok ([], first), t) => (.error (first.getD (.childArity name .atLeastOne 0)), t.rollback s.mark)
      | (.ok (args, _), t) => (.ok (.op name args), t)

/-- children in order; when `droppable`, one that fails is rolled back and reported. `first` is the first error so far -/
def compileAllOn (schema : Option Schema) (policy : FallbackPolicy) (droppable negated : Bool)
    (first : Option CompileError) :
    List Filter → Ledger → Except CompileError (List Arg × Option CompileError) × Ledger
  | [], s => (.ok ([], first), s)
  | x :: xs, s =>
    match compileOn schema policy negated x s with
    | (.ok o, t) =>
      match compileAllOn schema policy droppable negated first xs t with
      | (.ok (args, first), u) => (.ok (.ofOperator o :: args, first), u)
      | (.error e, u) => (.error e, u)
    | (.error e, t) =>
      if droppable then
        compileAllOn schema policy droppable negated (first.or (some e)) xs ((t.rollback s.mark).report e)
      else (.error e, t)

end

/-- compiles on an empty ledger -/
def compileInPlace (schema : Option Schema) (policy : FallbackPolicy) (f : Filter) : Except CompileError Compilation :=
  match compileOn schema policy false f .empty with
  | (.error e, _) => .error e
  | (.ok document, t) => .ok ⟨document, t.bindings, t.dropped⟩

end Filter

/-! ## What stays written -/

/-- literals under the placeholders from number `next` on -/
def numberedBindings (next : Nat) (values : List Value) : List (String × Value) :=
  (values.zipIdx next).map fun (v, i) => (placeholder i, v)

theorem numberedBindings_append (next : Nat) (values more : List Value) :
    numberedBindings next (values ++ more) =
      numberedBindings next values ++ numberedBindings (next + values.length) more := by
  rw [numberedBindings, List.zipIdx_append, List.map_append]
  rfl

theorem length_numberedBindings (next : Nat) (values : List Value) :
    (numberedBindings next values).length = values.length := by
  rw [numberedBindings, List.length_map, List.length_zipIdx]

namespace Ledger

/-- the ledger with the literals and reports of a compiled part -/
def write (s : Ledger) (values : List Value) (dropped : List CompileError) : Ledger :=
  ⟨s.bindings ++ numberedBindings s.bindings.length values, s.dropped ++ dropped⟩

/-- whatever was written is still there -/
def Extends (s t : Ledger) : Prop :=
  s.bindings <+: t.bindings ∧ s.dropped <+: t.dropped

theorem Extends.refl (s : Ledger) : s.Extends s :=
  ⟨List.prefix_refl _, List.prefix_refl _⟩

theorem Extends.trans {s t u : Ledger} (h : s.Extends t) (h' : t.Extends u) : s.Extends u :=
  ⟨h.1.trans h'.1, h.2.trans h'.2⟩

theorem extends_write (s : Ledger) (values : List Value) (dropped : List CompileError) :
    s.Extends (s.write values dropped) :=
  ⟨List.prefix_append _ _, List.prefix_append _ _⟩

/-- **Rolling back restores a ledger** from all that was added to it -/
theorem rollback_mark {s t : Ledger} (h : s.Extends t) : t.rollback s.mark = s := by
  rw [rollback, mark, ← List.prefix_iff_eq_take.1 h.1, ← List.prefix_iff_eq_take.1 h.2]

theorem length_write (s : Ledger) (values : List Value) (dropped : List CompileError) :
    (s.write values dropped).bindings.length = s.bindings.length + values.length := by
  rw [write, List.length_append, length_numberedBindings]

theorem write_nil (s : Ledger) : s.write [] [] = s := by
  simp [write, numberedBindings]

theorem write_write (s : Ledger) (values more : List Value) (dropped rest : List CompileError) :
    (s.write values dropped).write more rest = s.write (values ++ more) (dropped ++ rest) := by
  simp only [write, List.length_append, length_numberedBindings, numberedBindings_append, List.append_assoc]

theorem write_report (s : Ledger) (e : CompileError) : s.report e = s.write [] [e] := by
  simp [report, write, numberedBindings]

theorem write_bind (s : Ledger) (v : Value) : s.bind v = s.write [v] [] := by
  simp [bind, write, numberedBindings]

theorem bindAll_eq (values : List Value) (s : Ledger) :
    s.bindAll values = (Leaf.placeholders s.bindings.length values, s.write values []) := by
  induction values generalizing s with
  | nil => rw [bindAll, write_nil, Leaf.placeholders]
  | cons v values ih =>
    rw [bindAll, ih, write_bind, length_write, write_write, Leaf.placeholders]
    rfl

end Ledger

/-! ## The two compilations agree -/

/-- what compiling a part on the ledger `s` comes to, beside what compiling it from the number of bindings comes to -/
inductive Ledger.Agrees (s : Ledger) :
    Except CompileError (Compiled Operator) → Except CompileError Operator × Ledger → Prop
  | ok (r : Compiled Operator) : Agrees s (.ok r) (.ok r.document, s.write r.values r.dropped)
  | error (e : CompileError) {t : Ledger} (added : s.Extends t) : Agrees s (.error e) (.error e, t)

/-- the same for children; where none is left, the error kept is the first of those reported -/
inductive Ledger.AgreesAll (s : Ledger) (first : Option CompileError) :
    Except CompileError (Compiled (List Arg)) → Except CompileError (List Arg × Option CompileError) × Ledger → Prop
  | ok (rs : Compiled (List Arg)) {kept : Option CompileError}
      (all : rs.document = [] → kept = first.or rs.dropped.head?) :
      AgreesAll s first (.ok rs) (.ok (rs.document, kept), s.write rs.values rs.dropped)
  | error (e : CompileError) {t : Ledger} (added : s.Extends t) : AgreesAll s first (.error e) (.error e, t)

namespace Filter

variable {schema : Option Schema} {policy : FallbackPolicy}

theorem agrees_leaf (l : Leaf) (s : Ledger) :
    s.Agrees (l.compile schema s.bindings.length) (l.compileOn schema s) := by
  unfold Leaf.compile Leaf.compileOn
  cases l.refusal? schema with
  | some e => exact .error e (.refl s)
  | none =>
    simp only [Ledger.bindAll_eq]
    exact .ok ⟨_, l.values, []⟩

mutual

theorem agrees_compileOn : ∀ (f : Filter) (negated : Bool) (s : Ledger),
    s.Agrees (compileFrom schema policy negated s.bindings.length f) (compileOn schema policy negated f s)
  | .leaf l, negated, s => by
    rw [compileFrom_leaf, compileOn]
    exact agrees_leaf l s
  | .composite function children, negated, s => by
    rw [compileFrom, compileOn]
    simp only
    split_ifs with harity
    · exact .error _ (.refl s)
    · generalize hpure : compileAll schema policy (function == .and && !negated && policy == .dropUnsupported)
        (negated ^^ (function == .not)) s.bindings.length children = pure
      have hall := agrees_compileAllOn children (function == .and && !negated && policy == .dropUnsupported)
        (negated ^^ (function == .not)) none s
      rw [hpure] at hall
      generalize compileAllOn schema policy (function == .and && !negated && policy == .dropUnsupported)
        (negated ^^ (function == .not)) none children s = written at hall ⊢
      cases hall with
      | error e added => exact .error e added
      | ok rs hfirst =>
        obtain ⟨hcount, _⟩ := compileAll_length hpure
        obtain ⟨document, values, dropped⟩ := rs
        cases document with
        | cons d ds => exact .ok ⟨.op function.functionName (d :: ds), values, dropped⟩
        | nil =>
          cases dropped with
          | nil =>
            -- a composite has children, and each is kept or reported
            obtain rfl := List.length_eq_zero_iff.1 (Nat.le_zero.1 hcount)
            cases function <;> exact absurd rfl harity
          | cons e es =>
            obtain rfl := hfirst rfl
            refine .error e ?_
            rw [Ledger.rollback_mark (s.extends_write values (e :: es))]
            exact .refl s

theorem agrees_compileAllOn : ∀ (xs : List Filter) (drop negated : Bool) (first : Option CompileError) (s : Ledger),
    s.AgreesAll first (compileAll schema policy drop negated s.bindings.length xs)
      (compileAllOn schema policy drop negated first xs s)
  | [], drop, negated, first, s => by
    rw [compileAll_nil, compileAllOn]
    have hnil : s.AgreesAll first (.ok ⟨[], [], []⟩) (.ok ([], first), s.write [] []) := .ok _ fun _ => by simp
    rwa [Ledger.write_nil] at hnil
  | x :: xs, drop, negated, first, s => by
    rw [compileAll, compileAllOn]
    have hx := agrees_compileOn x negated s
    generalize compileFrom schema policy negated s.bindings.length x = pure at hx ⊢
    generalize compileOn schema policy negated x s = written at hx ⊢
    cases hx with
    | ok r =>
      have hxs := agrees_compileAllOn xs drop negated first (s.write r.values r.dropped)
      rw [Ledger.length_write] at hxs
      simp only
      generalize compileAll schema policy drop negated (s.bindings.length + r.values.length) xs = pures at hxs ⊢
      generalize compileAllOn schema policy drop negated first xs (s.write r.values r.dropped) = writtens at hxs ⊢
      cases hxs with
      | error e added => exact .error e ((s.extends_write _ _).trans added)
      | ok rs _ =>
        rw [Ledger.write_write]
        exact .ok ⟨.ofOperator r.document :: rs.document, r.values ++ rs.values, r.dropped ++ rs.dropped⟩ nofun
    | error e added =>
      simp only
      split_ifs with hdrop
      · rw [Ledger.rollback_mark added, Ledger.write_report]
        have hxs := agrees_compileAllOn xs drop negated (first.or (some e)) (s.write [] [e])
        rw [Ledger.length_write, List.length_nil, Nat.add_zero] at hxs
        generalize compileAll schema policy drop negated s.bindings.length xs = pures at hxs ⊢
        generalize compileAllOn schema policy drop negated (first.or (some e)) xs (s.write [] [e]) = writtens at hxs ⊢
        cases hxs with
        | error e' added => exact .error e' ((s.extends_write _ _).trans added)
        | ok rs hfirst =>
          rw [Ledger.write_write]
          refine .ok ⟨rs.document, rs.values, e :: rs.dropped⟩ fun hnone => ?_
          rw [hfirst hnone]
          cases first <;> rfl
      · exact .error e added

end

/-- **Compiling on one ledger** that is rolled back after failures comes to what compiling part by part comes to -/
theorem compileInPlace_eq (schema : Option Schema) (policy : FallbackPolicy) (f : Filter) :
    f.compileInPlace schema policy = f.compile schema policy := by
  have h : Ledger.empty.Agrees (compileFrom schema policy false 0 f) (compileOn schema policy false f .empty) :=
    agrees_compileOn f false .empty
  rw [compileInPlace, compile]
  generalize compileFrom schema policy false 0 f = pure at h ⊢
  generalize compileOn schema policy false f .empty = written at h ⊢
  cases h with
  | error e => rfl
  | ok r => rfl

end Filter

end PartitionedScan
