/-
What a filter says about a row, apart from how it is compiled or evaluated.

A leaf looks at one cell, found under the last dotted segment of its column when the column is qualified by a view or by
a schema and a view; a composite joins its children in Kleene's logic. `Filter.truth` is that meaning. `Filter.truthBy`
and `Arg.truthBy` read a tree with any truths in place of its leaves: a place is the path of child numbers from the root,
and the truth of a malformed composite is taken from its own place. Main results:
- `Operator.column_key`: the evaluator looks a column up under the key of the meaning;
- `Filter.truth_eq_truthBy`: the meaning of a tree is its reading by the meanings of its leaves.
-/
import PartitionedScan.Proofs.Truth

namespace PartitionedScan

/-! ## Columns -/

/-- the key of a row that a column means: the last segment of a name with one or two dots, else the whole name -/
def columnKey (attr : String) : String :=
  if attr.toList.count '.' = 1 ∨ attr.toList.count '.' = 2 then Schema.shortName attr else attr

namespace Text

theorem segments_ne_nil (sep : Char) (cs : List Char) : segments sep cs ≠ [] := by
  cases cs with
  | nil => simp [segments]
  | cons c r =>
    rw [segments]
    split_ifs
    · simp
    · split <;> simp

theorem segments_length (sep : Char) (cs : List Char) : (segments sep cs).length = cs.count sep + 1 := by
  induction cs with
  | nil => rfl
  | cons c r ih =>
    rw [segments]
    split_ifs with hc
    · rw [List.length_cons, ih, hc, List.count_cons_self]
    · rw [List.count_cons_of_ne hc, ← ih]
      split
      · next h => rw [h]; rfl
      · next h => exact absurd h (segments_ne_nil sep r)

/-- the pieces put together again -/
theorem intercalate_segments (sep : Char) (cs : List Char) : [sep].intercalate (segments sep cs) = cs := by
  induction cs with
  | nil => rfl
  | cons c r ih =>
    obtain ⟨piece, rest, hpieces⟩ := List.exists_cons_of_ne_nil (segments_ne_nil sep r)
    rw [hpieces] at ih
    rw [segments, hpieces]
    split_ifs with hc
    · rw [List.intercalate_cons_cons, ih, hc]
      rfl
    · cases rest with
      | nil =>
        rw [List.intercalate_singleton] at ih ⊢
        rw [ih]
      | cons p ps =>
        rw [List.intercalate_cons_cons] at ih ⊢
        rw [← ih]
        rfl

/-- cutting at every separator ends with the piece after the last one -/
theorem segments_getLast? (sep : Char) (cs : List Char) : (segments sep cs).getLast? = some (lastSegment sep cs) := by
  induction cs with
  | nil => rfl
  | cons c r ih =>
    rw [segments, lastSegment, splitLast]
    rw [lastSegment] at ih
    cases hs : splitLast sep r with
    | none =>
      rw [hs] at ih
      have hr : segments sep r = [r] := by
        have hlen := segments_length sep r
        rw [List.count_eq_zero.2 (splitLast_eq_none_iff.1 hs)] at hlen
        obtain ⟨piece, hp⟩ := List.length_eq_one_iff.1 hlen
        rw [hp] at ih ⊢
        simpa using ih
      by_cases hc : c = sep <;> simp [hc, hr]
    | some p =>
      rw [hs] at ih
      have hrest (piece : List Char) (rest : List (List Char)) (h : segments sep r = piece :: rest) : rest ≠ [] := by
        intro hnil
        have hlen := segments_length sep r
        have hmem : sep ∈ r := by
          by_contra hm
          rw [splitLast_eq_none_iff.2 hm] at hs
          cases hs
        have := List.count_pos_iff.2 hmem
        rw [h, hnil, List.length_singleton] at hlen
        omega
      split_ifs
      · rw [List.getLast?_cons_of_ne_nil (segments_ne_nil sep r)]
        exact ih
      · split
        · next piece rest h =>
          rw [h, List.getLast?_cons_of_ne_nil (hrest piece rest h)] at ih
          rw [List.getLast?_cons_of_ne_nil (hrest piece rest h)]
          exact ih
        · next h => exact absurd h (segments_ne_nil sep r)

end Text

namespace Operator

/-- a column reference ends with the key under which the column is looked up -/
theorem column_key (attr : String) : (column attr).args.getLast?.bind Arg.string? = some (columnKey attr) := by
  have hlast := Text.segments_getLast? '.' attr.toList
  have hlen := Text.segments_length '.' attr.toList
  unfold column columnKey Schema.shortName
  match hs : Text.segments '.' attr.toList with
  | [] => exact absurd hs (Text.segments_ne_nil _ _)
  | [a] =>
    rw [hs, List.length_singleton] at hlen
    have h0 : attr.toList.count '.' = 0 := by omega
    simp [h0, op, Arg.text, Arg.string?]
  | [a, b] =>
    rw [hs] at hlast hlen
    have h1 : attr.toList.count '.' = 1 := by simpa using hlen.symm
    simp only [List.getLast?_cons_cons, List.getLast?_singleton, Option.some.injEq] at hlast
    simp [h1, ← hlast, op, Arg.text, Arg.string?]
  | [a, b, c] =>
    rw [hs] at hlast hlen
    have h2 : attr.toList.count '.' = 2 := by simpa using hlen.symm
    simp only [List.getLast?_cons_cons, List.getLast?_singleton, Option.some.injEq] at hlast
    simp [h2, ← hlast, op, Arg.text, Arg.string?]
  | a :: b :: c :: d :: rest =>
    rw [hs] at hlen
    simp only [List.length_cons] at hlen
    have h1 : attr.toList.count '.' ≠ 1 := by omega
    have h2 : attr.toList.count '.' ≠ 2 := by omega
    simp [h1, h2, op, Arg.text, Arg.string?]

end Operator

/-! ## Leaves -/

namespace Comparator

/-- whether two documents stand as the comparison asks; documents of kinds that do not compare never do -/
def relates : Comparator → Json → Json → Bool
  | eq, a, b => a.order? b == some .eq
  | lt, a, b => a.order? b == some .lt
  | le, a, b => a.order? b == some .lt || a.order? b == some .eq
  | gt, a, b => a.order? b == some .gt
  | ge, a, b => a.order? b == some .gt || a.order? b == some .eq
  | startsWith, .string a, .string b => decide (b.toList <+: a.toList)
  | endsWith, .string a, .string b => decide (b.toList <:+ a.toList)
  | contains, .string a, .string b => decide (b.toList <:+: a.toList)
  | _, _, _ => false

end Comparator

namespace Leaf

/-- the document that a leaf looks at; null when the row has no such key -/
def cell (row : JsonRow) (l : Leaf) : Json :=
  (row.get? (columnKey l.attr)).getD .null

/-- what a leaf says about a row: `is-defined` is never unknown, the others are on a null cell, and a comparison with
one literal is on a literal without a wire form -/
def truth (row : JsonRow) (l : Leaf) : Truth :=
  match l.comparator, l.values with
  | .isDefined, _ => some (!(l.cell row).isNull)
  | .oneOf, values =>
    if (l.cell row).isNull then none else some (values.any fun v => Comparator.eq.relates (l.cell row) v.toJson)
  | c, [v] => if (l.cell row).isNull || v.toJson.isNull then none else some (c.relates (l.cell row) v.toJson)
  | _, _ => none

end Leaf

/-! ## Trees -/

/-- the path of child numbers that leads from the root of a tree to a node -/
abbrev Place := List Nat

namespace Filter

mutual

/-- what a filter says about a row -/
def truth (row : JsonRow) : Filter → Truth
  | .leaf l => l.truth row
  | .composite function children => function.combine (truths row children)

def truths (row : JsonRow) : List Filter → List Truth
  | [] => []
  | x :: xs => truth row x :: truths row xs

end

mutual

/-- a filter read with given truths at its leaves and at its malformed composites -/
def truthBy (v : Place → Truth) : Filter → Truth
  | .leaf _ => v []
  | .composite function children =>
    if function.arity.allows children.length then function.combine (truthsBy v 0 children) else v []

/-- the readings of children that are numbered from `k` on -/
def truthsBy (v : Place → Truth) (k : Nat) : List Filter → List Truth
  | [] => []
  | x :: xs => truthBy (fun p => v (k :: p)) x :: truthsBy v (k + 1) xs

end

/-- the child with this number -/
def child? : Filter → Nat → Option Filter
  | .leaf _, _ => none
  | .composite _ children, i => children[i]?

/-- the part of a filter at a place -/
def at? (f : Filter) : Place → Option Filter
  | [] => some f
  | i :: p => (f.child? i).bind fun x => x.at? p

/-- what the part of a filter at a place says about a row; unknown where there is none -/
def truthAt (row : JsonRow) (f : Filter) (p : Place) : Truth :=
  (f.at? p).elim none (truth row)

mutual

theorem truth_eq_truthBy (row : JsonRow) : ∀ f : Filter, f.truth row = f.truthBy (f.truthAt row)
  | .leaf l => rfl
  | .composite function children => by
    rw [truthBy]
    split_ifs
    · have hc := truths_eq_truthsBy row children 0 (truthAt row (.composite function children)) fun i p => by
        rw [truthAt, at?, child?, Nat.zero_add]
      rw [truth, hc]
    · rfl

theorem truths_eq_truthsBy (row : JsonRow) : ∀ (xs : List Filter) (k : Nat) (v : Place → Truth),
    (∀ i p, v ((k + i) :: p) = ((xs[i]?).bind fun x => x.at? p).elim none (truth row)) →
    truths row xs = truthsBy v k xs
  | [], _, _, _ => rfl
  | x :: xs, k, v, hv => by
    have hhead : (fun p => v (k :: p)) = x.truthAt row := by
      funext p
      simpa [truthAt] using hv 0 p
    have htail := truths_eq_truthsBy row xs (k + 1) v fun i p => by
      have := hv (i + 1) p
      rwa [List.getElem?_cons_succ, show k + (i + 1) = k + 1 + i by omega] at this
    rw [truths, truthsBy, hhead, ← truth_eq_truthBy row x, htail]

end

end Filter

/-! ## Documents -/

namespace Arg

/-- the connective that an expression is, with its arguments; none for an atom -/
def connective? : Arg → Option (Combinator × List Arg)
  | .node ns name args => if ns = "op" then (Combinator.ofName? name).map (·, args) else none
  | _ => none

mutual

/-- an expression read with given truths at its atoms and at its malformed connectives -/
def truthBy (v : Place → Truth) : Arg → Truth
  | .node ns name args =>
    match if ns = "op" then Combinator.ofName? name else none with
    | some function =>
      if function.arity.allows args.length then function.combine (truthsBy v 0 args) else v []
    | none => v []
  | _ => v []

/-- the readings of arguments that are numbered from `k` on -/
def truthsBy (v : Place → Truth) (k : Nat) : List Arg → List Truth
  | [] => []
  | x :: xs => truthBy (fun p => v (k :: p)) x :: truthsBy v (k + 1) xs

end

/-- the part of an expression at a place; below an atom there is nothing -/
def at? (a : Arg) : Place → Option Arg
  | [] => some a
  | i :: p => (a.connective?.bind fun c => c.2[i]?).bind fun x => x.at? p

end Arg

end PartitionedScan
