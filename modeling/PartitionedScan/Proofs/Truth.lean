/-
Kleene's three-valued logic, as the evaluator of expressions has it.

False lies below unknown and unknown below true: `conj` is the smaller of two truths, `disj` the larger one, `neg` turns
the order around. Main results:
- `Combinator.combine_widens`: a connective over parts that each moved one way moves that way, `not` the other way;
- `Arg.truthOfAll_eq`, `Arg.truthOfAny_eq`: the evaluator stops at the first part that decides, and still answers the
  smallest or largest truth when every part has one.
-/
import Mathlib.Tactic
import PartitionedScan.Operator.Evaluation
import PartitionedScan.Filter.Compile

namespace PartitionedScan

namespace Truth

/-- the place in the order false, unknown, true -/
def rank : Truth → Nat
  | some false => 0
  | none => 1
  | some true => 2

/-- the smaller of two truths -/
def conj (a b : Truth) : Truth := if rank a ≤ rank b then a else b

/-- the larger of two truths -/
def disj (a b : Truth) : Truth := if rank a ≤ rank b then b else a

/-- true and false change places, unknown stays -/
def neg (a : Truth) : Truth := a.map (!·)

/-- the smallest of several truths; true when there are none -/
def all (ts : List Truth) : Truth := ts.foldr conj (some true)

/-- the largest of several truths; false when there are none -/
def any (ts : List Truth) : Truth := ts.foldr disj (some false)

/-- `b` lies on the allowed side of `a`: not below it, and not above it when `negated` -/
def Widens (negated : Bool) (a b : Truth) : Prop :=
  if negated then rank b ≤ rank a else rank a ≤ rank b

@[simp] theorem all_nil : all [] = some true := rfl

@[simp] theorem any_nil : any [] = some false := rfl

@[simp] theorem all_cons (t : Truth) (ts : List Truth) : all (t :: ts) = conj t (all ts) := rfl

@[simp] theorem any_cons (t : Truth) (ts : List Truth) : any (t :: ts) = disj t (any ts) := rfl

/-! ## Laws of the connectives -/

@[simp] theorem conj_true (a : Truth) : conj a (some true) = a := by
  rcases a with _ | _ | _ <;> rfl

@[simp] theorem true_conj (a : Truth) : conj (some true) a = a := by
  rcases a with _ | _ | _ <;> rfl

@[simp] theorem false_conj (a : Truth) : conj (some false) a = some false := by
  rcases a with _ | _ | _ <;> rfl

@[simp] theorem true_disj (a : Truth) : disj (some true) a = some true := by
  rcases a with _ | _ | _ <;> rfl

@[simp] theorem disj_false (a : Truth) : disj a (some false) = a := by
  rcases a with _ | _ | _ <;> rfl

@[simp] theorem false_disj (a : Truth) : disj (some false) a = a := by
  rcases a with _ | _ | _ <;> rfl

theorem conj_assoc (a b c : Truth) : conj (conj a b) c = conj a (conj b c) := by
  rcases a with _ | _ | _ <;> rcases b with _ | _ | _ <;> rcases c with _ | _ | _ <;> rfl

theorem disj_assoc (a b c : Truth) : disj (disj a b) c = disj a (disj b c) := by
  rcases a with _ | _ | _ <;> rcases b with _ | _ | _ <;> rcases c with _ | _ | _ <;> rfl

theorem conj_eq_true_iff (a b : Truth) : conj a b = some true ↔ a = some true ∧ b = some true := by
  rcases a with _ | _ | _ <;> rcases b with _ | _ | _ <;> decide

/-! ## Moving one way -/

theorem Widens.refl (negated : Bool) (a : Truth) : Widens negated a a := by
  unfold Widens; split_ifs <;> exact le_rfl

theorem rank_conj_mono {a b a' b' : Truth} (ha : rank a ≤ rank a') (hb : rank b ≤ rank b') :
    rank (conj a b) ≤ rank (conj a' b') := by
  unfold conj; split_ifs <;> omega

theorem rank_disj_mono {a b a' b' : Truth} (ha : rank a ≤ rank a') (hb : rank b ≤ rank b') :
    rank (disj a b) ≤ rank (disj a' b') := by
  unfold disj; split_ifs <;> omega

theorem rank_neg (a : Truth) : rank (neg a) = 2 - rank a := by
  rcases a with _ | _ | _ <;> rfl

theorem rank_conj_le_right (a b : Truth) : rank (conj a b) ≤ rank b := by
  unfold conj; split_ifs <;> omega

theorem eq_true_of_rank_le {a b : Truth} (h : rank a ≤ rank b) (ha : a = some true) : b = some true := by
  subst ha
  rcases b with _ | _ | _
  · exact absurd h (by decide)
  · exact absurd h (by decide)
  · rfl

theorem Widens.conj {negated : Bool} {a b a' b' : Truth} (ha : Widens negated a a') (hb : Widens negated b b') :
    Widens negated (conj a b) (conj a' b') := by
  cases negated with
  | false => exact rank_conj_mono ha hb
  | true => exact rank_conj_mono ha hb

theorem Widens.disj {negated : Bool} {a b a' b' : Truth} (ha : Widens negated a a') (hb : Widens negated b b') :
    Widens negated (disj a b) (disj a' b') := by
  cases negated with
  | false => exact rank_disj_mono ha hb
  | true => exact rank_disj_mono ha hb

theorem Widens.neg {negated : Bool} {a a' : Truth} (h : Widens (!negated) a a') :
    Widens negated (neg a) (neg a') := by
  cases negated with
  | false => exact (rank_neg a).trans_le ((Nat.sub_le_sub_left h 2).trans_eq (rank_neg a').symm)
  | true => exact (rank_neg a').trans_le ((Nat.sub_le_sub_left h 2).trans_eq (rank_neg a).symm)

/-- leaving out a part of a conjunction does not lower it -/
theorem Widens.conj_drop {a b b' : Truth} (h : Widens false b b') : Widens false (Truth.conj a b) b' :=
  (rank_conj_le_right a b).trans h

end Truth

/-- `ts'` is `ts` with every part moved on the allowed side, and some parts left out if that is allowed at all -/
inductive Thinned (droppable negated : Bool) : List Truth → List Truth → Prop
  | nil : Thinned droppable negated [] []
  | keep {a b : Truth} {ts ts' : List Truth} (head : Truth.Widens negated a b)
      (tail : Thinned droppable negated ts ts') : Thinned droppable negated (a :: ts) (b :: ts')
  | drop {a : Truth} {ts ts' : List Truth} (allowed : droppable = true)
      (tail : Thinned droppable negated ts ts') : Thinned droppable negated (a :: ts) ts'

namespace Thinned

theorem all {droppable negated : Bool} (hd : droppable = true → negated = false) {ts ts' : List Truth}
    (h : Thinned droppable negated ts ts') : Truth.Widens negated (Truth.all ts) (Truth.all ts') := by
  induction h with
  | nil => exact Truth.Widens.refl _ _
  | keep head _ ih => exact head.conj ih
  | drop allowed _ ih =>
    have hn := hd allowed
    subst hn
    exact Truth.Widens.conj_drop ih

theorem any {negated : Bool} {ts ts' : List Truth} (h : Thinned false negated ts ts') :
    Truth.Widens negated (Truth.any ts) (Truth.any ts') := by
  induction h with
  | nil => exact Truth.Widens.refl _ _
  | keep head _ ih => exact head.disj ih
  | drop allowed _ _ => exact absurd allowed (by decide)

end Thinned

namespace Combinator

/-- what a composite makes of the truths of its children; unknown for a negation of more or fewer than one -/
def combine : Combinator → List Truth → Truth
  | .and, ts => Truth.all ts
  | .or, ts => Truth.any ts
  | .not, [t] => Truth.neg t
  | .not, _ => none

/-- **Connectives keep the direction.** Parts that moved one way move the whole that way, `not` the other way; leaving
parts out is harmless under an `and` that is not negated. -/
theorem combine_widens (c : Combinator) {droppable negated : Bool} (hd : droppable = true → c = .and ∧ negated = false)
    {ts ts' : List Truth} (h : Thinned droppable (negated ^^ (c == .not)) ts ts') :
    Truth.Widens negated (c.combine ts) (c.combine ts') := by
  cases c with
  | and =>
    rw [show (negated ^^ (Combinator.and == .not)) = negated from Bool.xor_false negated] at h
    exact h.all fun hp => (hd hp).2
  | or =>
    have hdrop : droppable = false := Bool.eq_false_iff.2 fun hp => by cases (hd hp).1
    subst hdrop
    rw [show (negated ^^ (Combinator.or == .not)) = negated from Bool.xor_false negated] at h
    exact h.any
  | not =>
    have hdrop : droppable = false := Bool.eq_false_iff.2 fun hp => by cases (hd hp).1
    subst hdrop
    rw [show (negated ^^ (Combinator.not == .not)) = !negated from Bool.xor_true negated] at h
    cases h with
    | nil => exact Truth.Widens.refl _ _
    | drop allowed _ => exact absurd allowed (by decide)
    | keep head tail =>
      cases tail with
      | nil => exact head.neg
      | keep _ _ => exact Truth.Widens.refl _ _
      | drop allowed _ => exact absurd allowed (by decide)

end Combinator

/-! ## Early exits of the evaluator -/

namespace Arg

/-- every argument has a truth on the row -/
def Evaluates (scope : Scope) (args : List Arg) (ts : List Truth) : Prop :=
  List.Forall₂ (fun a t => a.truth scope = .ok t) args ts

theorem truthOfAll_eq {scope : Scope} {args : List Arg} {ts : List Truth} (h : Evaluates scope args ts) (sofar : Truth)
    (hs : sofar ≠ some false) : truthOfAll scope sofar args = .ok (Truth.conj sofar (Truth.all ts)) := by
  induction h generalizing sofar with
  | nil => rw [truthOfAll, Truth.all_nil, Truth.conj_true]
  | @cons a t args ts ha _ ih =>
    rw [truthOfAll, ha, Truth.all_cons, ← Truth.conj_assoc]
    rcases t with _ | _ | _
    · have hc : Truth.conj sofar none = none := by
        rcases sofar with _ | _ | _
        · rfl
        · exact absurd rfl hs
        · rfl
      rw [hc]; exact ih none (by decide)
    · have hc : Truth.conj sofar (some false) = some false := by rcases sofar with _ | _ | _ <;> rfl
      rw [hc, Truth.false_conj]; rfl
    · rw [Truth.conj_true]; exact ih sofar hs

theorem truthOfAny_eq {scope : Scope} {args : List Arg} {ts : List Truth} (h : Evaluates scope args ts) (sofar : Truth)
    (hs : sofar ≠ some true) : truthOfAny scope sofar args = .ok (Truth.disj sofar (Truth.any ts)) := by
  induction h generalizing sofar with
  | nil => rw [truthOfAny, Truth.any_nil, Truth.disj_false]
  | @cons a t args ts ha _ ih =>
    rw [truthOfAny, ha, Truth.any_cons, ← Truth.disj_assoc]
    rcases t with _ | _ | _
    · have hc : Truth.disj sofar none = none := by
        rcases sofar with _ | _ | _
        · rfl
        · rfl
        · exact absurd rfl hs
      rw [hc]; exact ih none (by decide)
    · rw [Truth.disj_false]; exact ih sofar hs
    · have hc : Truth.disj sofar (some true) = some true := by rcases sofar with _ | _ | _ <;> rfl
      rw [hc, Truth.true_disj]; rfl

end Arg

end PartitionedScan
