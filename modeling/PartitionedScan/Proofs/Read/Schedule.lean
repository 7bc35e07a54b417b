/-
Workers that share a counter and a row of slots.

What workers do to their tasks does not matter here, only where they sit: each takes the next number from the counter, works
on the slot with that number, fills it and takes the next number, until the numbers are past the last slot (`Booked`). And a
system that loses rank with every move comes to rest if every worker has its turn again and again (`Fair`). Main results:
- `Booked.filled`: when all workers have stopped every slot is filled;
- `Fair.comes_to_rest`, `Fair.all_stop`: fair schedules come to an end.
-/
import Mathlib.Tactic

namespace PartitionedScan

namespace TaskPool

/-! ## Lists with one place changed -/

theorem getElem?_set_cases {α : Type} {xs : List α} {w v : Nat} {a b : α} (h : (xs.set w a)[v]? = some b) :
    (v = w ∧ b = a) ∨ (v ≠ w ∧ xs[v]? = some b) := by
  rw [List.getElem?_set] at h
  split_ifs at h with hvw hlen
  · exact Or.inl ⟨hvw.symm, (Option.some.inj h).symm⟩
  · exact Or.inr ⟨Ne.symm hvw, h⟩

theorem getElem?_of_set {α : Type} {xs : List α} {w v : Nat} {a b : α} (h : (xs.set w a)[v]? = some b) (hne : b ≠ a) :
    xs[v]? = some b := by
  rcases getElem?_set_cases h with ⟨_, hb⟩ | ⟨_, hb⟩
  · exact absurd hb hne
  · exact hb

theorem getElem?_set_of_ne {α : Type} {xs : List α} {w v : Nat} {a b : α} (hw : xs[w]? = some a)
    (hv : xs[v]? = some b) (hne : b ≠ a) (new : α) : (xs.set w new)[v]? = some b := by
  rw [List.getElem?_set_ne, hv]
  rintro rfl
  rw [hw] at hv
  exact hne (Option.some.inj hv).symm

theorem set_eq_self {α : Type} {xs : List α} {w : Nat} {a : α} (hw : xs[w]? = some a) : xs.set w a = xs := by
  obtain ⟨hlt, rfl⟩ := List.getElem?_eq_some_iff.1 hw
  exact List.set_getElem_self hlt

theorem sum_map_set {α : Type} (f : α → Nat) {xs : List α} {w : Nat} {old : α} (hw : xs[w]? = some old) (new : α) :
    ((xs.set w new).map f).sum + f old = (xs.map f).sum + f new := by
  induction xs generalizing w with
  | nil => cases hw
  | cons a xs ih =>
    cases w with
    | zero =>
      cases hw
      simp only [List.set_cons_zero, List.map_cons, List.sum_cons]
      omega
    | succ w =>
      have := ih hw
      simp only [List.set_cons_succ, List.map_cons, List.sum_cons]
      omega

/-! ## Seats -/

/-- where a worker sits -/
inductive Seat where
  /-- about to take a number -/
  | free
  /-- on a slot -/
  | on (slot : Nat)
  /-- no number was left -/
  | left
  deriving DecidableEq, Repr

/-- numbers below `next` were taken, of `n` slots: each has its slot filled, or one worker on it -/
structure Booked {α : Type} (n next : Nat) (slots : List (Option α)) (seats : List Seat) : Prop where
  size : slots.length = n
  taken : ∀ i < next, i < n → (∃ t, slots[i]? = some (some t)) ∨ ∃ w : Nat, seats[w]? = some (.on i)
  below : ∀ (w i : Nat), seats[w]? = some (.on i) → i < next
  alone : ∀ v w i : Nat, seats[v]? = some (.on i) → seats[w]? = some (.on i) → v = w
  /-- a worker leaves only behind the last slot -/
  left : ∀ w : Nat, seats[w]? = some .left → n ≤ next

namespace Booked

variable {α : Type} {n next : Nat} {slots : List (Option α)} {seats : List Seat} {w : Nat}

theorem start (n workers : Nat) : Booked n 0 (List.replicate n (none : Option α)) (List.replicate workers .free) where
  size := List.length_replicate
  taken i hi := absurd hi (Nat.not_lt_zero i)
  below w i hw := by cases List.eq_of_mem_replicate (List.mem_of_getElem? hw)
  alone v _ i hv _ := by cases List.eq_of_mem_replicate (List.mem_of_getElem? hv)
  left w hw := by cases List.eq_of_mem_replicate (List.mem_of_getElem? hw)

theorem leave (h : Booked n next slots seats) (hw : seats[w]? = some .free) (hbehind : n ≤ next) :
    Booked n (next + 1) slots (seats.set w .left) where
  size := h.size
  taken i _ hi := by
    rcases h.taken i (hi.trans_le hbehind) hi with ht | ⟨v, hv⟩
    · exact Or.inl ht
    · exact Or.inr ⟨v, getElem?_set_of_ne hw hv nofun .left⟩
  below v i hv := Nat.lt_succ_of_lt (h.below v i (getElem?_of_set hv nofun))
  alone u v i hu hv := h.alone u v i (getElem?_of_set hu nofun) (getElem?_of_set hv nofun)
  left _ _ := Nat.le_succ_of_le hbehind

theorem take (h : Booked n next slots seats) (hw : seats[w]? = some .free) (hnext : next < n) :
    Booked n (next + 1) slots (seats.set w (.on next)) where
  size := h.size
  taken i hi hsize := by
    by_cases heq : i = next
    · obtain ⟨hlt, _⟩ := List.getElem?_eq_some_iff.1 hw
      exact Or.inr ⟨w, heq ▸ List.getElem?_set_self hlt⟩
    · rcases h.taken i (by omega) hsize with ht | ⟨v, hv⟩
      · exact Or.inl ht
      · exact Or.inr ⟨v, getElem?_set_of_ne hw hv nofun _⟩
  below v i hv := by
    rcases getElem?_set_cases hv with ⟨_, hi⟩ | ⟨_, hold⟩
    · cases hi
      exact Nat.lt_succ_self next
    · exact Nat.lt_succ_of_lt (h.below v i hold)
  alone u v i hu hv := by
    -- the number taken is past those of all others
    rcases getElem?_set_cases hu with ⟨hu, hi⟩ | ⟨_, hu⟩ <;> rcases getElem?_set_cases hv with ⟨hv, hj⟩ | ⟨_, hv⟩
    · exact hu.trans hv.symm
    · cases hi
      exact absurd (h.below v next hv) (Nat.lt_irrefl next)
    · cases hj
      exact absurd (h.below u next hu) (Nat.lt_irrefl next)
    · exact h.alone u v i hu hv
  left v hv := absurd (h.left v (getElem?_of_set hv nofun)) (Nat.not_le.2 hnext)

theorem fill (h : Booked n next slots seats) {slot : Nat} (hw : seats[w]? = some (.on slot)) (t : α) :
    Booked n next (slots.set slot (some t)) (seats.set w .free) where
  size := List.length_set.trans h.size
  taken i hi hsize := by
    rw [List.getElem?_set]
    by_cases hslot : slot = i
    · rw [if_pos hslot, if_pos (h.size ▸ hslot ▸ hsize)]
      exact Or.inl ⟨t, rfl⟩
    · rw [if_neg hslot]
      rcases h.taken i hi hsize with ht | ⟨v, hv⟩
      · exact Or.inl ht
      · exact Or.inr ⟨v, getElem?_set_of_ne hw hv (fun heq => hslot (Seat.on.inj heq).symm) .free⟩
  below v i hv := h.below v i (getElem?_of_set hv nofun)
  alone u v i hu hv := h.alone u v i (getElem?_of_set hu nofun) (getElem?_of_set hv nofun)
  left v hv := h.left v (getElem?_of_set hv nofun)

/-- **When all workers have left every slot is filled** -/
theorem filled (h : Booked n next slots seats) (hall : ∀ s ∈ seats, s = .left) (hworkers : n ≠ 0 → seats ≠ [])
    {i : Nat} (hi : i < n) : ∃ t, slots[i]? = some (some t) := by
  obtain ⟨s, hs⟩ := List.exists_mem_of_ne_nil seats (hworkers (Nat.ne_of_gt (Nat.zero_lt_of_lt hi)))
  obtain ⟨w, hw⟩ := List.mem_iff_getElem?.1 hs
  rw [hall s hs] at hw
  rcases h.taken i (hi.trans_le (h.left w hw)) hi with ht | ⟨v, hv⟩
  · exact ht
  · cases hall _ (List.mem_of_getElem? hv)

end Booked

/-- what filled slots hold, in order -/
theorem filterMap_filled {α β γ : Type} {slots : List (Option α)} {xs : List β} (f : α → γ) (g : β → γ)
    (hsize : slots.length = xs.length)
    (h : ∀ (i : Nat) (x : β), xs[i]? = some x → ∃ t, slots[i]? = some (some t) ∧ f t = g x) :
    (slots.filterMap id).map f = xs.map g := by
  have hslots : slots.map (Option.map f) = xs.map fun x => some (g x) := by
    apply List.ext_getElem?
    intro i
    rw [List.getElem?_map, List.getElem?_map]
    cases hx : xs[i]? with
    | none =>
      have hi := List.getElem?_eq_none_iff.1 hx
      rw [List.getElem?_eq_none_iff.2 (by omega)]
      rfl
    | some x =>
      obtain ⟨t, ht, heq⟩ := h i x hx
      rw [ht, Option.map_some, Option.map_some, Option.map_some, heq]
  calc (slots.filterMap id).map f = (slots.map (Option.map f)).filterMap id := by
        rw [List.map_filterMap, List.filterMap_map]
        rfl
    _ = xs.map g := by
        rw [hslots, List.filterMap_map]
        exact congrFun (List.filterMap_eq_map (f := g)) xs

/-! ## Fairness -/

/-- every worker has its turn again and again -/
def Fair (workers : Nat) (schedule : Nat → Nat) : Prop :=
  ∀ w < workers, ∀ k, ∃ j, k ≤ j ∧ schedule j = w

/-- **Fair schedules come to an end**: every move loses rank, and where there is no rest some worker has a move to make -/
theorem Fair.comes_to_rest {α : Type} {workers : Nat} {schedule : Nat → Nat} (fair : Fair workers schedule) (x : Nat → α)
    (rank : α → Nat) (rests : α → Prop) (moves : ∀ k, x (k + 1) = x k ∨ rank (x (k + 1)) < rank (x k))
    (busy : ∀ k, ¬ rests (x k) →
      ∃ w < workers, ∀ j, x j = x k → schedule j = w → rank (x (j + 1)) < rank (x j)) : ∃ k, rests (x k) := by
  suffices ∀ n k, rank (x k) = n → ∃ k, rests (x k) from this _ 0 rfl
  intro n
  induction n using Nat.strong_induction_on with
  | _ n ih =>
    intro k hn
    by_cases hrests : rests (x k)
    · exact ⟨k, hrests⟩
    · obtain ⟨w, hw, hmove⟩ := busy k hrests
      obtain ⟨j, hkj, hj⟩ := fair w hw k
      -- up to the turn of the worker nothing happens, or rank was lost before
      have hlost : ∀ d, x (k + d) = x k ∨ ∃ i, rank (x i) < rank (x k) := fun d => by
        induction d with
        | zero => exact Or.inl rfl
        | succ d ihd =>
          rcases ihd with hsame | hlost
          · rcases moves (k + d) with hstay | hless
            · exact Or.inl (hstay.trans hsame)
            · exact Or.inr ⟨k + d + 1, hsame ▸ hless⟩
          · exact Or.inr hlost
      obtain ⟨i, hi⟩ : ∃ i, rank (x i) < rank (x k) := by
        rcases hlost (j - k) with hsame | hlost
        · rw [Nat.add_sub_cancel' hkj] at hsame
          exact ⟨j + 1, hsame ▸ hmove j hsame hj⟩
        · exact hlost
      exact ih _ (hn ▸ hi) i rfl

/-- **Workers stop under a fair schedule**: the turn of a worker that has stopped changes nothing, that of any other loses
rank -/
theorem Fair.all_stop {α ω : Type} {n : Nat} {schedule : Nat → Nat} (fair : Fair n schedule) (x : Nat → α)
    (workers : α → List ω) (stopped : ω) (rank : α → Nat) (size : ∀ k, (workers (x k)).length = n)
    (idle : ∀ k, (∀ a, (workers (x k))[schedule k]? = some a → a = stopped) → x (k + 1) = x k)
    (moves : ∀ k a, (workers (x k))[schedule k]? = some a → a ≠ stopped → rank (x (k + 1)) < rank (x k)) :
    ∃ k, ∀ a ∈ workers (x k), a = stopped := by
  refine fair.comes_to_rest x rank (fun y => ∀ a ∈ workers y, a = stopped) ?_ ?_
  · intro k
    by_cases hidle : ∀ a, (workers (x k))[schedule k]? = some a → a = stopped
    · exact Or.inl (idle k hidle)
    · push Not at hidle
      obtain ⟨a, ha, hne⟩ := hidle
      exact Or.inr (moves k a ha hne)
  · intro k hbusy
    push Not at hbusy
    obtain ⟨a, hmem, hne⟩ := hbusy
    obtain ⟨w, hw⟩ := List.mem_iff_getElem?.1 hmem
    refine ⟨w, size k ▸ (List.getElem?_eq_some_iff.1 hw).1, fun j hsame hj => moves j a ?_ hne⟩
    rw [hsame, hj]
    exact hw

end TaskPool

end PartitionedScan
