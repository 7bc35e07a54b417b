/-
Answers that may be missing.

Readers and commands are built from steps of which each may fail (`Except`) or find nothing (`Option`). These are the
inversions of such steps, one at a time and over lists: a list of steps comes to the results of all, or to the error of the
first that fails.
-/
import Mathlib.Tactic

namespace PartitionedScan

variable {ε ε' α β γ : Type}

/-! ## One step -/

theorem map_eq_ok_iff {x : Except ε α} {f : α → β} {b : β} : x.map f = .ok b ↔ ∃ a, x = .ok a ∧ f a = b := by
  cases x <;> simp [Except.map]

theorem bind_eq_ok_iff {x : Except ε α} {f : α → Except ε β} {b : β} :
    (x >>= f) = .ok b ↔ ∃ a, x = .ok a ∧ f a = .ok b := by
  cases x <;> simp [bind, Except.bind]

theorem mapError_eq_ok_iff {x : Except ε α} {f : ε → ε'} {a : α} : x.mapError f = .ok a ↔ x = .ok a := by
  cases x <;> simp [Except.mapError]

theorem mapError_eq_error_iff {x : Except ε α} {f : ε → ε'} {e : ε'} :
    x.mapError f = .error e ↔ ∃ cause, x = .error cause ∧ f cause = e := by
  cases x <;> simp [Except.mapError]

/-- two answers that agree after a map are the same error, or two values that agree -/
theorem except_map_eq {f : α → γ} {g : β → γ} {a : Except ε α} {b : Except ε β} (h : a.map f = b.map g) :
    (∃ e, a = .error e ∧ b = .error e) ∨ ∃ x y, a = .ok x ∧ b = .ok y ∧ f x = g y := by
  cases a with
  | error e =>
    cases b with
    | error e' => cases h; exact Or.inl ⟨e, rfl, rfl⟩
    | ok y => cases h
  | ok x =>
    cases b with
    | error e' => cases h
    | ok y => exact Or.inr ⟨x, y, rfl, rfl, Except.ok.inj h⟩

/-- the error of a step that fails -/
def errorOf? : Except ε α → Option ε
  | .error e => some e
  | .ok _ => none

@[simp] theorem errorOf?_eq_some_iff {x : Except ε α} {e : ε} : errorOf? x = some e ↔ x = .error e := by
  cases x <;> simp [errorOf?]

@[simp] theorem errorOf?_eq_none_iff {x : Except ε α} : errorOf? x = none ↔ ∃ a, x = .ok a := by
  cases x <;> simp [errorOf?]

theorem errorOf?_map {x : Except ε α} (f : α → β) : errorOf? (x.map f) = errorOf? x := by
  cases x <;> rfl

/-! ## What a check finds -/

/-- a check that passes what is good and names what is bad says exactly which it is, if there is nothing else -/
theorem refusal_exact {o : Option ε} {good : Prop} {bad : ε → Prop} (hgood : good → o = none)
    (hbad : ∀ e, bad e → o = some e) (h : good ∨ ∃ e, bad e) : (o = none ↔ good) ∧ ∀ e, o = some e ↔ bad e := by
  rcases h with h | ⟨e, h⟩
  · have ho := hgood h
    refine ⟨⟨fun _ => h, hgood⟩, fun e => ⟨fun he => ?_, hbad e⟩⟩
    rw [ho] at he
    cases he
  · have ho := hbad e h
    refine ⟨⟨fun hnone => ?_, hgood⟩, fun e' => ⟨fun he => ?_, hbad e'⟩⟩
    · rw [ho] at hnone
      cases hnone
    · rw [ho] at he
      exact Option.some.inj he ▸ h

/-- so does a step that has a result for what is good -/
theorem outcome_exact {x : Except ε α} {good : α → Prop} {bad : ε → Prop} (hgood : ∀ a, good a → x = .ok a)
    (hbad : ∀ e, bad e → x = .error e) (h : (∃ a, good a) ∨ ∃ e, bad e) :
    (∀ a, x = .ok a ↔ good a) ∧ ∀ e, x = .error e ↔ bad e := by
  rcases h with ⟨a, h⟩ | ⟨e, h⟩
  · have hx := hgood a h
    refine ⟨fun a' => ⟨fun ha => ?_, hgood a'⟩, fun e => ⟨fun he => ?_, hbad e⟩⟩
    · rw [hx] at ha
      exact Except.ok.inj ha ▸ h
    · rw [hx] at he
      cases he
  · have hx := hbad e h
    refine ⟨fun a => ⟨fun ha => ?_, hgood a⟩, fun e' => ⟨fun he => ?_, hbad e'⟩⟩
    · rw [hx] at ha
      cases ha
    · rw [hx] at he
      exact Except.error.inj he ▸ h

/-- either all items are good or one of them is the first that is not -/
theorem forall_or_first (good : α → Prop) (l : List α) :
    (∀ a ∈ l, good a) ∨ ∃ before a after, l = before ++ a :: after ∧ (∀ b ∈ before, good b) ∧ ¬ good a := by
  induction l with
  | nil => exact Or.inl fun a ha => (List.not_mem_nil ha).elim
  | cons x l ih =>
    by_cases hx : good x
    · rcases ih with hall | ⟨before, a, after, rfl, hbefore, ha⟩
      · exact Or.inl (List.forall_mem_cons.2 ⟨hx, hall⟩)
      · exact Or.inr ⟨x :: before, a, after, rfl, List.forall_mem_cons.2 ⟨hx, hbefore⟩, ha⟩
    · exact Or.inr ⟨[], x, l, rfl, fun b hb => (List.not_mem_nil hb).elim, hx⟩

/-! ## Lists of steps -/

theorem mapM_congr {f g : α → Except ε β} {l : List α} (h : ∀ a ∈ l, f a = g a) : l.mapM f = l.mapM g := by
  induction l with
  | nil => rfl
  | cons a l ih =>
    rw [List.forall_mem_cons] at h
    rw [List.mapM_cons, List.mapM_cons, h.1, ih h.2]

theorem mapM_eq_ok_iff {f : α → Except ε β} {as : List α} {bs : List β} :
    as.mapM f = .ok bs ↔ List.Forall₂ (fun a b => f a = .ok b) as bs := by
  constructor
  · intro h
    induction as generalizing bs with
    | nil =>
      cases h
      exact .nil
    | cons a as ih =>
      rw [List.mapM_cons] at h
      obtain ⟨b, hb, h⟩ := bind_eq_ok_iff.1 h
      obtain ⟨rest, hrest, h⟩ := bind_eq_ok_iff.1 h
      cases h
      exact .cons hb (ih hrest)
  · intro h
    induction h with
    | nil => rfl
    | cons hhead _ ih =>
      rw [List.mapM_cons, hhead, ih]
      rfl

theorem errorOf?_mapM (f : α → Except ε β) (as : List α) : errorOf? (as.mapM f) = as.findSome? fun a => errorOf? (f a) := by
  induction as with
  | nil => rfl
  | cons a as ih =>
    rw [List.mapM_cons, List.findSome?_cons, ← ih]
    cases f a with
    | error e => rfl
    | ok b => cases as.mapM f <;> rfl

theorem mapM_eq_error_iff {f : α → Except ε β} {as : List α} {e : ε} : as.mapM f = .error e ↔
    ∃ before a after, as = before ++ a :: after ∧ (∀ b ∈ before, ∃ c, f b = .ok c) ∧ f a = .error e := by
  rw [← errorOf?_eq_some_iff, errorOf?_mapM, List.findSome?_eq_some_iff]
  simp only [errorOf?_eq_some_iff, errorOf?_eq_none_iff]
  exact exists_congr fun _ => exists_congr fun _ => exists_congr fun _ => and_congr_right fun _ => and_comm

theorem exists_error_mapM_iff {f : α → Except ε β} {as : List α} :
    (∃ e, as.mapM f = .error e) ↔ ∃ a ∈ as, ∃ e, f a = .error e := by
  simp only [← errorOf?_eq_some_iff, ← Option.isSome_iff_exists, errorOf?_mapM, List.findSome?_isSome_iff]

theorem findSome?_flatMap (l : List α) (g : α → List β) (f : β → Option γ) :
    (l.flatMap g).findSome? f = l.findSome? fun a => (g a).findSome? f := by
  induction l with
  | nil => rfl
  | cons a l ih =>
    rw [List.flatMap_cons, List.findSome?_append, List.findSome?_cons, ih]
    cases (g a).findSome? f <;> rfl

theorem mapM_eq_some_map {f : α → Option β} {g : α → β} {l : List α} (h : ∀ a ∈ l, f a = some (g a)) :
    l.mapM f = some (l.map g) := by
  induction l with
  | nil => rfl
  | cons a l ih =>
    rw [List.forall_mem_cons] at h
    rw [List.mapM_cons, h.1, ih h.2]
    rfl

theorem mapM_eq_none {f : α → Option β} {l : List α} {a : α} (ha : a ∈ l) (h : f a = none) : l.mapM f = none := by
  induction l with
  | nil => cases ha
  | cons b l ih =>
    rw [List.mapM_cons]
    rcases List.mem_cons.1 ha with rfl | ha
    · rw [h]
      rfl
    · rw [ih ha]
      cases f b <;> rfl

theorem mapM_eq_some_iff {f : α → Option β} {as : List α} {bs : List β} :
    as.mapM f = some bs ↔ List.Forall₂ (fun a b => f a = some b) as bs := by
  constructor
  · intro h
    induction as generalizing bs with
    | nil =>
      cases h
      exact .nil
    | cons a as ih =>
      rw [List.mapM_cons] at h
      obtain ⟨b, hb, h⟩ := Option.bind_eq_some_iff.1 h
      obtain ⟨rest, hrest, h⟩ := Option.bind_eq_some_iff.1 h
      cases h
      exact .cons hb (ih hrest)
  · intro h
    induction h with
    | nil => rfl
    | cons hhead _ ih =>
      rw [List.mapM_cons, hhead, ih]
      rfl

/-- of two lists that are related item by item, what is in the second stands beside something in the first -/
theorem exists_of_mem_right {R : α → β → Prop} {as : List α} {bs : List β} (h : List.Forall₂ R as bs) {b : β} (hb : b ∈ bs) :
    ∃ a ∈ as, R a b := by
  induction h with
  | nil => cases hb
  | cons hhead _ ih =>
    rcases List.mem_cons.1 hb with rfl | hb
    · exact ⟨_, List.mem_cons_self, hhead⟩
    · obtain ⟨a, ha, hrelated⟩ := ih hb
      exact ⟨a, List.mem_cons_of_mem _ ha, hrelated⟩

/-- the items that a reader takes come from the items that it is given -/
theorem exists_of_mem_mapM {f : α → Option β} {l : List α} {bs : List β} (h : l.mapM f = some bs) {b : β} (hb : b ∈ bs) :
    ∃ a ∈ l, f a = some b :=
  exists_of_mem_right (mapM_eq_some_iff.1 h) hb

end PartitionedScan
