/-
Finding one run of characters in another, and cutting a text at a separator.

`splitFirst` and `splitLast` cut at the first and at the last separator; `segments` cuts at every one, so that a text
without the separator is one segment. Gluing the pieces together with the separator gives the text back.
-/

namespace PartitionedScan.Text

/-- whether `part` occurs somewhere in the text -/
def occursIn (part : List Char) : List Char → Bool
  | [] => part.isEmpty
  | c :: r => part.isPrefixOf (c :: r) || occursIn part r

/-- the text before and after the first separator -/
def splitFirst (sep : Char) : List Char → Option (List Char × List Char)
  | [] => none
  | c :: r =>
    if c = sep then some ([], r) else (splitFirst sep r).map fun (before, after) => (c :: before, after)

/-- the text before and after the last separator -/
def splitLast (sep : Char) : List Char → Option (List Char × List Char)
  | [] => none
  | c :: r =>
    match splitLast sep r with
    | some (before, after) => some (c :: before, after)
    | none => if c = sep then some ([], r) else none

/-- the pieces between separators, at least one -/
def segments (sep : Char) : List Char → List (List Char)
  | [] => [[]]
  | c :: r =>
    if c = sep then [] :: segments sep r
    else match segments sep r with
      | piece :: rest => (c :: piece) :: rest
      | [] => [[c]]

/-- the piece after the last separator; the whole text when there is none -/
def lastSegment (sep : Char) (cs : List Char) : List Char :=
  match splitLast sep cs with
  | some (_, after) => after
  | none => cs

theorem splitFirst_eq_some {sep : Char} {cs before after : List Char} (h : splitFirst sep cs = some (before, after)) :
    cs = before ++ sep :: after ∧ sep ∉ before := by
  induction cs generalizing before with
  | nil => simp [splitFirst] at h
  | cons c r ih =>
    by_cases hc : c = sep
    · simp [splitFirst, hc] at h
      simp [h, hc]
    · simp only [splitFirst, hc, if_false, Option.map_eq_some_iff] at h
      obtain ⟨⟨b, a⟩, hb, he⟩ := h
      simp only [Prod.mk.injEq] at he
      obtain ⟨rfl, rfl⟩ := he
      obtain ⟨h1, h2⟩ := ih hb
      exact ⟨by simp [h1], by simp [h2, Ne.symm hc]⟩

/-- a text is cut at the first separator where it was put together with one -/
theorem splitFirst_eq_some_iff {sep : Char} {cs before after : List Char} :
    splitFirst sep cs = some (before, after) ↔ cs = before ++ sep :: after ∧ sep ∉ before := by
  refine ⟨splitFirst_eq_some, ?_⟩
  rintro ⟨rfl, h⟩
  induction before with
  | nil => simp [splitFirst]
  | cons c r ih =>
    obtain ⟨hc, hr⟩ := not_or.1 (mt List.mem_cons.2 h)
    simp [splitFirst, Ne.symm hc, ih hr]

theorem splitFirst_eq_none_iff {sep : Char} {cs : List Char} : splitFirst sep cs = none ↔ sep ∉ cs := by
  induction cs with
  | nil => simp [splitFirst]
  | cons c r ih =>
    by_cases hc : c = sep
    · simp [splitFirst, hc]
    · simp [splitFirst, hc, ih, Ne.symm hc]

theorem splitLast_eq_none_iff {sep : Char} {cs : List Char} : splitLast sep cs = none ↔ sep ∉ cs := by
  induction cs with
  | nil => simp [splitLast]
  | cons c r ih =>
    cases hr : splitLast sep r with
    | some p =>
      have : sep ∈ r := by
        by_cases hm : sep ∈ r
        · exact hm
        · rw [ih.2 hm] at hr; cases hr
      simp [splitLast, hr, this]
    | none =>
      have hm := ih.1 hr
      by_cases hc : c = sep
      · simp [splitLast, hr, hc]
      · simp [splitLast, hr, hc, hm, Ne.symm hc]

theorem splitLast_eq_some {sep : Char} {cs before after : List Char} (h : splitLast sep cs = some (before, after)) :
    cs = before ++ sep :: after ∧ sep ∉ after := by
  induction cs generalizing before after with
  | nil => simp [splitLast] at h
  | cons c r ih =>
    cases hr : splitLast sep r with
    | some p =>
      obtain ⟨b, a⟩ := p
      simp only [splitLast, hr, Option.some.injEq, Prod.mk.injEq] at h
      obtain ⟨rfl, rfl⟩ := h
      obtain ⟨h1, h2⟩ := ih hr
      exact ⟨by simp [h1], h2⟩
    | none =>
      by_cases hc : c = sep
      · simp only [splitLast, hr, hc, if_true, Option.some.injEq, Prod.mk.injEq] at h
        obtain ⟨rfl, rfl⟩ := h
        exact ⟨by simp [hc], splitLast_eq_none_iff.1 hr⟩
      · simp [splitLast, hr, hc] at h

/-- a text is cut at the last separator where it was put together with one -/
theorem splitLast_eq_some_iff {sep : Char} {cs before after : List Char} :
    splitLast sep cs = some (before, after) ↔ cs = before ++ sep :: after ∧ sep ∉ after := by
  refine ⟨splitLast_eq_some, ?_⟩
  rintro ⟨rfl, h⟩
  induction before with
  | nil => simp [splitLast, splitLast_eq_none_iff.2 h]
  | cons c r ih => simp [splitLast, ih]

end PartitionedScan.Text
