/-
Blank characters and trimming.

`isBlank` is the Unicode property White_Space: 25 characters, ASCII blanks among them. `trimmed` is what is left without the
blanks at both ends; `isBlankText` holds of a text with nothing but blanks.
-/

namespace PartitionedScan.Text

/-- the characters with the Unicode property White_Space -/
def isBlank (c : Char) : Bool :=
  let n := c.toNat
  (9 ≤ n && n ≤ 13) || n == 32 || n == 0x85 || n == 0xA0 || n == 0x1680 || (0x2000 ≤ n && n ≤ 0x200A) ||
    n == 0x2028 || n == 0x2029 || n == 0x202F || n == 0x205F || n == 0x3000

/-- a run of characters without the blanks at either end -/
def trimmed (cs : List Char) : List Char :=
  ((cs.dropWhile isBlank).reverse.dropWhile isBlank).reverse

/-- every character is blank; true of the empty text -/
def isBlankText (s : String) : Bool :=
  s.toList.all isBlank

theorem isBlank_of_isDigit {c : Char} (h : c.isDigit = true) : isBlank c = false := by
  have hrange := Char.isDigit_iff_toNat.1 h
  have hends : '0'.toNat = 48 ∧ '9'.toNat = 57 := ⟨rfl, rfl⟩
  simp only [isBlank, Bool.or_eq_false_iff, Bool.and_eq_false_iff, decide_eq_false_iff_not, beq_eq_false_iff_ne]
  omega

/-! ## Trimming -/

/-- cutting blanks off both ends leaves what stands between them -/
theorem exists_blanks_around (cs : List Char) : ∃ before after, (∀ c ∈ before ++ after, isBlank c = true) ∧
    cs = before ++ trimmed cs ++ after := by
  let rest := cs.dropWhile isBlank
  refine ⟨cs.takeWhile isBlank, (rest.reverse.takeWhile isBlank).reverse, ?_, ?_⟩
  · intro c hc
    rcases List.mem_append.1 hc with hc | hc
    · exact List.all_eq_true.1 List.all_takeWhile c hc
    · exact List.all_eq_true.1 List.all_takeWhile c (List.mem_reverse.1 hc)
  · have hrest : trimmed cs ++ (rest.reverse.takeWhile isBlank).reverse = rest := by
      rw [trimmed, ← List.reverse_append, List.takeWhile_append_dropWhile, List.reverse_reverse]
    rw [List.append_assoc, hrest, List.takeWhile_append_dropWhile]

/-- blanks are dropped up to the first character that is none -/
theorem dropWhile_isBlank_append {blanks rest : List Char} (hblank : ∀ c ∈ blanks, isBlank c = true)
    (hrest : ∀ c ∈ rest.head?, isBlank c = false) : (blanks ++ rest).dropWhile isBlank = rest := by
  rw [List.dropWhile_append_of_pos hblank]
  cases rest with
  | nil => rfl
  | cons c r => exact List.dropWhile_cons_of_neg (by simp [hrest c rfl])

/-- a text without blanks is what is left of every text that has it between blanks -/
theorem trimmed_eq_iff {cs core : List Char} (hcore : ∀ c ∈ core, isBlank c = false) :
    trimmed cs = core ↔ ∃ before after, (∀ c ∈ before ++ after, isBlank c = true) ∧ cs = before ++ core ++ after := by
  constructor
  · rintro rfl
    exact exists_blanks_around cs
  · rintro ⟨before, after, hblank, rfl⟩
    cases core with
    | nil =>
      have hnone : (before ++ after ++ []).dropWhile isBlank = [] := dropWhile_isBlank_append hblank nofun
      rw [trimmed, List.append_nil, ← List.append_nil (before ++ after), hnone]
      rfl
    | cons c r =>
      have hfirst : ∀ d ∈ (c :: r ++ after).head?, isBlank d = false := fun d hd => by
        rw [← Option.some.inj hd]
        exact hcore c List.mem_cons_self
      have hlast : ∀ d ∈ (c :: r).reverse.head?, isBlank d = false := fun d hd =>
        hcore d (List.mem_reverse.1 (List.mem_of_mem_head? hd))
      rw [trimmed, List.append_assoc, dropWhile_isBlank_append (fun d hd => hblank d (List.mem_append_left _ hd)) hfirst,
        List.reverse_append, dropWhile_isBlank_append (fun d hd => hblank d (List.mem_append_right _ (List.mem_reverse.1 hd))) hlast,
        List.reverse_reverse]

end PartitionedScan.Text
