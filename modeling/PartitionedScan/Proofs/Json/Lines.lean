/-
The compact text of a document is one line.

Controls are escaped inside strings, and nothing outside of them is a blank. So a text with a line for each document has as many
lines as documents. Main result:
- `newline_notMem_render`: the text of a document has no line break.
-/
import Mathlib.Tactic
import PartitionedScan.Json.Printer

namespace PartitionedScan

/-! ## Numbers -/

theorem newline_notMem_ofNat (n : Nat) : '\n' ∉ Text.Integer.ofNat n := by
  intro h
  exact absurd (Text.Integer.isDigit_ofNat n _ h) (by decide)

theorem newline_notMem_ofInt (i : Int) : '\n' ∉ Text.Integer.ofInt i := by
  unfold Text.Integer.ofInt
  split <;> simp [newline_notMem_ofNat]

namespace FloatStyle

theorem newline_notMem_positional {digits : List Char} (h : '\n' ∉ digits) (before : Int) :
    '\n' ∉ positional digits before := by
  have htake : '\n' ∉ digits.take before.toNat := fun hmem => h (List.mem_of_mem_take hmem)
  have hdrop : '\n' ∉ digits.drop before.toNat := fun hmem => h (List.mem_of_mem_drop hmem)
  unfold positional
  split_ifs
  · simp [h]
  · simp only
    split_ifs <;> simp [htake, hdrop]

theorem newline_notMem_scientific (style : FloatStyle) {digits : List Char} (h : '\n' ∉ digits) (exponent : Int) :
    '\n' ∉ scientific style digits exponent := by
  have hplus : '\n' ∉ (if style.plusSign && 0 ≤ exponent then ['+'] else []) := by
    split_ifs <;> simp
  have htail : '\n' ∉ 'e' :: ((if style.plusSign && 0 ≤ exponent then ['+'] else []) ++ Text.Integer.ofInt exponent) := by
    rw [List.mem_cons, List.mem_append, not_or, not_or]
    exact ⟨by decide, hplus, newline_notMem_ofInt exponent⟩
  unfold scientific
  rw [List.mem_append, not_or]
  refine ⟨?_, htail⟩
  split
  · simpa using h
  · exact h

theorem newline_notMem_write (style : FloatStyle) (x : Binary64) : '\n' ∉ style.write x := by
  have hdigits := newline_notMem_ofNat (Decimal.shortest x).coefficient
  have hmagnitude : '\n' ∉ style.writeMagnitude x := by
    unfold writeMagnitude
    simp only
    split_ifs
    · decide
    · exact newline_notMem_positional hdigits _
    · exact newline_notMem_scientific style hdigits _
  unfold write
  split_ifs <;> simp [hmagnitude]

end FloatStyle

namespace Json

theorem newline_notMem_chars (n : Number) : '\n' ∉ n.chars := by
  cases n with
  | int value bounded => exact newline_notMem_ofInt value
  | float value finite => exact FloatStyle.newline_notMem_write .json value

/-! ## Documents -/

/-- a line break inside a string is escaped -/
theorem newline_notMem_escape (c : Char) : '\n' ∉ escape c := by
  have hdigit : ∀ n < 16, Nat.digitChar n ≠ '\n' := by decide
  unfold escape
  split_ifs with hquote hslash hnewline hreturn htab hback hfeed hcontrol
  any_goals decide
  · have hhigh := hdigit (c.toNat / 16) (by omega)
    have hlow := hdigit (c.toNat % 16) (by omega)
    simp [hhigh.symm, hlow.symm]
  · simpa [eq_comm] using hnewline

theorem newline_mem_writeText {s : String} {rest : List Char} (h : '\n' ∈ writeText s rest) : '\n' ∈ rest := by
  have hinside (cs : List Char) :
      '\n' ∈ cs.foldr (fun c done => escape c ++ done) ('"' :: rest) → '\n' ∈ rest := by
    induction cs with
    | nil => simp
    | cons c cs ih =>
      rw [List.foldr_cons, List.mem_append]
      rintro (hc | hcs)
      · exact absurd hc (newline_notMem_escape c)
      · exact ih hcs
  rcases List.mem_cons.1 h with hquote | h
  · exact absurd hquote (by decide)
  · exact hinside s.toList h

mutual

/-- a line break behind a document comes from what follows it -/
theorem newline_mem_write : ∀ (j : Json) {rest : List Char}, '\n' ∈ write j rest → '\n' ∈ rest
  | .null, rest, h => by simpa [write] using h
  | .bool true, rest, h => by simpa [write] using h
  | .bool false, rest, h => by simpa [write] using h
  | .number n, rest, h => by
    rw [write, List.mem_append] at h
    exact h.resolve_left (newline_notMem_chars n)
  | .string s, rest, h => newline_mem_writeText h
  | .array [], rest, h => by simpa [write] using h
  | .array (x :: xs), rest, h => by
    have hitem : '\n' ∈ write x (writeItems xs rest) := by simpa [write] using h
    exact newline_mem_writeItems xs (newline_mem_write x hitem)
  | .object [], rest, h => by simpa [write] using h
  | .object ((k, x) :: xs), rest, h => by
    have hkey : '\n' ∈ writeText k (':' :: write x (writeMembers xs rest)) := by simpa [write] using h
    have hvalue : '\n' ∈ write x (writeMembers xs rest) := by simpa using newline_mem_writeText hkey
    exact newline_mem_writeMembers xs (newline_mem_write x hvalue)

theorem newline_mem_writeItems : ∀ (xs : List Json) {rest : List Char}, '\n' ∈ writeItems xs rest → '\n' ∈ rest
  | [], rest, h => by simpa [writeItems] using h
  | x :: xs, rest, h => by
    have hitem : '\n' ∈ write x (writeItems xs rest) := by simpa [writeItems] using h
    exact newline_mem_writeItems xs (newline_mem_write x hitem)

theorem newline_mem_writeMembers : ∀ (xs : List (String × Json)) {rest : List Char}, '\n' ∈ writeMembers xs rest → '\n' ∈ rest
  | [], rest, h => by simpa [writeMembers] using h
  | (k, x) :: xs, rest, h => by
    have hkey : '\n' ∈ writeText k (':' :: write x (writeMembers xs rest)) := by simpa [writeMembers] using h
    have hvalue : '\n' ∈ write x (writeMembers xs rest) := by simpa using newline_mem_writeText hkey
    exact newline_mem_writeMembers xs (newline_mem_write x hvalue)

end

/-- **The text of a document has no line break** -/
theorem newline_notMem_render (j : Json) : '\n' ∉ j.render.toList := by
  rw [render, String.toList_ofList]
  intro h
  exact absurd (newline_mem_write j h) List.not_mem_nil

end Json

end PartitionedScan
