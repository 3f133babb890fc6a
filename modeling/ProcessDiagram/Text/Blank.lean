/-!
Characters that count as blank around a written number: the white space of Unicode.
-/
namespace ProcessDiagram.Text

def isBlank (c : Char) : Bool :=
  [0x20, 0x85, 0xa0, 0x1680, 0x2028, 0x2029, 0x202f, 0x205f, 0x3000].contains c.toNat
    || decide (0x09 ≤ c.toNat ∧ c.toNat ≤ 0x0d)
    || decide (0x2000 ≤ c.toNat ∧ c.toNat ≤ 0x200a)

/-- Drops the blanks from both ends. -/
def trim (s : List Char) : List Char :=
  ((s.dropWhile isBlank).reverse.dropWhile isBlank).reverse

theorem isBlank_of_isWhitespace {c : Char} (h : c.isWhitespace = true) : isBlank c = true := by
  simp only [Char.isWhitespace, Bool.or_eq_true, decide_eq_true_eq] at h
  rcases h with ((rfl | rfl) | rfl) | rfl <;> decide

end ProcessDiagram.Text
