/-!
# Words

A text is split at blank characters, those with the Unicode property White_Space. A word is
never empty and holds no blank.
-/

namespace LockingScript.Text

/-- The code points with the property White_Space, as ranges. -/
def blankRanges : List (Nat × Nat) :=
  [(0x0009, 0x000d), (0x0020, 0x0020), (0x0085, 0x0085), (0x00a0, 0x00a0), (0x1680, 0x1680),
   (0x2000, 0x200a), (0x2028, 0x2029), (0x202f, 0x202f), (0x205f, 0x205f), (0x3000, 0x3000)]

def isBlank (c : Char) : Bool :=
  blankRanges.any fun r => r.1 ≤ c.toNat && c.toNat ≤ r.2

def words (text : List Char) : List (List Char) :=
  (text.splitOnP isBlank).filter (! ·.isEmpty)

@[simp] theorem words_nil : words [] = [] := by simp [words]

theorem words_append_blank {a b : List Char} {c : Char} (h : isBlank c = true) :
    words (a ++ c :: b) = words a ++ words b := by
  simp [words, List.splitOnP_append_cons _ _ h]

/-- A text without blanks is one word. -/
theorem words_of_forall_not_blank {a : List Char} (h : ∀ c ∈ a, isBlank c = false) (ne : a ≠ []) :
    words a = [a] := by
  simp [words, List.splitOnP_eq_singleton h, ne]

/-- The text without the blanks at either end. -/
def trim (text : List Char) : List Char :=
  ((text.dropWhile isBlank).reverse.dropWhile isBlank).reverse

end LockingScript.Text
