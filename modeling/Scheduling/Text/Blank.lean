/-!
# Blanks

The characters that Unicode counts as white space, trimming and words.
-/

namespace Scheduling.Text

/-- The characters with the Unicode property `White_Space`. -/
def isBlank (c : Char) : Bool :=
  let n := c.toNat
  (9 ≤ n && n ≤ 13) || n == 0x20 || n == 0x85 || n == 0xa0 || n == 0x1680
    || (0x2000 ≤ n && n ≤ 0x200a) || n == 0x2028 || n == 0x2029 || n == 0x202f
    || n == 0x205f || n == 0x3000

def trim (s : List Char) : List Char :=
  ((s.dropWhile isBlank).reverse.dropWhile isBlank).reverse

/-- The number of words from here on, where `inside` says that a word is going on. -/
def wordsAfter (inside : Bool) : List Char → Nat
  | [] => 0
  | c :: rest =>
    if isBlank c then wordsAfter false rest
    else if inside then wordsAfter true rest
    else wordsAfter true rest + 1

/-- The number of longest runs of characters that are no blanks. -/
def wordCount (s : List Char) : Nat :=
  wordsAfter false s

end Scheduling.Text
