/-!
# Blanks, trimming and words

A **blank** is a character with the Unicode property `White_Space`: the ASCII controls from tab
to carriage return, the space, and seventeen characters outside ASCII. The zero-width space and
the byte order mark are not blanks. Trimming and splitting into words both use this one class.
-/

namespace HttpEngine.Text

/-- The class `White_Space`. -/
def isBlank (c : Char) : Bool :=
  let n := c.toNat
  (9 ≤ n && n ≤ 13) || n == 0x20 || n == 0x85 || n == 0xA0 || n == 0x1680 ||
    (0x2000 ≤ n && n ≤ 0x200A) || n == 0x2028 || n == 0x2029 || n == 0x202F || n == 0x205F ||
    n == 0x3000

/-- The text without its leading blanks. -/
def trimStart (cs : List Char) : List Char := cs.dropWhile isBlank

/-- The text without its trailing blanks. -/
def trimEnd (cs : List Char) : List Char := (cs.reverse.dropWhile isBlank).reverse

/-- The text without the blanks at either end. -/
def trim (cs : List Char) : List Char := trimEnd (trimStart cs)

/-- The **words** of a text: its longest runs without a blank. -/
def words (cs : List Char) : List (List Char) :=
  (cs.splitOnP isBlank).filter fun w => !w.isEmpty

@[simp] theorem trim_nil : trim [] = [] := rfl

end HttpEngine.Text
