/-! Blank characters: trimming a text and cutting it into words. -/

namespace StepSequencer

/-- The spaces of every script, tabs, line ends and the control separators. -/
def isBlank (c : Char) : Bool :=
  let n := c.toNat
  (0x09 ≤ n && n ≤ 0x0D) || (0x1C ≤ n && n ≤ 0x20) || n == 0x85 || n == 0xA0 || n == 0x1680 ||
    (0x2000 ≤ n && n ≤ 0x200A) || n == 0x2028 || n == 0x2029 || n == 0x202F || n == 0x205F ||
    n == 0x3000

/-- The text without the characters of one class at either end. -/
def trimBy (p : Char → Bool) (text : List Char) : List Char :=
  ((text.dropWhile p).reverse.dropWhile p).reverse

def trim (text : List Char) : List Char := trimBy isBlank text

def words (text : List Char) : List (List Char) :=
  (text.splitOnP isBlank).filter (!·.isEmpty)

theorem length_dropWhile_le (p : Char → Bool) (text : List Char) :
    (text.dropWhile p).length ≤ text.length := by
  induction text with
  | nil => simp
  | cons c rest ih =>
    simp only [List.dropWhile_cons]
    split
    · exact Nat.le_succ_of_le ih
    · simp

theorem length_trim_le (text : List Char) : (trim text).length ≤ text.length := by
  have h := length_dropWhile_le isBlank (text.dropWhile isBlank).reverse
  have k := length_dropWhile_le isBlank text
  simp only [trim, trimBy, List.length_reverse] at h ⊢
  omega

end StepSequencer
