import Mathlib.Data.List.DropRight

/-! White space at the ends of a text. -/
namespace Maestro.Text

/-- Unicode's `White_Space`. -/
def isWhiteSpace (c : Char) : Bool :=
  let n := c.toNat
  (9 ≤ n && n ≤ 13) || n == 32 || n == 0x85 || n == 0xA0 || n == 0x1680 || (0x2000 ≤ n && n ≤ 0x200A) ||
    n == 0x2028 || n == 0x2029 || n == 0x202F || n == 0x205F || n == 0x3000

/-- `trim().is_empty()`. -/
def blank (text : String) : Bool := text.toList.all isWhiteSpace

def trim (text : String) : String := String.ofList ((text.toList.dropWhile isWhiteSpace).rdropWhile isWhiteSpace)

variable {text : String}

theorem trimInfix : (trim text).toList <:+: text.toList := by
  rw [trim, String.toList_ofList]
  exact (List.rdropWhile_prefix isWhiteSpace _).isInfix.trans (List.dropWhile_suffix isWhiteSpace).isInfix

theorem trimFree (free : ∀ c ∈ text.toList, isWhiteSpace c = false) : trim text = text := by
  have starts : text.toList.dropWhile isWhiteSpace = text.toList := by
    rw [List.dropWhile_eq_self_iff]
    intro nonempty white
    rw [free _ (List.getElem_mem nonempty)] at white
    cases white
  have ends : text.toList.rdropWhile isWhiteSpace = text.toList := by
    rw [List.rdropWhile_eq_self_iff]
    intro nonempty white
    rw [free _ (List.getLast_mem nonempty)] at white
    cases white
  rw [trim, starts, ends, String.ofList_toList]

end Maestro.Text
