import CadsTunnel.Words

/-! Lower case of the ASCII letters in a text, which leaves every other character alone and
the length of the text in bytes. -/
namespace CadsTunnel.AsciiCase
open Words

def lowered (text : String) : List Char := text.toList.map Char.toLower

/- `to_ascii_lowercase`. -/
def lower (text : String) : String := .ofList (lowered text)

def eqIgnoreAsciiCase (a b : String) : Bool := lowered a = lowered b

theorem lowerTwice (text : String) : lower (lower text) = lower text := by
  have twice : Char.toLower ∘ Char.toLower = Char.toLower := funext Char.toLower_toLower_eq_toLower
  rw [lower, lowered, lower, String.toList_ofList, lowered, List.map_map, twice]

theorem eqLower (a b : String) : eqIgnoreAsciiCase (lower a) b = eqIgnoreAsciiCase a b := by
  have same : lowered (lower a) = lowered a := String.ofList_injective (lowerTwice a)
  rw [eqIgnoreAsciiCase, same, eqIgnoreAsciiCase]

theorem textBytes (cs : List Char) : asBytes (.ofList cs) = cs.flatMap String.utf8EncodeChar := by
  rw [asBytes, String.toByteArray_ofList, List.utf8Encode, List.data_toByteArray]

theorem lowerSize (c : Char) : c.toLower.utf8Size = c.utf8Size := by
  rw [Char.toLower]
  split
  · rename_i upper
    have small : c.val.toNat ≤ 90 := UInt32.le_iff_toNat_le.mp upper.2
    have one : c.utf8Size = 1 := Char.utf8Size_eq_one_iff.mpr (UInt32.le_iff_toNat_le.mpr (small.trans (by decide)))
    rw [one, Char.utf8Size_eq_one_iff, UInt32.le_iff_toNat_le, UInt32.toNat_add]
    change (c.val.toNat + 32) % 4294967296 ≤ 127
    omega
  · rfl

theorem lowerLength (text : String) : (asBytes (lower text)).length = (asBytes text).length := by
  rw [← @String.ofList_toList text, lower, textBytes, textBytes, lowered, String.toList_ofList, List.flatMap_map]
  simp only [List.length_flatMap, String.length_utf8EncodeChar, lowerSize]

end CadsTunnel.AsciiCase
