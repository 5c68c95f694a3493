import SolcDispatch.Text.TextLike

/-! Wide texts as scripts handle them: put together, measured in units of two bytes, and told
apart from texts of characters. -/

namespace SolcDispatch.Wide

instance : Coe String Wide := ⟨TextLike.ofString⟩

/-- Halves of a pair that come to stand side by side make a character. -/
instance : Append Wide := ⟨fun s t => ofCodes (s.codes ++ t.codes)⟩

def join (separator : Wide) (texts : List Wide) : Wide :=
  ofCodes (separator.codes.intercalate (texts.map codes))

/-- How many units of two bytes a text has. -/
def unitCount (t : Wide) : Nat :=
  t.codes.foldl (fun count n => if n < 0x10000 then count + 1 else count + 2) 0

end SolcDispatch.Wide
