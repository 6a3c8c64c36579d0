import TerraDoc.Text.Line
import TerraDoc.Text.Utf8

namespace TerraDoc.Text

def ofBytes (bytes : List UInt8) : List Char :=
  bytes.map fun b => Char.ofNat b.toNat

def toBytes (text : List Char) : List UInt8 :=
  text.map fun c => c.toNat.toUInt8

/-- The lines of a file; `none` stands for one that is not in UTF-8. -/
def fileLines (content : List UInt8) : List (Option (List Char)) :=
  (lines (ofBytes content)).map fun line => Utf8.decode? (toBytes line)

end TerraDoc.Text
