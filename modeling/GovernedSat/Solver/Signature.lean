import GovernedSat.Text.Utf8

/-!
# Signatures of foreign solvers

A foreign solver names itself by bytes, or does not name itself at all. The bytes are meant to be
UTF-8, but nothing makes sure of it.

## Main definitions

* `signatureText` — the name as text.
-/

namespace GovernedSat

/-- The name of a foreign solver: the text of the bytes it gives, and no text if it gives none. -/
def signatureText : Option (List UInt8) → String
  | none => ""
  | some bytes => String.ofList (Utf8.decode bytes)

end GovernedSat
