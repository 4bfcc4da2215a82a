/-
  Directory/Sample: account records that can be computed.
-/
import NeuronWeb.Directory.Records
import NeuronWeb.Sample

set_option autoImplicit false

namespace NeuronWeb.Sample

/-- The texts of the samples: whole numbers, and ASCII. -/
def jsText : JsText Rat where
  parse s := (s.toInt?.getD 0 : Int)
  trim s := String.ofList
    (((s.toList.dropWhile Char.isWhitespace).reverse.dropWhile Char.isWhitespace).reverse)
  toLowerCase s := String.ofList (s.toList.map Char.toLower)

/-- A record that its account has signed. -/
def signedRecord (pub username : String) (createdAt version : Int) (linkedAnchor : String) :
    Json Rat :=
  let signed := [("pub", .str pub), ("username", .str username), ("createdAt", .int createdAt),
    ("faceMapHash", .str "f")]
  let payload := (accountRecordPayload (.obj signed)).getD ""
  .obj (signed ++ [("_sig", .str (signature payload pub)), ("_version", .int version),
    ("linkedAnchor", .str linkedAnchor)])

end NeuronWeb.Sample
