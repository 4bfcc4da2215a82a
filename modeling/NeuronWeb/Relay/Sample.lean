/-
  Relay/Sample: a relay and requests to it that can be computed.

  A sample face is 128 times one number: two faces of the same whole number are the same
  person, faces of different ones are eleven apart.
-/
import NeuronWeb.Ledger.Sample
import NeuronWeb.Relay.FaceGate

set_option autoImplicit false

namespace NeuronWeb.Sample

/-- A relay with three testnet accounts a face.  The two texts of a number are those of
JavaScript for whole numbers, which the sample faces and their distances are. -/
def relayConfig : RelayConfig Rat where
  attesterPub := "a7"
  attesterPriv := "a7"
  faceMaxTestnet := 3
  toFixed4 x := toString x.num ++ ".0000"
  toFixed3 x := toString x.num ++ ".000"

def face (v : Rat) : List Rat := List.replicate 128 v

/-- A verify request with an honest hash. -/
def enrol (network : Network) (accountId : Hex) (username challengeId : String) (v : Rat) :
    VerifyRequest Rat where
  ip := "127.0.0.1"
  network
  accountId := some accountId
  username
  challengeId
  descriptor := some (face v)
  faceMapHash := Relay.computeFaceMapHash primitives relayConfig (face v)
  nullifier := none

/-- The open block of an account. -/
def openBlock (accountId : Hex) : Block Rat :=
  let L := EngineLedger.new primitives
  continuing L (header L accountId)

end NeuronWeb.Sample
