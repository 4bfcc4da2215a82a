/-
  Relay/Trajectory: judging a recovery performance (`core/recovery-challenge.ts`).

  `verifyTrajectory` looks at the JSON value that a client sent.  It rejects with the rule
  that was missed, and it throws where a rejection would write a value into its text that
  brings a `toString` of its own.
-/
import NeuronWeb.Network.FileLookup

set_option autoImplicit false

namespace NeuronWeb

variable {F : Type} [JsNumber F]

/-! ## Descriptors -/

/-- The elements of a JSON array of numbers. -/
def Json.asNumbers : Option (Json F) → Option (List F)
  | some (.arr items) => items.mapM fun v => asNumber (some v)
  | _ => none

/-- `typeof v === 'number' && Number.isFinite(v) && v > -2 && v < 2`, for 128 numbers. -/
def validDescriptor (d : List F) : Bool :=
  d.length == 128 && d.all fun v =>
    JsNumber.isFinite v && JsNumber.lt (JsNumber.ofInt (-2)) v && JsNumber.lt v (JsNumber.ofInt 2)

/-- The descriptor at a field, when it is a valid one. -/
def descriptorOf (v : Option (Json F)) : Option (List F) :=
  (Json.asNumbers v).filter validDescriptor

/-- Euclidean distance. -/
def dist (a b : List F) : F :=
  JsNumber.sqrt ((a.zip b).foldl
    (fun s e => JsNumber.add s (JsNumber.pow (JsNumber.sub e.1 e.2) (JsNumber.ofInt 2)))
    (JsNumber.ofInt 0))

/-! ## The draw -/

def RECOVERY_ACTIONS : List String :=
  ["smile", "mouth-open", "raise-brows", "look-left", "look-right"]

def RECOVERY_SEQUENCE_LENGTH : Nat := 3

/-- Distinct actions, each taken out of the pool at the index that the generator gives. -/
def drawFrom : List String → List Nat → List String
  | _, [] => []
  | pool, i :: rest =>
    match pool[i]? with
    | some action => action :: drawFrom (pool.eraseIdx i) rest
    | none => []

/-- `drawRecoverySequence()`; `rolls` are the values of `Math.floor(rng() * pool.length)`. -/
def drawRecoverySequence (rolls : List Nat) : List String :=
  drawFrom RECOVERY_ACTIONS (rolls.take RECOVERY_SEQUENCE_LENGTH)

/-! ## The verdict -/

inductive TrajectoryVerdict where
  | ok
  | rejected (reason : String)
  /-- The text of a rejection throws. -/
  | throws
  deriving DecidableEq, Repr

/-- `MIN_ACTION_RATIO`. -/
def MIN_ACTION_RATIO : F := JsNumber.div (JsNumber.ofInt 9) (JsNumber.ofInt 10)

def MIN_ACTION_GAP_MS : Int := 300
def MIN_TOTAL_MS : Int := 1500
def MAX_TOTAL_MS : Int := 10 * 60 * 1000

/-- `DESCRIPTOR_MAX_PAIRWISE`. -/
def DESCRIPTOR_MAX_PAIRWISE : F := JsNumber.div (JsNumber.ofInt 45) (JsNumber.ofInt 100)

/-- `DESCRIPTOR_MIN_PAIRWISE`. -/
def DESCRIPTOR_MIN_PAIRWISE : F := JsNumber.div (JsNumber.ofInt 1) (JsNumber.ofInt 1000)

/-- `!v`. -/
def Json.falsy : Json F → Bool
  | .null => true
  | .bool b => !b
  | .int n => n == 0
  | .num x => JsNumber.same x (JsNumber.ofInt 0) || !JsNumber.same x x
  | .str s => s == ""
  | _ => false

/-- A value as a template writes it. -/
def Json.written : Option (Json F) → Option String
  | none => some "undefined"
  | some v => Json.toText v

/-- A rejection whose text holds a value of the proof. -/
def rejectedWith (value : Option (Json F)) (text : String → String) : TrajectoryVerdict :=
  match Json.written value with
  | some s => .rejected (text s)
  | none => .throws

/-- `proof.actions?.length ?? 0`. -/
def lengthOf : Option (Json F) → Option (Json F)
  | some (.arr items) => some (.int items.length)
  | some (.str s) => some (.int (utf16Length s))
  | some v =>
    match v.property "length" with
    | none => some (.int 0)
    | some .null => some (.int 0)
    | length => length
  | none => some (.int 0)

/-- One action of the proof against the one that was demanded. -/
def checkAction (i : Nat) (demanded : String) (p : Json F) : Option TrajectoryVerdict :=
  let action := p.property "action"
  if p.falsy || Json.asString action ≠ some demanded then
    some (rejectedWith action fun s =>
      "action " ++ toString i ++ " is '" ++ s ++ "', challenge demanded '" ++ demanded ++ "'")
  else
    let ratio := p.property "ratio"
    match (Json.asNumber ratio).filter fun r =>
        JsNumber.isFinite r && !JsNumber.lt r MIN_ACTION_RATIO with
    | none => some (rejectedWith ratio fun s =>
      "action '" ++ demanded ++ "' ratio " ++ s ++ " below 0.9")
    | some _ =>
      match (Json.asNumber (p.property "t")).filter JsNumber.isFinite with
      | none => some (.rejected ("action '" ++ demanded ++ "' has no timestamp"))
      | some _ =>
        match descriptorOf (p.property "descriptor") with
        | none => some (.rejected ("action '" ++ demanded ++ "' descriptor malformed"))
        | some _ => none

/-- The loop over the actions: the first verdict against one. -/
def checkActions : Nat → List String → List (Json F) → Option TrajectoryVerdict
  | i, demanded :: sequence, p :: actions =>
    (checkAction i demanded p).or (checkActions (i + 1) sequence actions)
  | _, _, _ => none

/-- `${x}` of a number. -/
def numberText (x : F) : String := JsNumber.toText x

/-- Strictly increasing, humanly spaced. -/
def checkPacing : Nat → List F → Option TrajectoryVerdict
  | i, t :: t' :: rest =>
    let gap := JsNumber.sub t' t
    if JsNumber.lt gap (JsNumber.ofInt MIN_ACTION_GAP_MS) then
      some (.rejected ("actions " ++ toString i ++ "→" ++ toString (i + 1) ++ " only " ++
        numberText gap ++ "ms apart (min " ++ toString MIN_ACTION_GAP_MS ++ ")"))
    else checkPacing (i + 1) (t' :: rest)
  | _, _ => none

/-- Humanly bounded. -/
def checkTotal (times : List F) : Option TrajectoryVerdict :=
  match times.head?, times.getLast? with
  | some first, some last =>
    let total := JsNumber.sub last first
    if JsNumber.lt total (JsNumber.ofInt MIN_TOTAL_MS) then
      some (.rejected ("whole sequence in " ++ numberText total ++ "ms (min " ++
        toString MIN_TOTAL_MS ++ ")"))
    else if JsNumber.lt (JsNumber.ofInt MAX_TOTAL_MS) total then
      some (.rejected ("sequence took " ++ numberText total ++ "ms (max " ++
        toString MAX_TOTAL_MS ++ ")"))
    else none
  | _, _ => none

/-- One pair of descriptors; `toFixed3` is `d.toFixed(3)`. -/
def checkPair (toFixed3 : F → String) (i j : Nat) (a b : List F) : Option TrajectoryVerdict :=
  let d := dist a b
  if JsNumber.lt DESCRIPTOR_MAX_PAIRWISE d then
    some (.rejected ("descriptors " ++ toString i ++ "/" ++ toString j ++ " are " ++ toFixed3 d ++
      " apart — not one person"))
  else if JsNumber.lt d DESCRIPTOR_MIN_PAIRWISE then
    some (.rejected ("descriptors " ++ toString i ++ "/" ++ toString j ++
      " are byte-identical — replayed frame"))
  else none

/-- Same-person consistency across every two descriptors of the packet. -/
def checkPairs (toFixed3 : F → String) (all : List (List F)) : Option TrajectoryVerdict :=
  let numbered := all.zipIdx
  (numbered.flatMap fun a => (numbered.drop (a.2 + 1)).map fun b => (a, b)).findSome? fun pair =>
    checkPair toFixed3 pair.1.2 pair.2.2 pair.1.1 pair.2.1

/-- The actions of a proof. -/
def actionsOf (proof : Json F) : List (Json F) :=
  match proof.property "actions" with
  | some (.arr items) => items
  | _ => []

/-- `[proof.neutralDescriptor, ...proof.actions.map((a) => a.descriptor)]`. -/
def descriptorsOf (proof : Json F) : List (List F) :=
  (descriptorOf (proof.property "neutralDescriptor")).toList ++
    (actionsOf proof).filterMap fun p => descriptorOf (p.property "descriptor")

/-- Judge a proof against the sequence that was drawn. -/
def verifyTrajectory (toFixed3 : F → String) (sequence : List String) (proof : Json F) :
    TrajectoryVerdict :=
  match descriptorOf (proof.property "neutralDescriptor") with
  | none => .rejected "neutral descriptor missing or malformed"
  | some _ =>
    match proof.property "actions" with
    | some (.arr actions) =>
      if actions.length ≠ sequence.length then
        .rejected ("expected " ++ toString sequence.length ++ " action proofs, got " ++
          toString actions.length)
      else
        let times := actions.filterMap fun p => Json.asNumber (p.property "t")
        ((checkActions 0 sequence actions).or
          ((checkPacing 0 times).or
            ((checkTotal times).or
              (checkPairs toFixed3 (descriptorsOf proof))))).getD .ok
    | actions => rejectedWith (lengthOf actions) fun s =>
      "expected " ++ toString sequence.length ++ " action proofs, got " ++ s

end NeuronWeb
