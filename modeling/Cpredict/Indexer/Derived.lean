import Cpredict.Indexer.Store
import Cpredict.Lib.Abi

/-!
# What the events of the protocol change

`deriveMutations` turns an event into the changes that it makes to the projections. The decoder of logs is a
parameter; an event that it does not know changes nothing.
-/

namespace Cpredict.Indexer.Memory

/-- The results of `decodeEventLog`, with the arguments that are read. -/
inductive DecodedLog
  | MarketCreated (market creator : Address) (deploymentMode creatorBond : Nat)
  | MarketInitialized (market creator : Address) (mode outcomeCount createdAt closeAt eventStartsAt outcomeDeadlineAt
      resolutionWindow marketPrimaryCap creatorBond : Nat)
  | MarketMetadataUpdated (rulesHash : Bytes32) (metadataURI : String) (resolutionSourceHash : Bytes32)
      (resolutionSourceURI : String) (closeAt eventStartsAt outcomeDeadlineAt : Nat) (creatorTreasury : Address)
      (featureFlags : Nat)
  | PrimaryPurchased (buyer : Address) (outcomeId filledUnits payment earlyBirdWeight totalPrincipal : Nat)
  | MarketResolved (winningOutcome : Nat) (evidenceHash : Bytes32)
  | MarketVoided (reason : Nat) (caller : Address) (evidenceHash : Bytes32)
  | ListingCreated (listingId : Bytes32) (vault seller : Address) (outcomeId amount unitPrice expiresAt : Nat)
  | ListingFilled (listingId : Bytes32) (buyer seller : Address)
      (filledUnits gross sellerProceeds platformFee creatorFee remainingUnits : Nat)
  | ListingCancelled (listingId : Bytes32) (seller : Address)
  | TerminalListingReturned (listingId : Bytes32) (seller caller : Address)
  | TransferSingle (source target : Address) (id value : Nat)
  | TransferBatch (source target : Address) (ids values : List Nat)
  | WinnerClaimed (owner caller : Address) (burnedUnits payout : Nat)
  | EarlyBirdClaimed (owner caller : Address) (score reward : Nat)
  | PrincipalRefunded (owner caller : Address) (burnedUnits refund : Nat)
  | TimeoutBonusClaimed (owner caller : Address) (units reward : Nat)
  | other
deriving DecidableEq

inductive TerminalKind
  | resolved
  | voidedCreator
  | voidedNoWinningSupply
  | voidedTimeout
deriving DecidableEq

inductive CloseKind
  | listingCancelled
  | terminalListingReturned
deriving DecidableEq

inductive ClaimKind
  | winner
  | earlyBird
  | principalRefund
  | timeoutBonus
deriving DecidableEq

inductive DerivedMutation
  | marketCreated (market creator : Address) (deploymentMode creatorBond : Nat)
  | marketInitialized (market creator : Address) (deploymentMode outcomeCount : Nat) (createdAt : Option Nat)
      (closeAt : Nat) (eventStartsAt outcomeDeadlineAt : Option Nat)
      (resolutionWindow marketPrimaryCap creatorBond : Nat)
  | marketMetadata (market : Address) (rulesHash : Bytes32) (metadataUri : String) (resolutionSourceHash : Bytes32)
      (resolutionSourceUri : String) (closeAt : Nat) (eventStartsAt outcomeDeadlineAt : Option Nat)
      (creatorTreasury : Address) (featureFlags : Nat)
  | primaryPurchased (market buyer : Address) (outcomeId filledUnits payment earlyBirdWeight totalPrincipal : Nat)
  | marketTerminal (market : Address) (terminalKind : TerminalKind) (caller : Option Address) (state voidReason : Nat)
      (winningOutcome : Option Nat) (evidenceHash : Option Bytes32)
  | listingCreated (listingId : Bytes32) (vault seller : Address) (outcomeId amount unitPrice expiresAt : Nat)
  | listingFilled (listingId : Bytes32) (buyer seller : Address)
      (filledUnits gross sellerProceeds platformFee creatorFee remainingUnits : Nat)
  | listingClosed (listingId : Bytes32) (closeKind : CloseKind) (seller caller : Address)
  | positionDelta (vault owner : Address) (outcomeId : Nat) (delta : Int)
  | claim (vault owner caller : Address) (claimKind : ClaimKind) (units amount : Nat)
deriving DecidableEq

/-! ## Evidence -/

def ZERO_EVIDENCE_HASH : Bytes32 := 0

def optionalEvidenceHash (hash : Bytes32) : Option Bytes32 := if hash = ZERO_EVIDENCE_HASH then none else some hash

def BASE32_ALPHABET : List Char := "abcdefghijklmnopqrstuvwxyz234567".toList

def base32Char (n : Nat) : Char := BASE32_ALPHABET.getD (n % 32) 'a'

/-- The loop over the bytes: the accumulator has 32 bits, of which the last `bits` are still to be written. -/
def base32Loop : Bytes → Nat → Nat → List Char
  | [], accumulator, bits => if 0 < bits then [base32Char (accumulator * 2 ^ (5 - bits))] else []
  | byte :: rest, accumulator, bits =>
    let accumulator := (accumulator * 2 ^ 8 + byte.toNat) % 2 ^ 32
    let bits := bits + 8
    (List.range (bits / 5)).map (fun i => base32Char (accumulator / 2 ^ (bits - 5 * (i + 1)))) ++
      base32Loop rest accumulator (bits % 5)

def base32 (bytes : Bytes) : String := String.ofList (base32Loop bytes 0 0)

def evidenceCidV1Raw (evidenceHash : Bytes32) : String :=
  "b" ++ base32 ([0x01, 0x55, 0x12, 0x20] ++ Abi.word evidenceHash)

def evidenceUriFromHash (evidenceHash : Bytes32) : Option String :=
  if evidenceHash = ZERO_EVIDENCE_HASH then none else some ("ipfs://" ++ evidenceCidV1Raw evidenceHash)

/-! ## deriveMutations -/

def terminalKind (reason : Nat) : Except ProjectionErr TerminalKind :=
  if reason = 1 then .ok .voidedCreator
  else if reason = 2 then .ok .voidedNoWinningSupply
  else if reason = 3 then .ok .voidedTimeout
  else .error (.invalidVoidReason reason)

/-- The balances that a transfer of one outcome changes. -/
def positionMutation (vault source target : Address) (outcomeId value : Nat) : List DerivedMutation :=
  (if source ≠ 0 then [.positionDelta vault source outcomeId (-(value : Int))] else []) ++
    if target ≠ 0 then [.positionDelta vault target outcomeId value] else []

def positionMutations (vault source target : Address) (ids values : List Nat) :
    Except ProjectionErr (List DerivedMutation) :=
  if ids.length ≠ values.length then .error .batchLengthMismatch
  else .ok ((ids.zip values).flatMap fun x => positionMutation vault source target x.1 x.2)

/-- A time that is zero when there is none. -/
def optionalTime (time : Nat) : Option Nat := if time = 0 then none else some time

/-- The changes of a decoded event. -/
def mutationsOf (event : IndexedEvent) : DecodedLog → Except ProjectionErr (List DerivedMutation)
  | .MarketCreated market creator deploymentMode creatorBond =>
    .ok [.marketCreated market creator deploymentMode creatorBond]
  | .MarketInitialized market creator mode outcomeCount createdAt closeAt eventStartsAt outcomeDeadlineAt
      resolutionWindow marketPrimaryCap creatorBond =>
    .ok [.marketInitialized market creator mode outcomeCount (some createdAt) closeAt (optionalTime eventStartsAt)
      (some outcomeDeadlineAt) resolutionWindow marketPrimaryCap creatorBond]
  | .MarketMetadataUpdated rulesHash metadataURI resolutionSourceHash resolutionSourceURI closeAt eventStartsAt
      outcomeDeadlineAt creatorTreasury featureFlags =>
    .ok [.marketMetadata event.address rulesHash metadataURI resolutionSourceHash resolutionSourceURI closeAt
      (optionalTime eventStartsAt) (some outcomeDeadlineAt) creatorTreasury featureFlags]
  | .PrimaryPurchased buyer outcomeId filledUnits payment earlyBirdWeight totalPrincipal =>
    .ok [.primaryPurchased event.address buyer outcomeId filledUnits payment earlyBirdWeight totalPrincipal]
  | .MarketResolved winningOutcome evidenceHash =>
    .ok [.marketTerminal event.address .resolved none 1 0 (some winningOutcome) (optionalEvidenceHash evidenceHash)]
  | .MarketVoided reason caller evidenceHash => do
    let kind ← terminalKind reason
    .ok [.marketTerminal event.address kind (some caller) 2 reason none (optionalEvidenceHash evidenceHash)]
  | .ListingCreated listingId vault seller outcomeId amount unitPrice expiresAt =>
    .ok [.listingCreated listingId vault seller outcomeId amount unitPrice expiresAt]
  | .ListingFilled listingId buyer seller filledUnits gross sellerProceeds platformFee creatorFee remainingUnits =>
    .ok [.listingFilled listingId buyer seller filledUnits gross sellerProceeds platformFee creatorFee remainingUnits]
  | .ListingCancelled listingId seller => .ok [.listingClosed listingId .listingCancelled seller seller]
  | .TerminalListingReturned listingId seller caller =>
    .ok [.listingClosed listingId .terminalListingReturned seller caller]
  | .TransferSingle source target id value => positionMutations event.address source target [id] [value]
  | .TransferBatch source target ids values => positionMutations event.address source target ids values
  | .WinnerClaimed owner caller burnedUnits payout =>
    .ok [.claim event.address owner caller .winner burnedUnits payout]
  | .EarlyBirdClaimed owner caller score reward => .ok [.claim event.address owner caller .earlyBird score reward]
  | .PrincipalRefunded owner caller burnedUnits refund =>
    .ok [.claim event.address owner caller .principalRefund burnedUnits refund]
  | .TimeoutBonusClaimed owner caller units reward =>
    .ok [.claim event.address owner caller .timeoutBonus units reward]
  | .other => .ok []

def deriveMutations (decodeEventLog : IndexedEvent → Except ProjectionErr DecodedLog) (event : IndexedEvent) :
    Except ProjectionErr (List DerivedMutation) := do
  mutationsOf event (← decodeEventLog event)

end Cpredict.Indexer.Memory
