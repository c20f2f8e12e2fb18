import Mathlib.Data.List.Basic
import Mathlib.Data.BitVec

/-!
The data of the validator: claims, tasks, the two persisted files, and the logs it reads.

A `uint256` or `bytes32` is a `Word`, big-endian. The `u64` and `u32` values are natural
numbers; where an addition or a cast of the code can leave its type, `u64` and `u32` reduce
the result as the release build does. A sum on a block number is not reduced: the code adds 2000 to
one at most, and the blocks of a chain are taken to be below `2 ^ 64 - 2000`.
-/

namespace VeaValidator

abbrev Word := BitVec 256
abbrev Address := BitVec 160

def u64 (n : ℕ) : ℕ := n % 2 ^ 64
def u32 (n : ℕ) : ℕ := n % 2 ^ 32

/-- The low 20 bytes of a topic, as `Address::from_slice(&topic.0[12..])`. -/
def Word.address (w : Word) : Address := w.setWidth 160

inductive Party
  | none | claimer | challenger
  deriving DecidableEq

/-- The `Claim` struct of the contracts. -/
structure Claim where
  stateRoot : Word
  claimer : Address
  timestampClaimed : ℕ
  timestampVerification : ℕ
  blocknumberVerification : ℕ
  honest : Party
  challenger : Address
  deriving DecidableEq

/-- The payload of an `ExecuteRelay` task. -/
structure Relay where
  position : Word
  l2Sender : Address
  destAddr : Address
  l2Block : ℕ
  l1Block : ℕ
  l2Timestamp : ℕ
  amount : Word
  data : List UInt8
  deriving DecidableEq

inductive TaskKind
  | saveSnapshot
  | claim (stateRoot : Word)
  | validateClaim
  | challenge
  | sendSnapshot
  | startVerification
  | verifySnapshot
  | executeRelay (relay : Relay)
  | withdrawDeposit
  deriving DecidableEq

/-- The names `TaskKind::name` gives, which the stores compare. -/
inductive KindName
  | saveSnapshot | claim | validateClaim | challenge | sendSnapshot | startVerification
  | verifySnapshot | executeRelay | withdrawDeposit
  deriving DecidableEq

def TaskKind.name : TaskKind → KindName
  | .saveSnapshot => .saveSnapshot
  | .claim _ => .claim
  | .validateClaim => .validateClaim
  | .challenge => .challenge
  | .sendSnapshot => .sendSnapshot
  | .startVerification => .startVerification
  | .verifySnapshot => .verifySnapshot
  | .executeRelay _ => .executeRelay
  | .withdrawDeposit => .withdrawDeposit

lemma TaskKind.eq_validateClaim {k : TaskKind} (h : k.name = .validateClaim) :
    k = .validateClaim := by
  cases k <;> first | rfl | cases h

lemma TaskKind.eq_challenge {k : TaskKind} (h : k.name = .challenge) : k = .challenge := by
  cases k <;> first | rfl | cases h

lemma TaskKind.eq_startVerification {k : TaskKind} (h : k.name = .startVerification) :
    k = .startVerification := by
  cases k <;> first | rfl | cases h

structure Task where
  epoch : ℕ
  executeAfter : ℕ
  kind : TaskKind
  deriving DecidableEq

/-- What `remove_task` and `reschedule_task` identify a task by. -/
def Task.key (t : Task) : ℕ × KindName := (t.epoch, t.kind.name)

/-- The schedule file of a route. -/
structure RouteState where
  inboxLastBlock : Option ℕ := none
  outboxLastBlock : Option ℕ := none
  tasks : List Task := []
  indexingSince : Option ℕ := none
  onSync : Bool := false
  lastSavedCount : Option ℕ := none
  deriving DecidableEq

/-- One entry of the claims file of a route. -/
structure ClaimData where
  epoch : ℕ
  stateRoot : Word
  claimer : Address
  timestampClaimed : ℕ
  timestampVerification : ℕ
  blocknumberVerification : ℕ
  honest : String
  challenger : Address
  deriving DecidableEq

/-! ### Logs -/

/-- A log as an RPC node returns it; the first topic is the hash of the event signature. -/
structure Log where
  topics : List Word
  data : List UInt8
  blockNumber : Option ℕ
  blockTimestamp : Option ℕ
  transactionHash : Option Word
  deriving DecidableEq

def ofBytes (bs : List UInt8) : Word := BitVec.ofNat 256 (bs.foldl (fun n b => 256 * n + b.toNat) 0)

/-- The 32 bytes of the data from `i` on, when there are that many. -/
def Log.word (l : Log) (i : ℕ) : Option Word :=
  if l.data.length < i + 32 then none else some (ofBytes ((l.data.drop i).take 32))

/-- `keccak256("SnapshotSent(uint256,bytes32)")` -/
def sigSnapshotSent : Word :=
  0x6fdd49f435101fc7b6ebdec7c8972932a926d18f6cb78a8891dfe950743b6b82#256

/-- `keccak256("SnapshotSaved(bytes32,uint256,uint64)")` -/
def sigSnapshotSaved : Word :=
  0x592424eb1d6135501bd20833f15fd127c29d08eed4f03872f6f75182126b1e48#256

/-- `keccak256("Claimed(address,uint256,bytes32)")` -/
def sigClaimed : Word :=
  0xd95107f4584744c6c893a04c43058aadd1ce8aac8ca5d64140eaf277de6c1d57#256

/-- `keccak256("VerificationStarted(uint256)")` -/
def sigVerificationStarted : Word :=
  0x37b700b61b9b4710dddb0c3316b2be7ef6088ed4b1d7bfe0fb98be8f9a163e16#256

/-- `keccak256("Challenged(uint256,address)")` -/
def sigChallenged : Word :=
  0xcfe09ca25f55d949baba5e280f5750c9ba4b9048fca5532f916067d433afe4d7#256

/-- `keccak256("Verified(uint256)")` -/
def sigVerified : Word :=
  0xf786e7f77ede00a02a5464f8f0555798f42ba99a4a920ef2778db8d75e4656f7#256

/-- `keccak256` of the signature of `SequencerBatchDelivered`. -/
def sigSequencerBatchDelivered : Word :=
  0x7394f4a19a13c7b92b5bb71033245305946ef78452f7b4986ac1390b5df4ebd7#256

/-- What `log_decode` makes of a log that is an `L2ToL1Tx` event. -/
structure L2ToL1Tx where
  caller : Address
  destination : Address
  hash : Word
  position : Word
  arbBlockNum : Word
  ethBlockNum : Word
  timestamp : Word
  callvalue : Word
  data : List UInt8
  deriving DecidableEq

structure ReceiptLog where
  address : Address
  l2ToL1Tx : Option L2ToL1Tx
  deriving DecidableEq

structure Receipt where
  blockNumber : Option ℕ
  logs : List ReceiptLog
  deriving DecidableEq

/-- The header fields of a block that the validator reads. -/
structure Header where
  number : ℕ
  timestamp : ℕ
  deriving DecidableEq

inductive ScanTarget
  | inbox | outbox
  deriving DecidableEq

end VeaValidator
