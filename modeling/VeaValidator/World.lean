import VeaValidator.Types
import VeaValidator.Coop.System

/-!
The world a route runs in: its two files, the memory of its indexer, the questions it asks
the nodes, and the panics it can end with.

The validator's functions are cooperative programs on this world. A suspension point is an
`.await` on a node or on a timer; everything between two of them runs alone.
-/

namespace VeaValidator

open Coop

/-- The nodes a route talks to. -/
inductive Provider
  | inbox | outbox | ethereum
  deriving DecidableEq

inductive BlockNumberOrTag
  | latest | finalized
  | number (n : ℕ)
  deriving DecidableEq

/-- The filter of an `eth_getLogs` call. -/
structure Filter where
  address : Address
  eventSignature : List Word
  topic1 : Option Word := none
  fromBlock : ℕ
  toBlock : ℕ
  deriving DecidableEq

/-- The transactions the validator sends. -/
inductive Tx
  | saveSnapshot
  | claim (epoch : ℕ) (stateRoot : Word) (value : Option ℕ)
  | challenge (epoch : ℕ) (claim : Claim) (value : Option ℕ)
  | sendSnapshot (epoch : ℕ) (gasLimit : Option ℕ) (claim : Claim)
  | startVerification (epoch : ℕ) (claim : Claim)
  | verifySnapshot (epoch : ℕ) (claim : Claim)
  | withdrawClaimDeposit (epoch : ℕ) (claim : Claim)
  | withdrawChallengeDeposit (epoch : ℕ) (claim : Claim)
  | executeTransaction (proof : List Word) (relay : Relay)
  deriving DecidableEq

/-- What the validator waits for. -/
inductive Query
  | sleep (secs : ℕ)
  | blockNumber (p : Provider)
  | blockByNumber (p : Provider) (n : BlockNumberOrTag)
  | logs (p : Provider) (f : Filter)
  | transactionByHash (hash : Word)
  | transactionReceipt (hash : Word)
  | epochPeriod
  | snapshots (epoch : ℕ)
  | count
  | claimHashes (epoch : ℕ)
  | stateRoot
  | deposit
  | wethBalance (owner : Address)
  | ethBalance (owner : Address)
  | findBatchContainingBlock (block : ℕ)
  | isSpent (position : Word)
  | sendMerkleTreeState
  | constructOutboxProof (size leaf : ℕ)
  | roots (root : Word)
  | send (tx : Tx)
  deriving DecidableEq

/-- What a call returns when it succeeds. A `send` is a whole `send_tx`, receipt included; a
transaction is answered by its signer, `epochPeriod` by its value as a `u64`. -/
@[reducible] def Query.Result : Query → Type
  | .sleep _ => Unit
  | .blockNumber _ => ℕ
  | .blockByNumber _ _ => Option Header
  | .logs _ _ => List Log
  | .transactionByHash _ => Option Address
  | .transactionReceipt _ => Option Receipt
  | .epochPeriod => ℕ
  | .snapshots _ => Word
  | .count => ℕ
  | .claimHashes _ => Word
  | .stateRoot => Word
  | .deposit => ℕ
  | .wethBalance _ => ℕ
  | .ethBalance _ => ℕ
  | .findBatchContainingBlock _ => ℕ
  | .isSpent _ => Bool
  | .sendMerkleTreeState => ℕ
  | .constructOutboxProof _ _ => List Word × Word
  | .roots _ => Word
  | .send _ => Unit

/-- Every call can fail instead, with an error text. -/
@[reducible] def Query.Answer (q : Query) : Type := Except String q.Result

/-- The panics of a route. -/
inductive Panic
  /-- Duplicate claim for epoch {} - this should never happen -/
  | duplicateClaim (epoch : ℕ)
  /-- Cannot update claim for epoch {} - not found -/
  | cannotUpdateClaim (epoch : ℕ)
  /-- No claim found for epoch {} -/
  | noClaimFound (epoch : ℕ)
  /-- Multiple claims ({}) for epoch {} - impossible state -/
  | multipleClaims (epoch : ℕ)
  /-- {} for epoch {} but claim not found - this is a bug -/
  | claimNotFound (epoch : ℕ)
  /-- Cannot withdraw - honest party not determined for epoch {} -/
  | honestNotDetermined (epoch : ℕ)
  /-- Unknown route: {} -/
  | unknownRoute (name : String)
  /-- {}_last_block not set -/
  | lastBlockNotSet (target : ScanTarget)
  /-- A `U256` that does not fit the integer it is converted to. -/
  | uintConversion
  /-- Block {} not found -/
  | blockNotFound (block : BlockNumberOrTag)
  /-- Failed to get block {} after 3 attempts: {} -/
  | failedToGetBlock (block : BlockNumberOrTag) (e : String)
  /-- The end of the retry loop of `get_block_with_retry`. -/
  | unreachable
  /-- An `expect` on a missing value or a failed call. -/
  | expect (msg : String)
  /-- called `Option::unwrap()` on a `None` value -/
  | unwrapNone
  /-- attempt to divide by zero -/
  | divideByZero
  /-- Failed to read {} file: {} -/
  | failedToRead (file e : String)
  /-- FATAL: Failed to save snapshot for epoch {}: {} -/
  | failedToSave (epoch : ℕ) (e : String)
  /-- FATAL: Failed to claim epoch {}: {} -/
  | failedToClaim (epoch : ℕ) (e : String)
  deriving DecidableEq

/-- What the watcher of the epochs does, in a turn of its loop at `now`. -/
inductive Watch
  /-- The time of the head has been read. -/
  | observed (now : ℕ)
  /-- `save_snapshot::execute` is called. -/
  | saving (epoch now : ℕ)
  /-- Checking claim -/
  | claiming (epoch now : ℕ)
  /-- The result of `claim::execute`. -/
  | claimed (epoch now : ℕ) (result : Except String Unit)
  deriving DecidableEq

/-- What a route writes to its log, as far as the development speaks of it. -/
inductive Obs
  | scheduling (task : Task)
  | rescheduling (task : Task) (executeAfter : ℕ)
  | invalidated (epoch removed : ℕ)
  | executing (task : Task)
  /-- The result of a task's body. -/
  | returned (task : Task) (result : Except String Unit)
  | completed (task : Task)
  /-- The handler of a log has returned. -/
  | handled (target : ScanTarget) (log : Log)
  /-- All logs of a chunk have been handled and the cursor moves to its end. -/
  | scanned (target : ScanTarget) (fromBlock toBlock : ℕ) (logs : List Log)
  | initializedSync (indexingSince inboxStart outboxStart : ℕ)
  | watch (line : Watch)
  deriving DecidableEq

/-- The three atomics of a chain's catch-up. -/
structure Catchup where
  start : ℕ := 0
  target : ℕ := 0
  lastLoggedPct : ℕ := 0
  deriving DecidableEq

/-- The heights of the chains, which only the environment moves. -/
structure Heads where
  inbox : ℕ
  outbox : ℕ
  ethereum : ℕ
  deriving DecidableEq

def Heads.get (h : Heads) : Provider → ℕ
  | .inbox => h.inbox
  | .outbox => h.outbox
  | .ethereum => h.ethereum

structure World where
  /-- The schedule file. -/
  schedule : RouteState := {}
  /-- The claims file. -/
  claims : List ClaimData := []
  inboxCatchup : Catchup := {}
  outboxCatchup : Catchup := {}
  /-- The log, newest entry first. -/
  log : List Obs := []
  heads : Heads := ⟨0, 0, 0⟩
  deriving DecidableEq

abbrev M := Prog World Panic Query.Answer

/-- Code that may fail with an error text. -/
abbrev Fallible := ExceptT String M

/-- One more line in the log. -/
def World.note (w : World) (o : Obs) : World := { w with log := o :: w.log }

def info (o : Obs) : M Unit := Prog.modify (·.note o)

def sleep (secs : ℕ) : M Unit := do
  let _ ← Prog.ask (A := Query.Answer) (.sleep secs)

/-- A call whose failure is handed on with `?`. -/
def rpc (q : Query) : Fallible q.Result := ExceptT.mk (Prog.ask q)

/-- `Option::expect` -/
def expectSome {α : Type} (msg : String) : Option α → M α
  | some a => pure a
  | none => .panic (.expect msg)

/-- `Result::expect` -/
def expectOk {α : Type} (msg : String) : Except String α → M α
  | .ok a => pure a
  | .error _ => .panic (.expect msg)

/-- `U256::to::<u64>` -/
def toU64 (w : Word) : M ℕ :=
  if w.toNat < 2 ^ 64 then pure w.toNat else .panic .uintConversion

/-! ### Configuration -/

structure RouteSettings where
  relayDelaySecs : ℕ
  startVerificationDelay : ℕ
  minChallengePeriod : ℕ
  syncLookbackSecs : ℕ
  deriving DecidableEq

/-- What a route's tasks and indexer read of `Route` and `ValidatorConfig`. -/
structure Route where
  name : String
  inboxAddress : Address
  outboxAddress : Address
  wethAddress : Option Address
  sequencerInbox : Option Address
  walletAddress : Address
  settings : RouteSettings
  deriving DecidableEq

/-! ### Waiting -/

/-- A query that changes nothing on chain. -/
def Query.Passive : Query → Prop
  | .send _ => False
  | _ => True

/-- A panic over an answer of a node. -/
def Panic.OfAnswer : Panic → Prop
  | .uintConversion | .blockNotFound _ | .failedToGetBlock _ _ | .expect _ => True
  | _ => False

variable {ι α : Type} {P : Protocol ι World Panic Query.Answer} {i : ι} {s : World}

/-- Role `i` can wait for the nodes without giving up `J`. -/
structure Patient (P : Protocol ι World Panic Query.Answer) (i : ι) (J : World → Prop) :
    Prop where
  rely : ∀ s t, J s → P.rely i s t → P.inv t → J t
  issue : ∀ q s, q.Passive → P.inv s → J s → P.issue i q s
  fault : ∀ e s, e.OfAnswer → P.inv s → J s → P.fault i e s

/-- The rules of a program that writes nothing, sends nothing and panics only over an
answer. -/
abbrev Protocol.quiet : Protocol Unit World Panic Query.Answer :=
  .loose (fun _ _ => False) (fun q _ => q.Passive) fun e _ => e.OfAnswer

abbrev Quiet (p : M α) : Prop := Prog.Keeps Protocol.quiet () (fun _ => True) p

namespace Quiet

lemma panic {e : Panic} (h : e.OfAnswer) : Quiet (.panic e : M α) :=
  Prog.Keeps.panic fun _ _ _ => h

lemma ask {q : Query} (h : q.Passive) : Quiet (Prog.ask (A := Query.Answer) q) :=
  Prog.Keeps.ask (fun _ _ _ _ _ => trivial) fun _ _ _ => h

lemma rpc {q : Query} (h : q.Passive) : Quiet (rpc q).run := ask h

lemma sleep {n : ℕ} : Quiet (sleep n) :=
  Prog.Keeps.bind (ask trivial) fun _ => Prog.Keeps.pure

end Quiet

lemma quiet_toU64 (w : Word) : Quiet (toU64 w) := by
  unfold toU64
  split
  · exact Prog.Keeps.pure
  · exact Quiet.panic trivial

namespace Patient

variable {J : World → Prop}

lemma keeps (h : Patient P i J) {p : M α} (hp : Quiet p) : Prog.Keeps P i J p :=
  .of_loose hp h.rely (fun _ _ _ _ hG => hG.elim) (fun q s hI hJ hq => h.issue q s hq hI hJ)
    fun e s hI hJ he => h.fault e s he hI hJ

lemma rpc (h : Patient P i J) {q : Query} (hq : q.Passive) : Prog.Keeps P i J (rpc q).run :=
  h.keeps (Quiet.rpc hq)

end Patient

@[simp] lemma wp_info {o : Obs} {R : Unit → World → Prop} :
    (info o).wp P i R s ↔ P.guar i s (s.note o) ∧ P.durable (s.note o) ∧ R () (s.note o) := Iff.rfl

@[simp] lemma wp_sleep {n : ℕ} {R : Unit → World → Prop} :
    (sleep n).wp P i R s ↔ P.inv s ∧ P.issue i (.sleep n) s ∧
      ∀ t, P.rely i s t → P.inv t → ∀ a, P.answer i (.sleep n) a t → R () t := by
  rw [sleep, Prog.wp_bind, Prog.wp_ask]
  rfl

@[simp] lemma wp_run_rpc {q : Query} {R : Except String q.Result → World → Prop} :
    (rpc q).run.wp P i R s ↔ P.inv s ∧ P.issue i q s ∧
      ∀ t, P.rely i s t → P.inv t → ∀ a, P.answer i q a t → R a t := Iff.rfl

@[simp] lemma wp_expectSome {msg : String} {o : Option α} {R : α → World → Prop} :
    (expectSome msg o).wp P i R s ↔
      (o = none → P.inv s ∧ P.fault i (.expect msg) s) ∧ ∀ a, o = some a → R a s := by
  cases o with
  | none => exact ⟨fun h => ⟨fun _ => h, nofun⟩, fun h => h.1 rfl⟩
  | some a => exact ⟨fun h => ⟨nofun, fun _ hb => by cases hb; exact h⟩, fun h => h.2 a rfl⟩

@[simp] lemma wp_expectOk {msg : String} {r : Except String α} {R : α → World → Prop} :
    (expectOk msg r).wp P i R s ↔
      (∀ e, r = .error e → P.inv s ∧ P.fault i (.expect msg) s) ∧ ∀ a, r = .ok a → R a s := by
  cases r with
  | error e => exact ⟨fun h => ⟨fun _ _ => h, nofun⟩, fun h => h.1 e rfl⟩
  | ok a => exact ⟨fun h => ⟨nofun, fun _ hb => by cases hb; exact h⟩, fun h => h.2 a rfl⟩

@[simp] lemma wp_toU64 {w : Word} {R : ℕ → World → Prop} :
    (toU64 w).wp P i R s ↔ (w.toNat < 2 ^ 64 → R w.toNat s) ∧
      (¬w.toNat < 2 ^ 64 → P.inv s ∧ P.fault i .uintConversion s) := by
  rw [toU64, Prog.wp_ite, Prog.wp_pure, Prog.wp_panic]

end VeaValidator
