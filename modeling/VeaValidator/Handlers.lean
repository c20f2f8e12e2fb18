import VeaValidator.Blocks
import VeaValidator.Stores

/-!
The event handlers of the indexer.

A handler decodes its log and then acts on the decoded event. The second half of every outbox
handler is a program of its own, `claimed`, `verificationStarted`, `challenged` and `verified`;
`Log.event?` is what the first halves compute.
-/

namespace VeaValidator

open Coop

/-! ### The changes a handler makes to a claim -/

namespace ClaimData

/-- The entry of a claim that has just been made. -/
def fresh (epoch : ℕ) (stateRoot : Word) (claimer : Address) (timestampClaimed : ℕ) : ClaimData where
  epoch
  stateRoot
  claimer
  timestampClaimed
  timestampVerification := 0
  blocknumberVerification := 0
  honest := "None"
  challenger := 0

def startVerification (blockTs blockNum : ℕ) (c : ClaimData) : ClaimData :=
  { c with timestampVerification := blockTs, blocknumberVerification := blockNum }

def challengeBy (challenger : Address) (c : ClaimData) : ClaimData :=
  { c with challenger }

def settle (honest : String) (c : ClaimData) : ClaimData := { c with honest }

end ClaimData

/-- The payload has the fields of the message. -/
structure Relay.Carries (relay : Relay) (tx : L2ToL1Tx) : Prop where
  position : relay.position = tx.position
  l2Sender : relay.l2Sender = tx.caller
  destAddr : relay.destAddr = tx.destination
  l2Block : relay.l2Block = tx.arbBlockNum.toNat
  l1Block : relay.l1Block = tx.ethBlockNum.toNat
  l2Timestamp : relay.l2Timestamp = tx.timestamp.toNat
  amount : relay.amount = tx.callvalue
  data : relay.data = tx.data

/-- The task relays the message. -/
def Task.Carries (task : Task) (tx : L2ToL1Tx) : Prop :=
  ∃ relay, task.kind = .executeRelay relay ∧ relay.Carries tx

namespace Indexer

/-- `ARB_SYS` -/
def arbSys : Address := 0x64#160

def getLogTimestamp (log : Log) (provider : Provider) : M ℕ :=
  match log.blockTimestamp with
  | some ts => pure ts
  | none => do
    let blockNum ← expectSome "Log missing block_number" log.blockNumber
    let answer ← Prog.ask (A := Query.Answer) (.blockByNumber provider (.number blockNum))
    let block ← expectOk "Failed to fetch block for timestamp" answer
    let block ← expectSome "Block not found" block
    pure block.timestamp

/-! ### The inbox -/

def handleSnapshotSaved (log : Log) : M Unit :=
  match log.word 64 with
  | none => pure ()
  | some w => do
    let count ← toU64 w
    TaskStore.setLastSavedCount count

/-- The loop over the logs of the receipt. -/
def firstL2ToL1Tx (logs : List ReceiptLog) : Option L2ToL1Tx :=
  logs.findSome? fun log => if log.address ≠ arbSys then none else log.l2ToL1Tx

/-- The message is in the first log of `ARB_SYS` that can be decoded. -/
def FirstMessage (logs : List ReceiptLog) (tx : L2ToL1Tx) : Prop :=
  ∃ before log after, logs = before ++ log :: after ∧ log.address = arbSys ∧
    log.l2ToL1Tx = some tx ∧ ∀ other ∈ before, other.address = arbSys → other.l2ToL1Tx = none

lemma firstL2ToL1Tx_eq_some {logs : List ReceiptLog} {tx : L2ToL1Tx} :
    firstL2ToL1Tx logs = some tx ↔ FirstMessage logs tx := by
  have hsome : ∀ log : ReceiptLog, (if log.address ≠ arbSys then none else log.l2ToL1Tx) = some tx ↔
      log.address = arbSys ∧ log.l2ToL1Tx = some tx := by
    intro log
    by_cases haddress : log.address = arbSys <;> simp [haddress]
  have hnone : ∀ log : ReceiptLog, (if log.address ≠ arbSys then none else log.l2ToL1Tx) = none ↔
      (log.address = arbSys → log.l2ToL1Tx = none) := by
    intro log
    by_cases haddress : log.address = arbSys <;> simp [haddress]
  rw [firstL2ToL1Tx, List.findSome?_eq_some_iff]
  simp only [hsome, hnone, FirstMessage, and_assoc]

def fetchL2ToL1FromTx (route : Route) (txHash : Word) (epoch : ℕ) : M (Option Task) := do
  let answer ← Prog.ask (A := Query.Answer) (.transactionReceipt txHash)
  let receipt ← expectOk "Failed to get transaction receipt" answer
  let receipt ← expectSome "Transaction receipt not found" receipt
  match firstL2ToL1Tx receipt.logs with
  | none => pure none
  | some decoded => do
    let blockNumber ← expectSome "Receipt missing block_number" receipt.blockNumber
    let answer ← Prog.ask (A := Query.Answer) (.blockByNumber .inbox (.number blockNumber))
    let block ← expectOk "Failed to get block by number" answer
    let block ← expectSome "Block not found" block
    let l2Block ← toU64 decoded.arbBlockNum
    let l1Block ← toU64 decoded.ethBlockNum
    let l2Timestamp ← toU64 decoded.timestamp
    pure (some {
      epoch
      executeAfter := u64 (block.timestamp + route.settings.relayDelaySecs)
      kind := .executeRelay {
        position := decoded.position
        l2Sender := decoded.caller
        destAddr := decoded.destination
        l2Block
        l1Block
        l2Timestamp
        amount := decoded.callvalue
        data := decoded.data } })

def parseEpochFromSnapshotSent (log : Log) : M (Option ℕ) :=
  match log.topics[1]? with
  | none => pure none
  | some t => do pure (some (← toU64 t))

def handleSnapshotSent (route : Route) (log : Log) : M Unit := do
  match ← parseEpochFromSnapshotSent log with
  | none => pure ()
  | some epoch => do
    let state ← TaskStore.load
    if state.tasks.any fun t => t.epoch = epoch ∧ t.kind.name = .executeRelay then
      pure ()
    else
      match log.transactionHash with
      | none => pure ()
      | some txHash => do
        let answer ← Prog.ask (A := Query.Answer) (.transactionByHash txHash)
        let tx ← expectOk "Failed to get transaction" answer
        let signer ← expectSome "Transaction not found" tx
        if signer ≠ route.walletAddress then
          pure ()
        else
          match ← fetchL2ToL1FromTx route txHash epoch with
          | some task => TaskStore.addTask task
          | none => pure ()

def dispatchInboxEvent (route : Route) (log : Log) : M Unit :=
  match log.topics.head? with
  | none => pure ()
  | some topic0 =>
    if topic0 = sigSnapshotSent then handleSnapshotSent route log
    else if topic0 = sigSnapshotSaved then handleSnapshotSaved log
    else pure ()

/-! ### The outbox -/

/-- `handle_claimed_event` of a decoded log. -/
def claimed (log : Log) (epoch : ℕ) (claimer : Address) (stateRoot : Word) : M Unit := do
  let blockTs ← getLogTimestamp log .outbox
  let timestampClaimed := u32 blockTs
  let state ← TaskStore.load
  if state.tasks.any fun t => t.epoch = epoch then
    pure ()
  else do
    ClaimStore.store (ClaimData.fresh epoch stateRoot claimer timestampClaimed)
    TaskStore.addTask { epoch, executeAfter := blockTs, kind := .validateClaim }

def handleClaimedEvent (log : Log) : M Unit :=
  match log.topics[1]?, log.topics[2]? with
  | some t1, some t2 => do
    let epoch ← toU64 t2
    match log.word 0 with
    | none => pure ()
    | some stateRoot => claimed log epoch t1.address stateRoot
  | _, _ => pure ()

/-- What the handlers do with an event whose claim is not stored. -/
def missingClaim (route : Route) (epoch blockTs : ℕ) : M Unit := do
  let state ← TaskStore.load
  let graceEnd := u64 (state.indexingSince.getD 0 + route.settings.syncLookbackSecs)
  if blockTs < graceEnd then pure () else .panic (.claimNotFound epoch)

/-- `handle_verification_started_event` of a decoded log. -/
def verificationStarted (route : Route) (log : Log) (epoch : ℕ) : M Unit := do
  if !(← ClaimStore.existsClaim epoch) then do
    let blockTs ← getLogTimestamp log .outbox
    missingClaim route epoch blockTs
  else do
    let blockTs := u32 (← getLogTimestamp log .outbox)
    let blockNum := u32 (← expectSome "Log missing block_number" log.blockNumber)
    ClaimStore.update epoch (ClaimData.startVerification blockTs blockNum)
    TaskStore.invalidateTasks epoch [.startVerification]
    TaskStore.addTask {
      epoch
      executeAfter := u64 (blockTs + route.settings.minChallengePeriod)
      kind := .verifySnapshot }

def handleVerificationStartedEvent (route : Route) (log : Log) : M Unit :=
  match log.topics[1]? with
  | none => pure ()
  | some t => do
    let epoch ← toU64 t
    verificationStarted route log epoch

/-- `handle_challenged_event` of a decoded log. -/
def challenged (route : Route) (log : Log) (epoch : ℕ) (challenger : Address) : M Unit := do
  if !(← ClaimStore.existsClaim epoch) then do
    let blockTs ← getLogTimestamp log .outbox
    missingClaim route epoch blockTs
  else do
    ClaimStore.update epoch (ClaimData.challengeBy challenger)
    TaskStore.invalidateTasks epoch
      [.validateClaim, .challenge, .startVerification, .verifySnapshot]
    let blockTs ← getLogTimestamp log .outbox
    TaskStore.addTask { epoch, executeAfter := blockTs, kind := .sendSnapshot }

def handleChallengedEvent (route : Route) (log : Log) : M Unit :=
  match log.topics[1]?, log.topics[2]? with
  | some t1, some t2 => do
    let epoch ← toU64 t1
    challenged route log epoch t2.address
  | _, _ => pure ()

def getInboxSnapshot (epoch : ℕ) : M Word := do
  let answer ← Prog.ask (A := Query.Answer) (.snapshots epoch)
  expectOk "Failed to get inbox snapshot" answer

/-- `handle_verified_event` of a decoded log. -/
def verified (route : Route) (log : Log) (epoch : ℕ) : M Unit := do
  let blockTs ← getLogTimestamp log .outbox
  if !(← ClaimStore.existsClaim epoch) then
    missingClaim route epoch blockTs
  else do
    let claim ← ClaimStore.get epoch
    let realStateRoot ← getInboxSnapshot epoch
    let honest := if claim.stateRoot = realStateRoot then "Claimer" else "Challenger"
    ClaimStore.update epoch (ClaimData.settle honest)
    TaskStore.invalidateTasks epoch
      [.validateClaim, .challenge, .startVerification, .verifySnapshot, .executeRelay]
    TaskStore.addTask { epoch, executeAfter := blockTs, kind := .withdrawDeposit }

def handleVerifiedEvent (route : Route) (log : Log) : M Unit :=
  match log.topics[1]? with
  | some t => do
    let epoch ← toU64 t
    verified route log epoch
  | none =>
    match log.word 0 with
    | some w => do
      let epoch ← toU64 w
      verified route log epoch
    | none => pure ()

def dispatchOutboxEvent (route : Route) (log : Log) : M Unit :=
  match log.topics.head? with
  | none => pure ()
  | some topic0 =>
    if topic0 = sigClaimed then handleClaimedEvent log
    else if topic0 = sigVerificationStarted then handleVerificationStartedEvent route log
    else if topic0 = sigChallenged then handleChallengedEvent route log
    else if topic0 = sigVerified then handleVerifiedEvent route log
    else pure ()

def dispatch (route : Route) : ScanTarget → Log → M Unit
  | .inbox => dispatchInboxEvent route
  | .outbox => dispatchOutboxEvent route

/-- One turn of the loop over the logs of a chunk. -/
def handle (route : Route) (target : ScanTarget) (log : Log) : M Unit := do
  dispatch route target log
  info (.handled target log)

/-- The logs of one or both chains, handled one after the other with a pause before each. -/
def deliver (route : Route) (logs : List (ScanTarget × Log)) : M Unit :=
  forM logs fun l => do
    sleep 0
    handle route l.1 l.2

end Indexer

/-! ### The events of the outbox -/

/-- A decoded outbox log. -/
inductive Event
  | claimed (epoch : ℕ) (claimer : Address) (stateRoot : Word)
  | verificationStarted (epoch : ℕ)
  | challenged (epoch : ℕ) (challenger : Address)
  | verified (epoch : ℕ)
  deriving DecidableEq

def Event.epoch : Event → ℕ
  | .claimed e _ _ | .verificationStarted e | .challenged e _ | .verified e => e

/-- A word as an epoch, when it fits. -/
def Word.epoch (w : Word) : Option ℕ := if w.toNat < 2 ^ 64 then some w.toNat else none

/-- The event a log stands for, when it is well formed. -/
def Log.event? (log : Log) : Option Event := do
  let topic0 ← log.topics.head?
  if topic0 = sigClaimed then
    let t1 ← log.topics[1]?
    let t2 ← log.topics[2]?
    pure (.claimed (← t2.epoch) t1.address (← log.word 0))
  else if topic0 = sigVerificationStarted then
    pure (.verificationStarted (← (← log.topics[1]?).epoch))
  else if topic0 = sigChallenged then
    let t1 ← log.topics[1]?
    let t2 ← log.topics[2]?
    pure (.challenged (← t1.epoch) t2.address)
  else if topic0 = sigVerified then
    pure (.verified (← (← log.topics[1]? <|> log.word 0).epoch))
  else
    none

namespace Indexer

/-- The second half of the handlers. -/
def act (route : Route) (log : Log) : Event → M Unit
  | .claimed epoch claimer stateRoot => claimed log epoch claimer stateRoot
  | .verificationStarted epoch => verificationStarted route log epoch
  | .challenged epoch challenger => challenged route log epoch challenger
  | .verified epoch => verified route log epoch

lemma toU64_bind {α : Type} (w : Word) (g : ℕ → M α) :
    toU64 w >>= g = match w.epoch with
      | some e => g e
      | none => .panic .uintConversion := by
  unfold toU64 Word.epoch
  split <;> rfl

/-- **The handlers decode, then act.** A log that is no event is ignored, or stops the route
with an epoch that does not fit. -/
theorem dispatchOutboxEvent_eq (route : Route) (log : Log) :
    match log.event? with
    | some event => dispatchOutboxEvent route log = act route log event
    | none => dispatchOutboxEvent route log = pure () ∨
        dispatchOutboxEvent route log = .panic .uintConversion := by
  unfold Log.event? dispatchOutboxEvent
  cases log.topics.head? with
  | none => exact .inl rfl
  | some topic0 =>
    by_cases h1 : topic0 = sigClaimed
    · simp only [Option.bind_eq_bind, Option.bind_some, h1, if_true, handleClaimedEvent]
      cases log.topics[1]? with
      | none => exact .inl rfl
      | some t1 =>
        cases log.topics[2]? with
        | none => exact .inl rfl
        | some t2 =>
          simp only [Option.bind_some, toU64_bind]
          cases t2.epoch with
          | none => exact .inr rfl
          | some e =>
            cases log.word 0 with
            | none => exact .inl rfl
            | some root => rfl
    simp only [Option.bind_eq_bind, Option.bind_some, h1, if_false]
    by_cases h2 : topic0 = sigVerificationStarted
    · simp only [h2, if_true, handleVerificationStartedEvent]
      cases log.topics[1]? with
      | none => exact .inl rfl
      | some t =>
        simp only [Option.bind_some, toU64_bind]
        cases t.epoch with
        | none => exact .inr rfl
        | some e => rfl
    simp only [h2, if_false]
    by_cases h3 : topic0 = sigChallenged
    · simp only [h3, if_true, handleChallengedEvent]
      cases log.topics[1]? with
      | none => exact .inl rfl
      | some t1 =>
        cases log.topics[2]? with
        | none => exact .inl rfl
        | some t2 =>
          simp only [Option.bind_some, toU64_bind]
          cases t1.epoch with
          | none => exact .inr rfl
          | some e => rfl
    simp only [h3, if_false]
    by_cases h4 : topic0 = sigVerified
    · simp only [h4, if_true, handleVerifiedEvent]
      cases log.topics[1]? with
      | none =>
        cases log.word 0 with
        | none => exact .inl rfl
        | some w =>
          simp only [Option.orElse_eq_orElse, Option.orElse_eq_or, Option.none_or,
            Option.bind_some, toU64_bind]
          cases w.epoch with
          | none => exact .inr rfl
          | some e => rfl
      | some t =>
        simp only [Option.orElse_eq_orElse, Option.orElse_eq_or, Option.some_or,
          Option.bind_some, toU64_bind]
        cases t.epoch with
        | none => exact .inr rfl
        | some e => rfl
    simp only [h4, if_false]
    exact .inl trivial

/-! ### What a role keeps while it runs a handler -/

section
variable {ι : Type} {P : Protocol ι World Panic Query.Answer} {i : ι} {J : World → Prop}
  {route : Route} {log : Log} {e : ℕ} {s : World}

/-- A time `getLogTimestamp` can come back with. -/
def TimeOf (P : Protocol ι World Panic Query.Answer) (i : ι) (provider : Provider) (log : Log)
    (ts : ℕ) : Prop :=
  match log.blockTimestamp with
  | some t => ts = t
  | none => ∃ n b t, log.blockNumber = some n ∧ b.timestamp = ts ∧
      P.answer i (.blockByNumber provider (.number n)) (.ok (some b)) t

lemma wp_getLogTimestamp (h : Patient P i J) {provider : Provider} (hI : P.inv s) (hJ : J s) :
    (getLogTimestamp log provider).wp P i
      (fun ts t => TimeOf P i provider log ts ∧ P.inv t ∧ J t) s := by
  unfold getLogTimestamp TimeOf
  cases log.blockTimestamp with
  | some ts => exact ⟨rfl, hI, hJ⟩
  | none =>
    cases log.blockNumber with
    | none => exact ⟨hI, h.fault _ s trivial hI hJ⟩
    | some n =>
      refine ⟨hI, h.issue _ s trivial hI hJ, fun t ht hIt a ha => ?_⟩
      have hJt := h.rely s t hJ ht hIt
      rcases a with err | _ | b
      · exact ⟨hIt, h.fault _ t trivial hIt hJt⟩
      · exact ⟨hIt, h.fault _ t trivial hIt hJt⟩
      · exact ⟨⟨n, b, t, rfl, rfl, ha⟩, hIt, hJt⟩

lemma wp_missingClaim {ts : ℕ} {R : Unit → World → Prop}
    (hdrop : ts < u64 (s.schedule.indexingSince.getD 0 + route.settings.syncLookbackSecs) → R () s)
    (hpanic : ¬ts < u64 (s.schedule.indexingSince.getD 0 + route.settings.syncLookbackSecs) →
      P.inv s ∧ P.fault i (.claimNotFound e) s) : (missingClaim route e ts).wp P i R s := by
  rw [missingClaim, Prog.wp_bind, wp_load, Prog.wp_ite]
  exact ⟨hdrop, hpanic⟩

lemma wp_claimed (h : Patient P i J) {claimer : Address} {root : Word}
    {R : Unit → World → Prop} (hI : P.inv s) (hJ : J s)
    (hskip : ∀ t, P.inv t → J t → (∃ task ∈ t.schedule.tasks, task.epoch = e) → R () t)
    (hnew : ∀ ts t, TimeOf P i .outbox log ts → P.inv t → J t →
      (∀ task ∈ t.schedule.tasks, task.epoch ≠ e) →
      ((do
        ClaimStore.store (ClaimData.fresh e root claimer (u32 ts))
        TaskStore.addTask ⟨e, ts, .validateClaim⟩) : M Unit).wp P i R t) :
    (claimed log e claimer root).wp P i R s := by
  rw [claimed, Prog.wp_bind]
  refine Prog.wp_mono ?_ (wp_getLogTimestamp h hI hJ)
  rintro ts t ⟨hts, hIt, hJt⟩
  rw [Prog.wp_bind, wp_load, Prog.wp_ite]
  refine ⟨fun hany => hskip t hIt hJt (by simpa using hany), fun hnone => ?_⟩
  exact hnew ts t hts hIt hJt (by simpa using hnone)

lemma wp_verificationStarted (h : Patient P i J) {R : Unit → World → Prop} (hI : P.inv s)
    (hJ : J s)
    (hmissing : s.claim? e = none → ∀ ts t, TimeOf P i .outbox log ts → P.inv t → J t →
      (missingClaim route e ts).wp P i R t)
    (hstored : s.claim? e ≠ none → ∀ ts n t, TimeOf P i .outbox log ts → log.blockNumber = some n →
      P.inv t → J t → ((do
        ClaimStore.update e (ClaimData.startVerification (u32 ts) (u32 n))
        TaskStore.invalidateTasks e [.startVerification]
        TaskStore.addTask ⟨e, u64 (u32 ts + route.settings.minChallengePeriod),
          .verifySnapshot⟩) : M Unit).wp P i R t) :
    (verificationStarted route log e).wp P i R s := by
  rw [verificationStarted, Prog.wp_bind, wp_existsClaim, Prog.wp_ite]
  constructor
  · intro hnone
    rw [Prog.wp_bind]
    refine Prog.wp_mono ?_ (wp_getLogTimestamp h hI hJ)
    rintro ts t ⟨hts, hIt, hJt⟩
    exact hmissing (by simpa using hnone) ts t hts hIt hJt
  · intro hsome
    rw [Prog.wp_bind]
    refine Prog.wp_mono ?_ (wp_getLogTimestamp h hI hJ)
    rintro ts t ⟨hts, hIt, hJt⟩
    rw [Prog.wp_bind, wp_expectSome]
    refine ⟨fun _ => ⟨hIt, h.fault _ t trivial hIt hJt⟩, fun n hn => ?_⟩
    refine hstored (fun hc => ?_) ts n t hts hn hIt hJt
    simp [hc] at hsome

/-- What is known changes with the update of the claim, before the second wait. -/
lemma wp_challenged {J' : World → Prop} (h : Patient P i J) (h' : Patient P i J')
    {challenger : Address} {R : Unit → World → Prop} (hI : P.inv s) (hJ : J s)
    (hmissing : s.claim? e = none → ∀ ts t, TimeOf P i .outbox log ts → P.inv t → J t →
      (missingClaim route e ts).wp P i R t)
    (hstored : s.claim? e ≠ none → ((do
        ClaimStore.update e (ClaimData.challengeBy challenger)
        TaskStore.invalidateTasks e
          [.validateClaim, .challenge, .startVerification, .verifySnapshot]) : M Unit).wp P i
      (fun _ t => P.inv t ∧ J' t ∧ ∀ ts u, TimeOf P i .outbox log ts → P.inv u → J' u →
        (TaskStore.addTask ⟨e, ts, .sendSnapshot⟩).wp P i R u) s) :
    (challenged route log e challenger).wp P i R s := by
  rw [challenged, Prog.wp_bind, wp_existsClaim, Prog.wp_ite]
  constructor
  · intro hnone
    rw [Prog.wp_bind]
    refine Prog.wp_mono ?_ (wp_getLogTimestamp h hI hJ)
    rintro ts t ⟨hts, hIt, hJt⟩
    exact hmissing (by simpa using hnone) ts t hts hIt hJt
  · intro hsome
    have hw := hstored fun hc => by simp [hc] at hsome
    rw [← bind_assoc, Prog.wp_bind]
    refine Prog.wp_mono ?_ hw
    rintro _ t ⟨hIt, hJt, hlast⟩
    rw [Prog.wp_bind]
    refine Prog.wp_mono ?_ (wp_getLogTimestamp h' hIt hJt)
    rintro ts u ⟨hts, hIu, hJu⟩
    exact hlast ts u hts hIu hJu

lemma wp_verified (h : Patient P i J) {D : ClaimData → World → Prop}
    {R : Unit → World → Prop} (hI : P.inv s) (hJ : J s)
    (hmany : ∀ s, P.inv s → J s → P.fault i (.multipleClaims e) s)
    (hread : ∀ s d, P.inv s → J s → s.claim? e = some d → D d s)
    (hrely : ∀ d s t, D d s → J s → P.rely i s t → P.inv t → D d t)
    (hmissing : ∀ ts t, TimeOf P i .outbox log ts → P.inv t → J t → t.claim? e = none →
      (missingClaim route e ts).wp P i R t)
    (hstored : ∀ ts d root t, TimeOf P i .outbox log ts →
      P.answer i (.snapshots e) (.ok root) t → P.inv t → J t → D d t → ((do
        ClaimStore.update e
          (ClaimData.settle (if d.stateRoot = root then "Claimer" else "Challenger"))
        TaskStore.invalidateTasks e
          [.validateClaim, .challenge, .startVerification, .verifySnapshot, .executeRelay]
        TaskStore.addTask ⟨e, ts, .withdrawDeposit⟩) : M Unit).wp P i R t) :
    (verified route log e).wp P i R s := by
  rw [verified, Prog.wp_bind]
  refine Prog.wp_mono ?_ (wp_getLogTimestamp h hI hJ)
  rintro ts t ⟨hts, hIt, hJt⟩
  rw [Prog.wp_bind, wp_existsClaim, Prog.wp_ite]
  constructor
  · intro hnone
    exact hmissing ts t hts hIt hJt (by simpa using hnone)
  · intro hsome
    have hne : t.claim? e ≠ none := fun hc => by simp [hc] at hsome
    rw [Prog.wp_bind]
    refine wp_get (fun hc => absurd hc hne) (fun _ => ⟨hIt, hmany t hIt hJt⟩) fun d hd => ?_
    have hD := hread t d hIt hJt hd
    rw [getInboxSnapshot, bind_assoc, Prog.wp_bind, Prog.wp_ask]
    refine ⟨hIt, h.issue _ t trivial hIt hJt, fun u hu hIu a ha => ?_⟩
    have hJu := h.rely t u hJt hu hIu
    rw [Prog.wp_bind, wp_expectOk]
    refine ⟨fun _ _ => ⟨hIu, h.fault _ u trivial hIu hJu⟩, fun root hroot => ?_⟩
    subst hroot
    exact hstored ts d root u hts ha hIu hJu (hrely d t u hD hJt hu hIu)

lemma wp_handleSnapshotSaved (h : Patient P i J) {R : Unit → World → Prop} (hI : P.inv s)
    (hJ : J s) (hskip : R () s) (hset : ∀ n, (TaskStore.setLastSavedCount n).wp P i R s) :
    (handleSnapshotSaved log).wp P i R s := by
  unfold handleSnapshotSaved
  cases log.word 64 with
  | none => exact hskip
  | some w =>
    rw [Prog.wp_bind, wp_toU64]
    exact ⟨fun _ => hset _, fun _ => ⟨hI, h.fault _ s trivial hI hJ⟩⟩

/-- The `SnapshotSent` log leads to no task: it has no transaction, somebody else's, or one
that sends nothing to L1. -/
def Foreign (P : Protocol ι World Panic Query.Answer) (i : ι) (route : Route) (log : Log) : Prop :=
  log.transactionHash = none ∨ ∃ txHash, log.transactionHash = some txHash ∧
    ((∃ signer t, signer ≠ route.walletAddress ∧
        P.answer i (.transactionByHash txHash) (.ok (some signer)) t) ∨
      ∃ receipt t, P.answer i (.transactionReceipt txHash) (.ok (some receipt)) t ∧
        firstL2ToL1Tx receipt.logs = none)

/-- The `SnapshotSent` log is of a transaction of this validator that sends something to L1. -/
def Own (P : Protocol ι World Panic Query.Answer) (i : ι) (route : Route) (log : Log) : Prop :=
  ∃ txHash t receipt u tx, log.transactionHash = some txHash ∧
    P.answer i (.transactionByHash txHash) (.ok (some route.walletAddress)) t ∧
    P.answer i (.transactionReceipt txHash) (.ok (some receipt)) u ∧
    firstL2ToL1Tx receipt.logs = some tx

/-- The same with the message it sends. -/
def OwnMessage (P : Protocol ι World Panic Query.Answer) (i : ι) (route : Route) (log : Log)
    (tx : L2ToL1Tx) : Prop :=
  ∃ txHash t receipt u, log.transactionHash = some txHash ∧
    P.answer i (.transactionByHash txHash) (.ok (some route.walletAddress)) t ∧
    P.answer i (.transactionReceipt txHash) (.ok (some receipt)) u ∧
    firstL2ToL1Tx receipt.logs = some tx

/-- **An answer that has to be there.** Without it the task panics. -/
lemma wp_expectOk_expectSome {α β : Type} {msg msg' : String} {a : Except String (Option α)}
    {f : α → M β} {R : β → World → Prop} (h : Patient P i J) (hI : P.inv s) (hJ : J s)
    (hf : ∀ v, a = .ok (some v) → (f v).wp P i R s) :
    (do
      let o ← expectOk msg a
      let v ← expectSome msg' o
      f v).wp P i R s := by
  have hfault : ∀ e : Panic, e.OfAnswer → P.inv s ∧ P.fault i e s :=
    fun e he => ⟨hI, h.fault e s he hI hJ⟩
  rw [Prog.wp_bind, wp_expectOk]
  refine ⟨fun _ _ => hfault _ trivial, fun o ho => ?_⟩
  rw [Prog.wp_bind, wp_expectSome]
  refine ⟨fun _ => hfault _ trivial, fun v hv => hf v ?_⟩
  rw [ho, hv]

/-- The time of a relay: that of the block of its message, and the delay of the route. -/
def DueAfter (P : Protocol ι World Panic Query.Answer) (i : ι) (route : Route) (receipt : Receipt)
    (executeAfter : ℕ) : Prop :=
  ∃ n block t, receipt.blockNumber = some n ∧
    P.answer i (.blockByNumber .inbox (.number n)) (.ok (some block)) t ∧
    executeAfter = u64 (block.timestamp + route.settings.relayDelaySecs)

/-- A fetched relay task is of the epoch it was fetched for, has the message of the receipt, and
waits for it. -/
lemma wp_fetchL2ToL1FromTx_timed (h : Patient P i J) {txHash : Word}
    {R : Option Task → World → Prop} (hI : P.inv s) (hJ : J s)
    (hnone : ∀ receipt t u, P.answer i (.transactionReceipt txHash) (.ok (some receipt)) t →
      firstL2ToL1Tx receipt.logs = none → P.inv u → J u → R none u)
    (hsome : ∀ receipt tx t u task, P.answer i (.transactionReceipt txHash) (.ok (some receipt)) t →
      firstL2ToL1Tx receipt.logs = some tx → task.epoch = e → task.Carries tx →
      DueAfter P i route receipt task.executeAfter → P.inv u → J u → R (some task) u) :
    (fetchL2ToL1FromTx route txHash e).wp P i R s := by
  rw [fetchL2ToL1FromTx, Prog.wp_bind, Prog.wp_ask]
  refine ⟨hI, h.issue _ s trivial hI hJ, fun t ht hIt a ha => ?_⟩
  have hJt := h.rely s t hJ ht hIt
  refine wp_expectOk_expectSome h hIt hJt fun receipt hreceipt => ?_
  subst hreceipt
  rcases htx : firstL2ToL1Tx receipt.logs with _ | tx
  · exact hnone receipt t t ha htx hIt hJt
  dsimp only
  rw [Prog.wp_bind, wp_expectSome]
  refine ⟨fun _ => ⟨hIt, h.fault _ t trivial hIt hJt⟩, fun n hn => ?_⟩
  rw [Prog.wp_bind, Prog.wp_ask]
  refine ⟨hIt, h.issue _ t trivial hIt hJt, fun u hu hIu b hb => ?_⟩
  have hJu := h.rely t u hJt hu hIu
  have hfault : ∀ e : Panic, e.OfAnswer → P.inv u ∧ P.fault i e u :=
    fun e he => ⟨hIu, h.fault e u he hIu hJu⟩
  refine wp_expectOk_expectSome h hIu hJu fun block hblock => ?_
  subst hblock
  rw [Prog.wp_bind, wp_toU64]
  refine ⟨fun _ => ?_, fun _ => hfault _ trivial⟩
  rw [Prog.wp_bind, wp_toU64]
  refine ⟨fun _ => ?_, fun _ => hfault _ trivial⟩
  rw [Prog.wp_bind, wp_toU64]
  refine ⟨fun _ => ?_, fun _ => hfault _ trivial⟩
  exact hsome receipt tx t u _ ha htx rfl ⟨_, rfl, ⟨rfl, rfl, rfl, rfl, rfl, rfl, rfl, rfl⟩⟩
    ⟨n, block, u, hn, hb, rfl⟩ hIu hJu

/-- The epoch a `SnapshotSent` log names. -/
def snapshotEpoch (log : Log) : Option ℕ := log.topics[1]?.bind Word.epoch

/-- The receipt is the one of the transaction of the log, and the transaction is an own one. -/
def OwnReceipt (P : Protocol ι World Panic Query.Answer) (i : ι) (route : Route) (log : Log)
    (receipt : Receipt) : Prop :=
  ∃ txHash t u, log.transactionHash = some txHash ∧
    P.answer i (.transactionByHash txHash) (.ok (some route.walletAddress)) t ∧
    P.answer i (.transactionReceipt txHash) (.ok (some receipt)) u

/-- **The rule of a `SnapshotSent` log.** What it queues is the message of an own transaction, and
waits for it. -/
lemma wp_handleSnapshotSent_timed (h : Patient P i J) {R : Unit → World → Prop} (hI : P.inv s)
    (hJ : J s)
    (hskip : ∀ t, P.inv t → J t → (log.topics[1]? = none ∨
      (∃ e, snapshotEpoch log = some e ∧ s.Queued e .executeRelay) ∨ Foreign P i route log) → R () t)
    (hown : ∀ e task tx receipt t, snapshotEpoch log = some e → ¬s.Queued e .executeRelay →
      OwnReceipt P i route log receipt → firstL2ToL1Tx receipt.logs = some tx → task.epoch = e →
      task.Carries tx → DueAfter P i route receipt task.executeAfter → P.inv t → J t →
      (TaskStore.addTask task).wp P i R t) :
    (handleSnapshotSent route log).wp P i R s := by
  rw [handleSnapshotSent, parseEpochFromSnapshotSent]
  rcases htopic : log.topics[1]? with _ | w
  · exact hskip s hI hJ (.inl htopic)
  simp only [bind_assoc]
  rw [Prog.wp_bind, wp_toU64]
  refine ⟨fun hlt => ?_, fun _ => ⟨hI, h.fault _ s trivial hI hJ⟩⟩
  have hepoch : snapshotEpoch log = some w.toNat := by
    rw [snapshotEpoch, htopic, Option.bind_some, Word.epoch, if_pos hlt]
  rw [pure_bind, Prog.wp_bind, wp_load, Prog.wp_ite]
  refine ⟨fun hany => hskip s hI hJ (.inr (.inl ⟨_, hepoch, ?_⟩)), fun hnone => ?_⟩
  · obtain ⟨t, ht, hte⟩ := List.any_eq_true.mp hany
    obtain ⟨he, hk⟩ : t.epoch = w.toNat ∧ t.kind.name = .executeRelay := by simpa using hte
    have hq := World.queued_of_mem ht
    rwa [he, hk] at hq
  have hfree : ¬s.Queued w.toNat .executeRelay := by
    refine fun hq => hnone ?_
    obtain ⟨t, ht, hkey⟩ := List.mem_map.mp hq
    obtain ⟨he, hk⟩ := Prod.mk.inj hkey
    exact List.any_eq_true.mpr ⟨t, ht, decide_eq_true ⟨he, hk⟩⟩
  rcases hhash : log.transactionHash with _ | txHash
  · exact hskip s hI hJ (.inr (.inr (.inl hhash)))
  dsimp only
  rw [Prog.wp_bind, Prog.wp_ask]
  refine ⟨hI, h.issue _ s trivial hI hJ, fun t ht hIt a ha => ?_⟩
  have hJt := h.rely s t hJ ht hIt
  refine wp_expectOk_expectSome h hIt hJt fun signer hsigner => ?_
  subst hsigner
  rw [Prog.wp_ite]
  refine ⟨fun hne => ?_, fun heq => ?_⟩
  · exact hskip t hIt hJt (.inr (.inr (.inr ⟨txHash, hhash, .inl ⟨signer, t, hne, ha⟩⟩)))
  have hwallet : signer = route.walletAddress := not_not.mp heq
  subst hwallet
  rw [Prog.wp_bind]
  refine wp_fetchL2ToL1FromTx_timed h hIt hJt (fun receipt u v hr hnone hIv hJv => ?_)
    fun receipt tx u v task hr htx hte hkind hdue hIv hJv => ?_
  · exact hskip v hIv hJv (.inr (.inr (.inr ⟨txHash, hhash, .inr ⟨receipt, u, hr, hnone⟩⟩)))
  · exact hown w.toNat task tx receipt v hepoch hfree ⟨txHash, t, u, hhash, ha, hr⟩ htx hte hkind
      hdue hIv hJv

/-- The same where it does not matter how long the task waits. -/
lemma wp_handleSnapshotSent_carries (h : Patient P i J) {R : Unit → World → Prop} (hI : P.inv s)
    (hJ : J s)
    (hskip : ∀ t, P.inv t → J t → (log.topics[1]? = none ∨
      (∃ e, snapshotEpoch log = some e ∧ s.Queued e .executeRelay) ∨ Foreign P i route log) → R () t)
    (hown : ∀ e task tx t, snapshotEpoch log = some e → ¬s.Queued e .executeRelay →
      OwnMessage P i route log tx → task.epoch = e → task.Carries tx → P.inv t → J t →
      (TaskStore.addTask task).wp P i R t) :
    (handleSnapshotSent route log).wp P i R s := by
  refine wp_handleSnapshotSent_timed h hI hJ hskip ?_
  rintro e task tx receipt t he hfree ⟨txHash, v, u, hhash, ha, hr⟩ htx hte hkind - hIt hJt
  exact hown e task tx t he hfree ⟨txHash, v, receipt, u, hhash, ha, hr, htx⟩ hte hkind hIt hJt

lemma wp_handleSnapshotSent (h : Patient P i J) {R : Unit → World → Prop} (hI : P.inv s)
    (hJ : J s)
    (hskip : ∀ t, P.inv t → J t → (log.topics[1]? = none ∨
      (∃ e, snapshotEpoch log = some e ∧ s.Queued e .executeRelay) ∨ Foreign P i route log) → R () t)
    (hown : ∀ e task t, snapshotEpoch log = some e → ¬s.Queued e .executeRelay →
      Own P i route log → task.epoch = e → task.kind.name = .executeRelay → P.inv t → J t →
      (TaskStore.addTask task).wp P i R t) :
    (handleSnapshotSent route log).wp P i R s := by
  refine wp_handleSnapshotSent_carries h hI hJ hskip fun e task tx t he hfree hmsg hte hkind => ?_
  obtain ⟨txHash, t', receipt, u, hhash, ha, hr, htx⟩ := hmsg
  obtain ⟨relay, hrelay, -⟩ := hkind
  exact hown e task t he hfree ⟨txHash, t', receipt, u, tx, hhash, ha, hr, htx⟩ hte
    (by rw [hrelay]; rfl)

lemma wp_dispatchInboxEvent {R : Unit → World → Prop}
    (hskip : log.topics.head? ≠ some sigSnapshotSent → R () s)
    (hsent : log.topics.head? = some sigSnapshotSent → (handleSnapshotSent route log).wp P i R s)
    (hsaved : log.topics.head? = some sigSnapshotSaved → (handleSnapshotSaved log).wp P i R s) :
    (dispatchInboxEvent route log).wp P i R s := by
  unfold dispatchInboxEvent
  cases hhead : log.topics.head? with
  | none => exact hskip (by simp [hhead])
  | some topic0 =>
    rw [hhead, Option.some.injEq] at hsent hsaved
    rw [hhead, ne_eq, Option.some.injEq] at hskip
    rw [Prog.wp_ite, Prog.wp_ite]
    exact ⟨hsent, fun hne => ⟨hsaved, fun _ => hskip hne⟩⟩

lemma wp_dispatchOutboxEvent (h : Patient P i J) {R : Unit → World → Prop} (hI : P.inv s)
    (hJ : J s) (hignore : log.event? = none → R () s)
    (hact : ∀ event, log.event? = some event → (act route log event).wp P i R s) :
    (dispatchOutboxEvent route log).wp P i R s := by
  have heq := dispatchOutboxEvent_eq route log
  cases hev : log.event? with
  | some event =>
    simp only [hev] at heq
    rw [heq]
    exact hact event hev
  | none =>
    simp only [hev] at heq
    rcases heq with heq | heq
    · rw [heq]
      exact hignore hev
    · rw [heq]
      exact ⟨hI, h.fault _ s trivial hI hJ⟩

/-- **The rule of a log.** Its handler is followed by a line of the log. -/
lemma wp_handle {target : ScanTarget} {D : World → Prop} {R : Unit → World → Prop}
    (hdispatch : (dispatch route target log).wp P i (fun _ => D) s)
    (hnote : ∀ t, D t → P.guar i t (t.note (.handled target log)) ∧
      P.durable (t.note (.handled target log)) ∧ R () (t.note (.handled target log))) :
    (handle route target log).wp P i R s := by
  rw [handle, Prog.wp_bind]
  exact Prog.wp_mono (fun _ t ht => hnote t ht) hdispatch

lemma wp_deliver_cons {l : ScanTarget × Log} {logs : List (ScanTarget × Log)}
    {R : Unit → World → Prop} : (deliver route (l :: logs)).wp P i R s ↔
      (sleep 0).wp P i (fun _ => (handle route l.1 l.2).wp P i
        fun _ => (deliver route logs).wp P i R) s := by
  rw [deliver, List.forM_cons, Prog.wp_bind, Prog.wp_bind]
  rfl

/-- **The rule of a delivery.** What is known of the logs still to come has to survive the
others and every handler. -/
lemma wp_deliver {L : List (ScanTarget × Log) → World → Prop}
    (hsleep : ∀ s, P.inv s → P.issue i (.sleep 0) s)
    (hrely : ∀ l s t, L l s → P.rely i s t → P.inv t → L l t)
    (hstep : ∀ target log l s, P.inv s → L ((target, log) :: l) s →
      (handle route target log).wp P i (fun _ t => P.inv t ∧ L l t) s)
    {logs : List (ScanTarget × Log)} (hI : P.inv s) (hL : L logs s) :
    (deliver route logs).wp P i (fun _ t => P.inv t ∧ L [] t) s := by
  have hturn : ∀ b l t, P.inv t ∧ L (b :: l) t → ((do
      sleep 0
      handle route b.1 b.2) : M Unit).wp P i (fun _ t => P.inv t ∧ L l t) t := by
    rintro b l t ⟨hIt, hLt⟩
    rw [Prog.wp_bind, wp_sleep]
    refine ⟨hIt, hsleep t hIt, fun u hu hIu _ _ => ?_⟩
    exact hstep b.1 b.2 l u hIu (hrely _ t u hLt hu hIu)
  exact Prog.wp_forM (J := fun l t => P.inv t ∧ L l t) hturn ⟨hI, hL⟩

end

end Indexer

end VeaValidator
