import VeaValidator.Blocks
import VeaValidator.Stores

/-!
The bodies of the nine kinds of tasks.

A body reads the stores and the chains and may send one transaction. Only two of them write:
`validateClaim` schedules what follows from its verdict, and `withdrawDeposit` removes the
claim it has settled.
-/

namespace VeaValidator

open Coop

namespace Tasks

/-- The answer to a `send` is the result of the whole `send_tx`. -/
def sendTx (tx : Tx) : Fallible Unit := rpc (.send tx)

/-- Whether one of the logs has the epoch as its first indexed argument. -/
def anyWithEpoch (epoch : ℕ) : List Log → M Bool
  | [] => pure false
  | log :: logs =>
    match log.topics[1]? with
    | none => anyWithEpoch epoch logs
    | some t => do
      if (← toU64 t) = epoch then pure true else anyWithEpoch epoch logs

/-- The range ends 500 blocks beyond the head, which stays below `2 ^ 64`. -/
def wasEventEmitted (provider : Provider) (address : Address) (sig : Word) (epoch : ℕ) :
    M Bool := do
  match ← Prog.ask (A := Query.Answer) (.blockNumber provider) with
  | .error _ => pure false
  | .ok currentBlock =>
    let fromBlock := currentBlock - 500
    match ← Prog.ask (A := Query.Answer) (.logs provider {
        address
        eventSignature := [sig]
        fromBlock
        toBlock := fromBlock + 1000 }) with
    | .error _ => pure false
    | .ok logs => anyWithEpoch epoch logs

def saveSnapshot : Fallible Unit := do
  let currentCount ← rpc .count
  if currentCount = 0 then
    pure ()
  else do
    let lastSavedCount := (← ExceptT.lift TaskStore.getLastSavedCount).getD 0
    if currentCount ≤ lastSavedCount then pure () else sendTx .saveSnapshot

def sevenDaysSecs : ℕ := 7 * 24 * 3600

/-- The value of the `claim` call: the route that pays in WETH sends none. -/
def claimValue (route : Route) : Fallible (Option ℕ) :=
  match route.wethAddress with
  | some _ => pure none
  | none => do pure (some (← rpc .deposit))

def claim (route : Route) (epoch currentTimestamp : ℕ) : Fallible Unit := do
  let epochPeriod ← rpc .epochPeriod
  let finalized ← isEpochFinalized epoch epochPeriod route.sequencerInbox
  if !finalized then
    throw "EpochNotFinalized"
  else do
    let stateRoot ← rpc (.snapshots epoch)
    if stateRoot = 0 then
      pure ()
    else do
      let claimHash ← rpc (.claimHashes epoch)
      if claimHash ≠ 0 then
        pure ()
      else do
        let currentStateRoot ← rpc .stateRoot
        if currentStateRoot = stateRoot then
          pure ()
        else do
          let since := u32 currentTimestamp - sevenDaysSecs
          if ← ExceptT.lift (ClaimStore.hasStateRootInRecentClaims stateRoot since) then
            pure ()
          else do
            let value ← claimValue route
            match ← ExceptT.lift (sendTx (.claim epoch stateRoot value)).run with
            | .ok _ => pure ()
            | .error e => do
              let claimHash ← rpc (.claimHashes epoch)
              if claimHash ≠ 0 then pure () else throw e

def validateClaim (route : Route) (epoch currentTimestamp : ℕ) : Fallible Unit := do
  let epochPeriod ← rpc .epochPeriod
  let finalized ← isEpochFinalized epoch epochPeriod route.sequencerInbox
  if !finalized then
    throw "EpochNotFinalized"
  else do
    let claimData ← ExceptT.lift (ClaimStore.get epoch)
    let claimedStateRoot := claimData.stateRoot
    let correctStateRoot ← rpc (.snapshots epoch)
    if claimedStateRoot = correctStateRoot then
      ExceptT.lift (TaskStore.addTask {
        epoch
        executeAfter := u64 (currentTimestamp + route.settings.startVerificationDelay)
        kind := .startVerification })
    else
      ExceptT.lift (TaskStore.addTask {
        epoch
        executeAfter := currentTimestamp
        kind := .challenge })

/-- The balance of the wallet in the token of the deposit. -/
def balance (route : Route) : Fallible ℕ :=
  match route.wethAddress with
  | some _ => rpc (.wethBalance route.walletAddress)
  | none => rpc (.ethBalance route.walletAddress)

/-- The value of the `challenge` call. -/
def challengeValue (route : Route) (deposit : ℕ) : Option ℕ :=
  match route.wethAddress with
  | some _ => none
  | none => some deposit

def challenge (route : Route) (epoch : ℕ) : Fallible Unit := do
  let epochPeriod ← rpc .epochPeriod
  let finalized ← isEpochFinalized epoch epochPeriod route.sequencerInbox
  if !finalized then
    throw "EpochNotFinalized"
  else do
    let claim ← ExceptT.lift (ClaimStore.getClaim epoch)
    let deposit ← rpc .deposit
    let balance ← balance route
    if balance < deposit then
      throw "Insufficient funds"
    else
      match ← ExceptT.lift
          (sendTx (.challenge epoch claim (challengeValue route deposit))).run with
      | .ok _ => pure ()
      | .error e => do
        if ← ExceptT.lift (wasEventEmitted .outbox route.outboxAddress sigChallenged epoch) then
          pure ()
        else if ← ExceptT.lift
            (wasEventEmitted .outbox route.outboxAddress sigVerificationStarted epoch) then
          throw "VerificationStarted"
        else
          throw e

def sendSnapshot (route : Route) (epoch : ℕ) : Fallible Unit := do
  let claim ← ExceptT.lift (ClaimStore.getClaim epoch)
  if route.name = "ARB_TO_ETH" then
    sendTx (.sendSnapshot epoch none claim)
  else if route.name = "ARB_TO_GNOSIS" then
    sendTx (.sendSnapshot epoch (some 500000) claim)
  else
    ExceptT.lift (.panic (.unknownRoute route.name))

/-- `start_verification` and `verify_snapshot` differ in the transaction they send and the
event that tells them that somebody else was first. -/
def sendUnlessChallenged (route : Route) (epoch : ℕ) (tx : ℕ → Claim → Tx) (done : Word) :
    Fallible Unit := do
  let claimData ← ExceptT.lift (ClaimStore.get epoch)
  if claimData.challenger ≠ 0 then
    pure ()
  else do
    let claim ← ExceptT.lift (ClaimStore.getClaim epoch)
    match ← ExceptT.lift (sendTx (tx epoch claim)).run with
    | .ok _ => pure ()
    | .error e => do
      if ← ExceptT.lift (wasEventEmitted .outbox route.outboxAddress done epoch) then
        pure ()
      else if ← ExceptT.lift (wasEventEmitted .outbox route.outboxAddress sigChallenged epoch) then
        pure ()
      else
        throw e

def startVerification (route : Route) (epoch : ℕ) : Fallible Unit :=
  sendUnlessChallenged route epoch .startVerification sigVerificationStarted

def verifySnapshot (route : Route) (epoch : ℕ) : Fallible Unit :=
  sendUnlessChallenged route epoch .verifySnapshot sigVerified

def fetchOutboxProof (position : Word) : Fallible (List Word × Word) := do
  let size ← rpc .sendMerkleTreeState
  let leaf ← ExceptT.lift (toU64 position)
  rpc (.constructOutboxProof size leaf)

def executeRelay (relay : Relay) : Fallible Unit := do
  if ← rpc (.isSpent relay.position) then
    pure ()
  else do
    let (proof, root) ← fetchOutboxProof relay.position
    let rootExists ← rpc (.roots root)
    if rootExists = 0 then
      throw "RootNotConfirmed"
    else
      match ← ExceptT.lift (sendTx (.executeTransaction proof relay)).run with
      | .ok _ => pure ()
      | .error _ => throw "ExecutionFailed"

/-- The call that withdraws the deposit of a settled claim. -/
def withdrawTx (epoch : ℕ) (claim : Claim) : M Tx :=
  match claim.honest with
  | .claimer => pure (.withdrawClaimDeposit epoch claim)
  | .challenger => pure (.withdrawChallengeDeposit epoch claim)
  | .none => .panic (.honestNotDetermined epoch)

def withdrawDeposit (epoch : ℕ) : Fallible Unit := do
  let claimHash ← rpc (.claimHashes epoch)
  if claimHash = 0 then
    ExceptT.lift (ClaimStore.remove epoch)
  else do
    let claim ← ExceptT.lift (ClaimStore.getClaim epoch)
    let tx ← ExceptT.lift (withdrawTx epoch claim)
    match ← ExceptT.lift (sendTx tx).run with
    | .ok _ => ExceptT.lift (ClaimStore.remove epoch)
    | .error e => do
      let claimHash ← rpc (.claimHashes epoch)
      if claimHash = 0 then
        ExceptT.lift (ClaimStore.remove epoch)
      else
        throw e

/-! ### What a role keeps while it runs a body -/

lemma quiet_anyWithEpoch (epoch : ℕ) (logs : List Log) : Quiet (anyWithEpoch epoch logs) := by
  induction logs with
  | nil => exact Prog.Keeps.pure
  | cons log logs ih =>
    rw [anyWithEpoch]
    cases log.topics[1]? with
    | none => exact ih
    | some t =>
      refine Prog.Keeps.bind (quiet_toU64 t) fun e => ?_
      split
      · exact Prog.Keeps.pure
      · exact ih

lemma quiet_wasEventEmitted (provider : Provider) (address : Address) (sig : Word)
    (epoch : ℕ) : Quiet (wasEventEmitted provider address sig epoch) := by
  refine Prog.Keeps.bind (Quiet.ask trivial) fun r => ?_
  rcases r with _ | currentBlock
  · exact Prog.Keeps.pure
  · refine Prog.Keeps.bind (Quiet.ask trivial) fun r => ?_
    rcases r with _ | logs
    · exact Prog.Keeps.pure
    · exact quiet_anyWithEpoch epoch logs

lemma quiet_claimValue (route : Route) : Quiet (claimValue route).run := by
  unfold claimValue
  split
  · exact Prog.Keeps.run_pure
  · exact Prog.Keeps.run_bind (Quiet.rpc trivial) fun _ => Prog.Keeps.run_pure

lemma quiet_balance (route : Route) : Quiet (balance route).run := by
  unfold balance
  split
  · exact Quiet.rpc trivial
  · exact Quiet.rpc trivial

lemma quiet_fetchOutboxProof (position : Word) : Quiet (fetchOutboxProof position).run := by
  refine Prog.Keeps.run_bind (Quiet.rpc trivial) fun size => ?_
  refine Prog.Keeps.run_bind (Prog.Keeps.run_lift (quiet_toU64 _)) fun leaf => ?_
  exact Quiet.rpc trivial

section
variable {ι : Type} {P : Protocol ι World Panic Query.Answer} {i : ι} {J : World → Prop}
  {route : Route} {e : ℕ} {s : World}

lemma keeps_sendTx (h : Patient P i J) {tx : Tx}
    (hsend : ∀ s, P.inv s → J s → P.issue i (.send tx) s) : Prog.Keeps P i J (sendTx tx).run :=
  Prog.Keeps.ask h.rely hsend

lemma keeps_saveSnapshot (h : Patient P i J)
    (hsend : ∀ s, P.inv s → J s → P.issue i (.send .saveSnapshot) s) :
    Prog.Keeps P i J saveSnapshot.run := by
  refine Prog.Keeps.run_bind (h.rpc trivial) fun currentCount => ?_
  refine Prog.Keeps.run_ite (fun _ => Prog.Keeps.run_pure) fun _ => ?_
  refine Prog.Keeps.run_bind (Prog.Keeps.run_lift Prog.Keeps.gets) fun last => ?_
  exact Prog.Keeps.run_ite (fun _ => Prog.Keeps.run_pure) fun _ => keeps_sendTx h hsend

lemma keeps_claim (h : Patient P i J) {now : ℕ}
    (hsend : ∀ root v s, P.inv s → J s → P.issue i (.send (.claim e root v)) s) :
    Prog.Keeps P i J (claim route e now).run := by
  refine Prog.Keeps.run_bind (h.rpc trivial) fun epochPeriod => ?_
  refine Prog.Keeps.run_bind (h.keeps (quiet_isEpochFinalized _ _ _)) fun finalized => ?_
  refine Prog.Keeps.run_ite (fun _ => Prog.Keeps.run_throw) fun _ => ?_
  refine Prog.Keeps.run_bind (h.rpc trivial) fun stateRoot => ?_
  refine Prog.Keeps.run_ite (fun _ => Prog.Keeps.run_pure) fun _ => ?_
  refine Prog.Keeps.run_bind (h.rpc trivial) fun claimHash => ?_
  refine Prog.Keeps.run_ite (fun _ => Prog.Keeps.run_pure) fun _ => ?_
  refine Prog.Keeps.run_bind (h.rpc trivial) fun currentStateRoot => ?_
  refine Prog.Keeps.run_ite (fun _ => Prog.Keeps.run_pure) fun _ => ?_
  refine Prog.Keeps.run_bind (Prog.Keeps.run_lift Prog.Keeps.gets) fun recent => ?_
  refine Prog.Keeps.run_ite (fun _ => Prog.Keeps.run_pure) fun _ => ?_
  refine Prog.Keeps.run_bind (h.keeps (quiet_claimValue route)) fun value => ?_
  refine Prog.Keeps.run_bind (Prog.Keeps.run_lift (keeps_sendTx h (hsend _ _))) fun r => ?_
  cases r with
  | ok _ => exact Prog.Keeps.run_pure
  | error err =>
    refine Prog.Keeps.run_bind (h.rpc trivial) fun claimHash => ?_
    exact Prog.Keeps.run_ite (fun _ => Prog.Keeps.run_pure) fun _ => Prog.Keeps.run_throw

/-- A claim that is sent with a challenge was read from the store before. -/
lemma keeps_challenge (h : Reads P i J e) {C : Claim → Prop}
    (hread : ∀ s d, P.inv s → J s → s.claim? e = some d → C d.toClaim)
    (hsend : ∀ c v s, C c → P.inv s → J s → P.issue i (.send (.challenge e c v)) s) :
    Prog.Keeps P i J (challenge route e).run := by
  refine Prog.Keeps.run_bind (h.rpc trivial) fun epochPeriod => ?_
  refine Prog.Keeps.run_bind (h.keeps (quiet_isEpochFinalized _ _ _)) fun finalized => ?_
  refine Prog.Keeps.run_ite (fun _ => Prog.Keeps.run_throw) fun _ => ?_
  have hrest : ∀ c, C c → Prog.Keeps P i J (do
      let deposit ← rpc .deposit
      let balance ← balance route
      if balance < deposit then
        throw "Insufficient funds"
      else
        match ← ExceptT.lift (sendTx (.challenge e c (challengeValue route deposit))).run with
        | .ok _ => pure ()
        | .error err => do
          if ← ExceptT.lift (wasEventEmitted .outbox route.outboxAddress sigChallenged e) then
            pure ()
          else if ← ExceptT.lift
              (wasEventEmitted .outbox route.outboxAddress sigVerificationStarted e) then
            throw "VerificationStarted"
          else
            throw err : Fallible Unit).run := by
    intro c hc
    refine Prog.Keeps.run_bind (h.rpc trivial) fun deposit => ?_
    refine Prog.Keeps.run_bind (h.keeps (quiet_balance route)) fun balance => ?_
    refine Prog.Keeps.run_ite (fun _ => Prog.Keeps.run_throw) fun _ => ?_
    refine Prog.Keeps.run_bind (Prog.Keeps.run_lift
      (keeps_sendTx h.toPatient (hsend c _ · hc))) fun r => ?_
    cases r with
    | ok _ => exact Prog.Keeps.run_pure
    | error err =>
      refine Prog.Keeps.run_bind (Prog.Keeps.run_lift
        (h.keeps (quiet_wasEventEmitted _ _ _ _))) fun challenged => ?_
      refine Prog.Keeps.run_ite (fun _ => Prog.Keeps.run_pure) fun _ => ?_
      refine Prog.Keeps.run_bind (Prog.Keeps.run_lift
        (h.keeps (quiet_wasEventEmitted _ _ _ _))) fun started => ?_
      exact Prog.Keeps.run_ite (fun _ => Prog.Keeps.run_throw) fun _ => Prog.Keeps.run_throw
  intro s hI hJ
  rw [Prog.wp_run_lift_bind]
  exact h.getClaim hI hJ fun d hd => hrest d.toClaim (hread s d hI hJ hd) s hI hJ

lemma keeps_sendSnapshot (h : Reads P i J e)
    (hroute : ∀ s, P.inv s → J s → P.fault i (.unknownRoute route.name) s)
    (hsend : ∀ g c s, P.inv s → J s → P.issue i (.send (.sendSnapshot e g c)) s) :
    Prog.Keeps P i J (sendSnapshot route e).run := by
  intro s hI hJ
  unfold sendSnapshot
  rw [Prog.wp_run_lift_bind]
  refine h.getClaim hI hJ fun d _ => ?_
  refine Prog.Keeps.run_ite (fun _ => keeps_sendTx h.toPatient (hsend _ _)) (fun _ => ?_) s hI hJ
  refine Prog.Keeps.run_ite (fun _ => keeps_sendTx h.toPatient (hsend _ _)) fun _ => ?_
  exact Prog.Keeps.run_lift (Prog.Keeps.panic hroute)

/-- The claim that is sent is the stored one, and nobody has challenged it. -/
lemma keeps_sendUnlessChallenged (h : Reads P i J e) {tx : ℕ → Claim → Tx} {done : Word}
    (hsend : ∀ s d, P.inv s → J s → s.claim? e = some d → d.challenger = 0 →
      P.issue i (.send (tx e d.toClaim)) s) :
    Prog.Keeps P i J (sendUnlessChallenged route e tx done).run := by
  intro s hI hJ
  unfold sendUnlessChallenged
  rw [Prog.wp_run_lift_bind]
  refine h.get hI hJ fun d hd => ?_
  rw [Prog.wp_run_ite]
  refine ⟨fun _ => ⟨hI, hJ⟩, fun hc => ?_⟩
  rw [Prog.wp_run_lift_bind]
  refine h.getClaim hI hJ fun d' hd' => ?_
  obtain rfl : d = d' := Option.some.inj (hd.symm.trans hd')
  rw [Prog.wp_run_lift_bind]
  refine ⟨hI, hsend s d hI hJ hd (by simpa using hc), fun t ht hIt r _ => ?_⟩
  have hJt := h.rely s t hJ ht hIt
  cases r with
  | ok _ => exact ⟨hIt, hJt⟩
  | error err =>
    refine Prog.Keeps.run_bind (Prog.Keeps.run_lift
      (h.keeps (quiet_wasEventEmitted _ _ _ _))) (fun emitted => ?_) t hIt hJt
    refine Prog.Keeps.run_ite (fun _ => Prog.Keeps.run_pure) fun _ => ?_
    refine Prog.Keeps.run_bind (Prog.Keeps.run_lift
      (h.keeps (quiet_wasEventEmitted _ _ _ _))) fun challenged => ?_
    exact Prog.Keeps.run_ite (fun _ => Prog.Keeps.run_pure) fun _ => Prog.Keeps.run_throw

lemma keeps_executeRelay (h : Patient P i J) {relay : Relay}
    (hsend : ∀ proof s, P.inv s → J s → P.issue i (.send (.executeTransaction proof relay)) s) :
    Prog.Keeps P i J (executeRelay relay).run := by
  refine Prog.Keeps.run_bind (h.rpc trivial) fun spent => ?_
  refine Prog.Keeps.run_ite (fun _ => Prog.Keeps.run_pure) fun _ => ?_
  refine Prog.Keeps.run_bind (h.keeps (quiet_fetchOutboxProof _)) fun ⟨proof, root⟩ => ?_
  refine Prog.Keeps.run_bind (h.rpc trivial) fun rootExists => ?_
  refine Prog.Keeps.run_ite (fun _ => Prog.Keeps.run_throw) fun _ => ?_
  refine Prog.Keeps.run_bind (Prog.Keeps.run_lift (keeps_sendTx h (hsend _))) fun r => ?_
  cases r with
  | ok _ => exact Prog.Keeps.run_pure
  | error _ => exact Prog.Keeps.run_throw

/-- The verdict is the root of the stored claim against a root the inbox has answered with,
and the one write of the body is the task that follows from it. -/
lemma wp_validateClaim (h : Reads P i J e) {now : ℕ} {D : Word → World → Prop}
    {R : Except String Unit → World → Prop} (hI : P.inv s) (hJ : J s)
    (herr : ∀ err t, P.inv t → J t → R (.error err) t)
    (hread : ∀ s d, P.inv s → J s → s.claim? e = some d → D d.stateRoot s)
    (hrely : ∀ root s t, D root s → J s → P.rely i s t → P.inv t → D root t)
    (hvalid : ∀ root t, P.inv t → J t → D root t → P.answer i (.snapshots e) (.ok root) t →
      (TaskStore.addTask ⟨e, u64 (now + route.settings.startVerificationDelay),
        .startVerification⟩).wp P i (fun _ => R (.ok ())) t)
    (hinvalid : ∀ root root' t, root ≠ root' → P.inv t → J t → D root t →
      P.answer i (.snapshots e) (.ok root') t →
      (TaskStore.addTask ⟨e, now, .challenge⟩).wp P i (fun _ => R (.ok ())) t) :
    (validateClaim route e now).run.wp P i R s := by
  have hcheck : Prog.Keeps P i J (do
      let epochPeriod ← rpc .epochPeriod
      isEpochFinalized e epochPeriod route.sequencerInbox : Fallible Bool).run :=
    Prog.Keeps.run_bind (h.rpc trivial) fun _ => h.keeps (quiet_isEpochFinalized _ _ _)
  have hsplit : validateClaim route e now = (do
      let epochPeriod ← rpc .epochPeriod
      isEpochFinalized e epochPeriod route.sequencerInbox : Fallible Bool) >>= fun finalized => (do
        if !finalized then
          throw "EpochNotFinalized"
        else do
          let claimData ← ExceptT.lift (ClaimStore.get e)
          let correctStateRoot ← rpc (.snapshots e)
          if claimData.stateRoot = correctStateRoot then
            ExceptT.lift (TaskStore.addTask ⟨e,
              u64 (now + route.settings.startVerificationDelay), .startVerification⟩)
          else
            ExceptT.lift (TaskStore.addTask ⟨e, now, .challenge⟩) : Fallible Unit) := by
    rw [validateClaim, bind_assoc]
  rw [hsplit, Prog.wp_run_bind]
  refine Prog.wp_mono ?_ (hcheck s hI hJ)
  rintro r t ⟨hIt, hJt⟩
  rcases r with err | finalized
  · exact herr err t hIt hJt
  show Prog.wp P i (ExceptT.run (if !finalized then _ else _)) R t
  rw [Prog.wp_run_ite]
  refine ⟨fun _ => herr _ t hIt hJt, fun _ => ?_⟩
  rw [Prog.wp_run_lift_bind]
  refine h.get hIt hJt fun d hd => ?_
  have hD := hread t d hIt hJt hd
  rw [Prog.wp_run_bind, wp_run_rpc]
  refine ⟨hIt, h.issue _ t trivial hIt hJt, fun u hu hIu a ha => ?_⟩
  have hJu := h.rely t u hJt hu hIu
  have hDu := hrely _ t u hD hJt hu hIu
  rcases a with err | root
  · exact herr err u hIu hJu
  show Prog.wp P i (ExceptT.run (if d.stateRoot = root then _ else _)) R u
  rw [Prog.wp_run_ite]
  refine ⟨fun heq => ?_, fun hne => ?_⟩
  · subst heq
    rw [Prog.wp_run_lift]
    exact hvalid _ u hIu hJu hDu ha
  · rw [Prog.wp_run_lift]
    exact hinvalid _ root u hne hIu hJu hDu ha

/-- The one write of the body removes the claim, and the body returns right after it. -/
lemma wp_withdrawDeposit (h : Reads P i J e) {R : Except String Unit → World → Prop}
    (hI : P.inv s) (hJ : J s) (herr : ∀ err t, P.inv t → J t → R (.error err) t)
    (hhonest : ∀ t d, P.inv t → J t → t.claim? e = some d → partyOf d.honest = .none →
      P.fault i (.honestNotDetermined e) t)
    (hsend : ∀ c t, P.inv t → J t → P.issue i (.send (.withdrawClaimDeposit e c)) t ∧
      P.issue i (.send (.withdrawChallengeDeposit e c)) t)
    (hremove : ∀ t, P.inv t → J t → (ClaimStore.remove e).wp P i (fun _ => R (.ok ())) t) :
    (withdrawDeposit e).run.wp P i R s := by
  unfold withdrawDeposit
  rw [Prog.wp_run_bind, wp_run_rpc]
  refine ⟨hI, h.issue _ s trivial hI hJ, fun t ht hIt a _ => ?_⟩
  have hJt := h.rely s t hJ ht hIt
  rcases a with err | claimHash
  · exact herr err t hIt hJt
  show Prog.wp P i (ExceptT.run (if claimHash = 0 then _ else _)) R t
  rw [Prog.wp_run_ite]
  refine ⟨fun _ => Prog.wp_run_lift.mpr (hremove t hIt hJt), fun _ => ?_⟩
  rw [Prog.wp_run_lift_bind]
  refine h.getClaim hIt hJt fun d hd => ?_
  have hrest : ∀ tx, (∀ u, P.inv u → J u → P.issue i (.send tx) u) → (do
      match ← ExceptT.lift (sendTx tx).run with
      | .ok _ => ExceptT.lift (ClaimStore.remove e)
      | .error err => do
        let claimHash ← rpc (.claimHashes e)
        if claimHash = 0 then
          ExceptT.lift (ClaimStore.remove e)
        else
          throw err : Fallible Unit).run.wp P i R t := by
    intro tx hsent
    rw [Prog.wp_run_lift_bind]
    refine ⟨hIt, hsent t hIt hJt, fun u hu hIu r _ => ?_⟩
    have hJu := h.rely t u hJt hu hIu
    cases r with
    | ok _ => exact Prog.wp_run_lift.mpr (hremove u hIu hJu)
    | error err =>
      show Prog.wp P i (ExceptT.run (rpc (.claimHashes e) >>= _)) R u
      rw [Prog.wp_run_bind, wp_run_rpc]
      refine ⟨hIu, h.issue _ u trivial hIu hJu, fun v hv hIv a _ => ?_⟩
      have hJv := h.rely u v hJu hv hIv
      rcases a with err' | claimHash
      · exact herr err' v hIv hJv
      · show Prog.wp P i (ExceptT.run (if claimHash = 0 then _ else _)) R v
        rw [Prog.wp_run_ite]
        exact ⟨fun _ => Prog.wp_run_lift.mpr (hremove v hIv hJv), fun _ => herr err v hIv hJv⟩
  show Prog.wp P i (ExceptT.run (ExceptT.lift (withdrawTx e d.toClaim) >>= _)) R t
  rw [Prog.wp_run_lift_bind]
  unfold withdrawTx
  cases hp : d.toClaim.honest with
  | none => exact ⟨hIt, hhonest t d hIt hJt hd hp⟩
  | claimer => exact hrest _ fun u hIu hJu => (hsend _ u hIu hJu).1
  | challenger => exact hrest _ fun u hIu hJu => (hsend _ u hIu hJu).2

end

end Tasks

end VeaValidator
