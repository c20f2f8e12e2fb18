import VeaValidator.Coop.Learn
import VeaValidator.World

/-!
The start of the validator.

Before it runs its routes, `main` builds them from the configuration, asks every chain for its height,
compares the balances of the wallet with the deposits, approves the WETH of the second route and reads
the timing of each route from its contracts. All of it runs alone; what it returns are the routes with
the settings that their programs go by.
-/

namespace VeaValidator

open Coop

namespace Startup

/-- What the start waits for. A chain is named by its id, a provider by its chain. -/
inductive Query
  | blockNumber (chain : ℕ)
  | blockByNumber (chain n : ℕ)
  | deposit (chain : ℕ) (outbox : Address)
  | balance (chain : ℕ) (owner : Address)
  | wethBalance (chain : ℕ) (weth owner : Address)
  | allowance (chain : ℕ) (weth owner spender : Address)
  | approve (chain : ℕ) (weth spender : Address) (amount : ℕ)
  | receipt (chain : ℕ) (hash : Word)
  | rollup (chain : ℕ) (outbox : Address)
  | confirmPeriodBlocks (chain : ℕ) (rollup : Address)
  | sequencerDelayLimit (chain : ℕ) (outbox : Address)
  | minChallengePeriod (chain : ℕ) (outbox : Address)
  | epochPeriod (chain : ℕ) (outbox : Address)
  deriving DecidableEq

/-- What a call returns when it succeeds. An approval that is sent is answered by its hash, and its
receipt by its status. -/
@[reducible] def Query.Result : Query → Type
  | .blockNumber _ => ℕ
  | .blockByNumber _ _ => Option Header
  | .deposit _ _ => ℕ
  | .balance _ _ => ℕ
  | .wethBalance _ _ _ => ℕ
  | .allowance _ _ _ _ => ℕ
  | .approve _ _ _ _ => Word
  | .receipt _ _ => Bool
  | .rollup _ _ => Address
  | .confirmPeriodBlocks _ _ => ℕ
  | .sequencerDelayLimit _ _ => Word
  | .minChallengePeriod _ _ => Word
  | .epochPeriod _ _ => Word

@[reducible] def Query.Answer (q : Query) : Type := Except String q.Result

inductive Panic
  /-- FATAL: SEQUENCER_INBOX must be set for L2 finality verification -/
  | sequencerInboxNotSet
  /-- FATAL: {} RPC unreachable or unhealthy: {} -/
  | unhealthy (chain e : String)
  /-- FATAL: Insufficient ETH balance. Need {} wei for deposit, have {} wei -/
  | insufficientEth (deposit balance : ℕ)
  /-- FATAL: Insufficient WETH balance on Gnosis. Need {} wei for deposit, have {} wei -/
  | insufficientWeth (deposit balance : ℕ)
  /-- FATAL: Insufficient xDAI on Gnosis for gas. Need {} wei, have {} wei -/
  | insufficientXdai (min balance : ℕ)
  /-- FATAL: WETH approval transaction failed -/
  | approvalFailed
  | expect (msg : String)
  | uintConversion
  /-- index out of bounds -/
  | indexOutOfBounds (index : ℕ)
  deriving DecidableEq

/-- The start has no store of its own. -/
abbrev M := Prog Unit Panic Query.Answer

abbrev Fallible := ExceptT String M

def rpc (q : Query) : Fallible q.Result := ExceptT.mk (Prog.ask q)

def expectSome {α : Type} (msg : String) : Option α → M α
  | some a => pure a
  | none => .panic (.expect msg)

/-- A call with `expect`. -/
def call (msg : String) (q : Query) : M q.Result := do
  match ← Prog.ask q with
  | .ok a => pure a
  | .error _ => .panic (.expect msg)

def toU64 (w : Word) : M ℕ :=
  if w.toNat < 2 ^ 64 then pure w.toNat else .panic .uintConversion

/-- The difference of two `u64`, which wraps. -/
def wrappingSub (a b : ℕ) : ℕ := u64 (a + (2 ^ 64 - b))

/-! ### The configuration -/

structure ChainInfo where
  depositToken : Option Address
  deriving DecidableEq

/-- What the start and the routes read of `ValidatorConfig`. -/
structure ValidatorConfig where
  walletAddress : Address
  chains : ℕ → Option ChainInfo
  inboxArbToEth : Address
  outboxArbToEth : Address
  inboxArbToGnosis : Address
  outboxArbToGnosis : Address
  arbOutbox : Address
  sequencerInbox : Option Address

structure Route where
  name : String
  inboxAddress : Address
  inboxProvider : ℕ
  outboxAddress : Address
  outboxProvider : ℕ
  wethAddress : Option Address
  settings : RouteSettings
  deriving DecidableEq

def testDefaults : RouteSettings where
  relayDelaySecs := 7 * 24 * 3600
  startVerificationDelay := 86400 + 3600
  minChallengePeriod := 600
  syncLookbackSecs := 7 * 24 * 3600 + 24 * 3600

/-- The route as its tasks and its indexer read it. -/
def Route.configured (c : ValidatorConfig) (route : Route) : VeaValidator.Route where
  name := route.name
  inboxAddress := route.inboxAddress
  outboxAddress := route.outboxAddress
  wethAddress := route.wethAddress
  sequencerInbox := c.sequencerInbox
  walletAddress := c.walletAddress
  settings := route.settings

/-- `build_provider`, of a chain with any URLs. -/
def buildProvider (c : ValidatorConfig) (chain : ℕ) : M ℕ := do
  let _ ← expectSome "Chain not found" (c.chains chain)
  pure chain

def arbToEth (c : ValidatorConfig) (arbProvider ethProvider : ℕ) (ethereum : ChainInfo) : Route where
  name := "ARB_TO_ETH"
  inboxAddress := c.inboxArbToEth
  inboxProvider := arbProvider
  outboxAddress := c.outboxArbToEth
  outboxProvider := ethProvider
  wethAddress := ethereum.depositToken
  settings := testDefaults

def arbToGnosis (c : ValidatorConfig) (arbProvider gnosisProvider : ℕ) (gnosis : ChainInfo) :
    Route where
  name := "ARB_TO_GNOSIS"
  inboxAddress := c.inboxArbToGnosis
  inboxProvider := arbProvider
  outboxAddress := c.outboxArbToGnosis
  outboxProvider := gnosisProvider
  wethAddress := gnosis.depositToken
  settings := testDefaults

def buildRoutes (c : ValidatorConfig) : M (List Route) := do
  let arbProvider ← buildProvider c 42161
  let ethProvider ← buildProvider c 1
  let gnosisProvider ← buildProvider c 100
  let ethereum ← expectSome "Ethereum" (c.chains 1)
  let gnosis ← expectSome "Gnosis" (c.chains 100)
  pure [arbToEth c arbProvider ethProvider ethereum, arbToGnosis c arbProvider gnosisProvider gnosis]

/-! ### The checks -/

/-- `routes[i]` -/
def index (routes : List Route) (i : ℕ) : M Route :=
  match routes[i]? with
  | some route => pure route
  | none => .panic (.indexOutOfBounds i)

def checkFinalityConfig (c : ValidatorConfig) : M Unit :=
  match c.sequencerInbox with
  | none => .panic .sequencerInboxNotSet
  | some _ => pure ()

/-- A chain of `check_rpc_health`. -/
def checkHealth (name : String) (chain : ℕ) : M Unit := do
  match ← Prog.ask (.blockNumber chain) with
  | .ok _ => pure ()
  | .error e => .panic (.unhealthy name e)

def checkRpcHealth (routes : List Route) : M Unit := do
  let first ← index routes 0
  let second ← index routes 1
  checkHealth "Arbitrum" first.inboxProvider
  checkHealth "Ethereum" first.outboxProvider
  checkHealth "Gnosis" second.outboxProvider

/-- The token of the deposits on Gnosis. -/
def wethGnosis (c : ValidatorConfig) : M Address := do
  let gnosis ← expectSome "Gnosis" (c.chains 100)
  expectSome "Gnosis should use WETH" gnosis.depositToken

def ensureWethApproval (c : ValidatorConfig) (gnosisProvider : ℕ) (walletAddress : Address) :
    Fallible Unit := do
  let weth ← ExceptT.lift (wethGnosis c)
  let currentAllowance ← rpc (.allowance gnosisProvider weth walletAddress c.outboxArbToGnosis)
  if currentAllowance = 0 then do
    let pending ← rpc (.approve gnosisProvider weth c.outboxArbToGnosis (2 ^ 256 - 1))
    let status ← rpc (.receipt gnosisProvider pending)
    if !status then
      ExceptT.lift (.panic .approvalFailed)
    else
      pure ()
  else
    pure ()

def xdaiMin : ℕ := 10 ^ 16

def checkBalances (c : ValidatorConfig) (routes : List Route) : Fallible Unit := do
  let first ← ExceptT.lift (index routes 0)
  let second ← ExceptT.lift (index routes 1)
  let ethDeposit ← rpc (.deposit first.outboxProvider c.outboxArbToEth)
  let ethBalance ← rpc (.balance first.outboxProvider c.walletAddress)
  if ethBalance < ethDeposit then
    ExceptT.lift (.panic (.insufficientEth ethDeposit ethBalance))
  else do
    let gnosisDeposit ← rpc (.deposit second.outboxProvider c.outboxArbToGnosis)
    let weth ← ExceptT.lift (wethGnosis c)
    let wethBalance ← rpc (.wethBalance second.outboxProvider weth c.walletAddress)
    if wethBalance < gnosisDeposit then
      ExceptT.lift (.panic (.insufficientWeth gnosisDeposit wethBalance))
    else do
      let xdaiBalance ← rpc (.balance second.outboxProvider c.walletAddress)
      if xdaiBalance < xdaiMin then
        ExceptT.lift (.panic (.insufficientXdai xdaiMin xdaiBalance))
      else
        ensureWethApproval c second.outboxProvider c.walletAddress

/-! ### The timing -/

def timingSafetyBufferSecs : ℕ := 10 * 60

def getAvgBlockTimeMs (provider : ℕ) : M ℕ := do
  let latest ← call "Failed to get latest block number" (.blockNumber provider)
  let latestBlock ← call "Failed to get latest block" (.blockByNumber provider latest)
  let latestBlock ← expectSome "Latest block not found" latestBlock
  let oldBlock ← call "Failed to get old block" (.blockByNumber provider (wrappingSub latest 10000))
  let oldBlock ← expectSome "Old block not found" oldBlock
  pure (u64 (wrappingSub latestBlock.timestamp oldBlock.timestamp * 1000) / 10000)

/-- The settings of a route, from the block time, the confirmation period of the rollup and the
parameters of the outbox. -/
def settingsOf (avgBlockTimeMs confirmPeriodBlocks sequencerDelayLimit minChallengePeriod
    epochPeriod : ℕ) : RouteSettings :=
  let relayDelaySecs := u64 (u64 (confirmPeriodBlocks * avgBlockTimeMs) / 1000 +
    timingSafetyBufferSecs)
  let startVerificationDelay := u64 (u64 (sequencerDelayLimit + epochPeriod) +
    timingSafetyBufferSecs)
  let minChallengePeriodWithBuffer := u64 (minChallengePeriod + timingSafetyBufferSecs)
  { relayDelaySecs
    startVerificationDelay
    minChallengePeriod := minChallengePeriodWithBuffer
    syncLookbackSecs := u64 (u64 (u64 (relayDelaySecs + startVerificationDelay) +
      minChallengePeriodWithBuffer) + timingSafetyBufferSecs) }

def minConfirmPeriodBlocks : ℕ := 14458

def loadRouteSettings (route : Route) (arbOutboxAddress : Address) (arbOutboxProvider : ℕ) :
    M RouteSettings := do
  let avgBlockTimeMs ← getAvgBlockTimeMs arbOutboxProvider
  let rollupAddress ← call "Failed to get rollup address from Arbitrum outbox"
    (.rollup arbOutboxProvider arbOutboxAddress)
  let confirmPeriodBlocks ← call "Failed to get confirmPeriodBlocks"
    (.confirmPeriodBlocks arbOutboxProvider rollupAddress)
  let sequencerDelayLimit ← call "Failed to get sequencerDelayLimit"
    (.sequencerDelayLimit route.outboxProvider route.outboxAddress)
  let sequencerDelayLimit ← toU64 sequencerDelayLimit
  let minChallengePeriod ← call "Failed to get minChallengePeriod"
    (.minChallengePeriod route.outboxProvider route.outboxAddress)
  let minChallengePeriod ← toU64 minChallengePeriod
  let epochPeriod ← call "Failed to get epochPeriod"
    (.epochPeriod route.outboxProvider route.outboxAddress)
  let epochPeriod ← toU64 epochPeriod
  pure (settingsOf avgBlockTimeMs (max confirmPeriodBlocks minConfirmPeriodBlocks)
    sequencerDelayLimit minChallengePeriod epochPeriod)

/-- The loop of `main` over the routes. -/
def loadSettings (arbOutboxAddress : Address) (ethProvider : ℕ) : List Route → M (List Route)
  | [] => pure []
  | route :: routes => do
    let settings ← loadRouteSettings route arbOutboxAddress ethProvider
    let rest ← loadSettings arbOutboxAddress ethProvider routes
    pure ({ route with settings } :: rest)

/-- `main` up to the routes. -/
def start (c : ValidatorConfig) : Fallible (List Route) := do
  let routes ← ExceptT.lift (buildRoutes c)
  ExceptT.lift (checkRpcHealth routes)
  checkBalances c routes
  ExceptT.lift (checkFinalityConfig c)
  let first ← ExceptT.lift (index routes 0)
  ExceptT.lift (loadSettings c.arbOutbox first.outboxProvider routes)

/-! ### What a start rests on -/

/-- The answers the start has got. -/
abbrev Answers : Type := (q : Query) → q.Answer → Prop

/-- The token of the deposits on Gnosis is configured. -/
def Token (c : ValidatorConfig) (weth : Address) : Prop :=
  ∃ gnosis, c.chains 100 = some gnosis ∧ gnosis.depositToken = some weth

/-- The wallet has the deposits of the two outboxes and pays for the gas. -/
structure Funded (c : ValidatorConfig) (H : Answers) (weth : Address) : Prop where
  token : Token c weth
  eth : ∃ deposit balance, H (.deposit 1 c.outboxArbToEth) (.ok deposit) ∧
    H (.balance 1 c.walletAddress) (.ok balance) ∧ deposit ≤ balance
  weth : ∃ deposit balance, H (.deposit 100 c.outboxArbToGnosis) (.ok deposit) ∧
    H (.wethBalance 100 weth c.walletAddress) (.ok balance) ∧ deposit ≤ balance
  xdai : ∃ balance, H (.balance 100 c.walletAddress) (.ok balance) ∧ xdaiMin ≤ balance

/-- The outbox on Gnosis may take the token: it could before, or an approval has succeeded. -/
def Approved (c : ValidatorConfig) (H : Answers) (weth : Address) : Prop :=
  ∃ allowance, H (.allowance 100 weth c.walletAddress c.outboxArbToGnosis) (.ok allowance) ∧
    (allowance ≠ 0 ∨ ∃ hash, H (.approve 100 weth c.outboxArbToGnosis (2 ^ 256 - 1)) (.ok hash) ∧
      H (.receipt 100 hash) (.ok true))

/-- The time of a block of the chain is the mean of the last ten thousand. -/
def BlockTime (H : Answers) (chain ms : ℕ) : Prop :=
  ∃ latest new old, H (.blockNumber chain) (.ok latest) ∧
    H (.blockByNumber chain latest) (.ok (some new)) ∧
    H (.blockByNumber chain (wrappingSub latest 10000)) (.ok (some old)) ∧
    ms = u64 (wrappingSub new.timestamp old.timestamp * 1000) / 10000

/-- The period of the rollup, as the settings use it. -/
def ConfirmPeriod (c : ValidatorConfig) (H : Answers) (chain blocks : ℕ) : Prop :=
  ∃ rollup confirmPeriodBlocks, H (.rollup chain c.arbOutbox) (.ok rollup) ∧
    H (.confirmPeriodBlocks chain rollup) (.ok confirmPeriodBlocks) ∧
    blocks = max confirmPeriodBlocks minConfirmPeriodBlocks

/-- The settings come from the rollup's chain and from what the outbox of the route says. -/
def Measured (c : ValidatorConfig) (H : Answers) (chain : ℕ) (route : Route)
    (settings : RouteSettings) : Prop :=
  ∃ ms blocks, ∃ delay challenge epoch : Word, BlockTime H chain ms ∧ ConfirmPeriod c H chain blocks ∧
    H (.sequencerDelayLimit route.outboxProvider route.outboxAddress) (.ok delay) ∧
    H (.minChallengePeriod route.outboxProvider route.outboxAddress) (.ok challenge) ∧
    H (.epochPeriod route.outboxProvider route.outboxAddress) (.ok epoch) ∧
    settings = settingsOf ms blocks delay.toNat challenge.toNat epoch.toNat

/-- The start asks to approve the token only for the outbox on Gnosis, which may not take any, and only
after the balances. -/
def Allowed (c : ValidatorConfig) (H : Answers) (q : Query) (_ : Unit) : Prop :=
  ∀ chain weth spender amount, q = .approve chain weth spender amount →
    chain = 100 ∧ spender = c.outboxArbToGnosis ∧ amount = 2 ^ 256 - 1 ∧ Funded c H weth ∧
      H (.allowance 100 weth c.walletAddress c.outboxArbToGnosis) (.ok 0)

/-- The query is no transaction. -/
def Query.Passive : Query → Prop
  | .approve _ _ _ _ => False
  | _ => True

section
variable {c : ValidatorConfig} {H : Answers} {C : Query → Unit → Prop} {α : Type} {q : Query}
  {chain : ℕ} {routes : List Route}

open Prog (Learns Tells)

lemma allowed_of_passive (q : Query) (s : Unit) (hq : q.Passive) : Allowed c H q s := by
  intro chain weth spender amount heq
  subst heq
  exact hq.elim

/-! ### The parts that send nothing -/

lemma learns_expectSome {msg : String} {o : Option α} :
    Learns H C (fun a => o = some a) (expectSome msg o) := by
  cases o with
  | none => exact .panic
  | some a => exact .pure rfl

lemma learns_toU64 {w : Word} : Learns H C (fun n => n = w.toNat) (toU64 w) :=
  .ite (fun _ => .pure rfl) fun _ => .panic

lemma learns_index {i : ℕ} : Learns H C (fun route => routes[i]? = some route) (index routes i) := by
  unfold index
  cases hroute : routes[i]? with
  | none => exact .panic
  | some route => exact .pure rfl

/-- The two routes, before their settings are loaded. -/
def Built (c : ValidatorConfig) (routes : List Route) : Prop :=
  ∃ ethereum gnosis, c.chains 1 = some ethereum ∧ c.chains 100 = some gnosis ∧
    routes = [arbToEth c 42161 1 ethereum, arbToGnosis c 42161 100 gnosis]

lemma learns_buildProvider (chain : ℕ) : Learns H C (fun p => p = chain) (buildProvider c chain) :=
  .bind learns_expectSome fun _ _ => .pure rfl

lemma learns_buildRoutes : Learns H C (Built c) (buildRoutes c) := by
  refine .bind (learns_buildProvider 42161) fun arb harb => ?_
  refine .bind (learns_buildProvider 1) fun eth heth => ?_
  refine .bind (learns_buildProvider 100) fun gno hgno => ?_
  subst harb heth hgno
  refine .bind learns_expectSome fun ethereum hethereum => ?_
  refine .bind learns_expectSome fun gnosis hgnosis => ?_
  exact .pure ⟨ethereum, gnosis, hethereum, hgnosis, rfl⟩

lemma learns_wethGnosis : Learns H C (Token c) (wethGnosis c) :=
  .bind learns_expectSome fun gnosis hgnosis =>
    .mono learns_expectSome fun _ hweth => ⟨gnosis, hgnosis, hweth⟩

lemma learns_checkFinalityConfig :
    Learns H C (fun _ => c.sequencerInbox ≠ none) (checkFinalityConfig c) := by
  unfold checkFinalityConfig
  cases c.sequencerInbox with
  | none => exact .panic
  | some inbox => exact .pure (Option.some_ne_none inbox)

variable (hC : ∀ q s, q.Passive → C q s)

include hC

lemma learns_call {msg : String} (hq : q.Passive) :
    Learns H C (fun a => H q (.ok a)) (call msg q) := by
  refine .bind (.ask fun s => hC q s hq) fun answer hanswer => ?_
  cases answer with
  | ok a => exact .pure hanswer
  | error e => exact .panic

lemma tells_rpc (hq : q.Passive) : Tells H C (fun a => H q (.ok a)) (rpc q) := by
  refine Learns.mono (.ask fun s => hC q s hq) fun answer hanswer => ?_
  cases answer with
  | ok a => exact hanswer
  | error e => trivial

/-- The three chains have answered. -/
def Healthy (H : Answers) : Prop :=
  ∀ chain ∈ [42161, 1, 100], ∃ n, H (.blockNumber chain) (.ok n)

lemma learns_checkHealth {name : String} :
    Learns H C (fun _ => ∃ n, H (.blockNumber chain) (.ok n)) (checkHealth name chain) := by
  refine .bind (.ask fun s => hC _ s trivial) fun answer hanswer => ?_
  cases answer with
  | ok n => exact .pure ⟨n, hanswer⟩
  | error e => exact .panic

lemma learns_checkRpcHealth (h : Built c routes) :
    Learns H C (fun _ => Healthy H) (checkRpcHealth routes) := by
  obtain ⟨ethereum, gnosis, -, -, rfl⟩ := h
  refine .bind learns_index fun first hfirst => .bind learns_index fun second hsecond => ?_
  cases hfirst
  cases hsecond
  refine .bind (learns_checkHealth hC) fun _ harb => .bind (learns_checkHealth hC) fun _ heth => ?_
  refine .mono (learns_checkHealth hC) fun _ hgno => ?_
  intro chain hchain
  simp only [List.mem_cons, List.not_mem_nil, or_false] at hchain
  rcases hchain with rfl | rfl | rfl
  · exact harb
  · exact heth
  · exact hgno

lemma learns_getAvgBlockTimeMs : Learns H C (BlockTime H chain) (getAvgBlockTimeMs chain) := by
  refine .bind (learns_call hC trivial) fun latest hlatest => ?_
  refine .bind (learns_call hC trivial) fun new? hnew => .bind learns_expectSome fun new hnew? => ?_
  refine .bind (learns_call hC trivial) fun old? hold => .bind learns_expectSome fun old hold? => ?_
  subst hnew? hold?
  exact .pure ⟨latest, new, old, hlatest, hnew, hold, rfl⟩

lemma learns_loadRouteSettings (route : Route) :
    Learns H C (Measured c H chain route) (loadRouteSettings route c.arbOutbox chain) := by
  refine .bind (learns_getAvgBlockTimeMs hC) fun ms hms => ?_
  refine .bind (learns_call hC trivial) fun rollup hrollup => ?_
  refine .bind (learns_call hC trivial) fun blocks hblocks => ?_
  refine .bind (learns_call hC trivial) fun delay hdelay => .bind learns_toU64 fun d hd => ?_
  refine .bind (learns_call hC trivial) fun period hperiod => .bind learns_toU64 fun m hm => ?_
  refine .bind (learns_call hC trivial) fun epoch hepoch => .bind learns_toU64 fun n hn => ?_
  subst hd hm hn
  exact .pure ⟨ms, _, delay, period, epoch, hms, ⟨rollup, blocks, hrollup, hblocks, rfl⟩, hdelay,
    hperiod, hepoch, rfl⟩

/-- The route is one of the list, with settings of its own. -/
def Loaded (c : ValidatorConfig) (H : Answers) (chain : ℕ) (route route' : Route) : Prop :=
  ∃ settings, Measured c H chain route settings ∧ route' = { route with settings }

lemma learns_loadSettings (routes : List Route) :
    Learns H C (List.Forall₂ (Loaded c H chain) routes) (loadSettings c.arbOutbox chain routes) := by
  induction routes with
  | nil => exact .pure .nil
  | cons route routes ih =>
    refine .bind (learns_loadRouteSettings hC route) fun settings hsettings => ?_
    exact .bind ih fun rest hrest => .pure (.cons ⟨settings, hsettings, rfl⟩ hrest)

omit hC

/-! ### The whole start -/

/-- The approval is the only transaction of a start. -/
lemma tells_ensureWethApproval (h : ∀ weth, Token c weth → Funded c H weth) :
    Tells H (Allowed c H) (fun _ => ∃ weth, Funded c H weth ∧ Approved c H weth)
      (ensureWethApproval c 100 c.walletAddress) := by
  refine .bind (.lift learns_wethGnosis) fun weth hweth => ?_
  have hfunded : Funded c H weth := h weth hweth
  refine .bind (tells_rpc allowed_of_passive trivial) fun allowance hallowance => ?_
  refine .ite (fun hzero => ?_) fun hne => ?_
  · subst hzero
    have happrove : ∀ s, Allowed c H
        (.approve 100 weth c.outboxArbToGnosis (2 ^ 256 - 1)) s := by
      intro s chain weth' spender amount heq
      cases heq
      exact ⟨rfl, rfl, rfl, hfunded, hallowance⟩
    have hsend : Tells H (Allowed c H)
        (fun hash => H (.approve 100 weth c.outboxArbToGnosis (2 ^ 256 - 1)) (.ok hash))
        (rpc (.approve 100 weth c.outboxArbToGnosis (2 ^ 256 - 1))) := by
      refine Learns.mono (.ask happrove) fun answer hanswer => ?_
      cases answer with
      | ok hash => exact hanswer
      | error e => trivial
    refine .bind hsend fun hash hhash => ?_
    refine .bind (tells_rpc allowed_of_passive trivial) fun status hstatus => ?_
    refine .ite (fun _ => .lift .panic) fun hok => .pure ⟨weth, hfunded, 0, hallowance, .inr ?_⟩
    obtain rfl : status = true := by simpa using hok
    exact ⟨hash, hhash, hstatus⟩
  · exact .pure ⟨weth, hfunded, allowance, hallowance, .inl hne⟩

lemma tells_checkBalances (h : Built c routes) :
    Tells H (Allowed c H) (fun _ => ∃ weth, Funded c H weth ∧ Approved c H weth)
      (checkBalances c routes) := by
  obtain ⟨ethereum, gnosis, -, hgnosis, rfl⟩ := h
  refine .bind (.lift learns_index) fun first hfirst => ?_
  refine .bind (.lift learns_index) fun second hsecond => ?_
  cases hfirst
  cases hsecond
  have hrpc : ∀ {q : Query}, q.Passive → Tells H (Allowed c H) (fun a => H q (.ok a)) (rpc q) :=
    tells_rpc allowed_of_passive
  refine .bind (hrpc trivial) fun ethDeposit hethDeposit => ?_
  refine .bind (hrpc trivial) fun ethBalance hethBalance => ?_
  refine .ite (fun _ => .lift .panic) fun heth => ?_
  refine .bind (hrpc trivial) fun gnosisDeposit hgnosisDeposit => ?_
  refine .bind (.lift learns_wethGnosis) fun weth hweth => ?_
  refine .bind (hrpc trivial) fun wethBalance hwethBalance => ?_
  refine .ite (fun _ => .lift .panic) fun hgno => ?_
  refine .bind (hrpc trivial) fun xdaiBalance hxdaiBalance => ?_
  refine .ite (fun _ => .lift .panic) fun hxdai => tells_ensureWethApproval fun weth' hweth' => ?_
  have heq : weth' = weth := by
    obtain ⟨g, hg, hw⟩ := hweth
    obtain ⟨g', hg', hw'⟩ := hweth'
    rw [hg] at hg'
    cases hg'
    rw [hw] at hw'
    cases hw'
    rfl
  subst heq
  exact ⟨hweth, ⟨ethDeposit, ethBalance, hethDeposit, hethBalance, not_lt.mp heth⟩,
    ⟨gnosisDeposit, wethBalance, hgnosisDeposit, hwethBalance, not_lt.mp hgno⟩,
    ⟨xdaiBalance, hxdaiBalance, not_lt.mp hxdai⟩⟩

/-- What the start has shown when it returns these routes. -/
structure Started (c : ValidatorConfig) (H : Answers) (routes : List Route) : Prop where
  healthy : Healthy H
  funded : ∃ weth, Funded c H weth ∧ Approved c H weth
  sequencerInbox : c.sequencerInbox ≠ none
  routes : ∃ built, Built c built ∧ List.Forall₂ (Loaded c H 1) built routes

lemma outboxProvider_first {first : Route} (h : Built c routes) (hfirst : routes[0]? = some first) :
    first.outboxProvider = 1 := by
  obtain ⟨ethereum, gnosis, -, -, rfl⟩ := h
  cases hfirst
  rfl

lemma tells_start : Tells H (Allowed c H) (Started c H) (start c) := by
  refine .bind (.lift learns_buildRoutes) fun built hbuilt => ?_
  refine .bind (.lift (learns_checkRpcHealth allowed_of_passive hbuilt)) fun _ hhealthy => ?_
  refine .bind (tells_checkBalances hbuilt) fun _ hfunded => ?_
  refine .bind (.lift learns_checkFinalityConfig) fun _ hinbox => ?_
  refine .bind (.lift learns_index) fun first hfirst => ?_
  rw [outboxProvider_first hbuilt hfirst]
  exact .lift (.mono (learns_loadSettings allowed_of_passive built) fun routes hroutes =>
    ⟨hhealthy, hfunded, hinbox, built, hbuilt, hroutes⟩)

/-! ### One transaction -/

/-- The query is a transaction. -/
def Sends (q : Query) : Prop := ¬q.Passive

lemma never {x : Fallible α} {K : Answers → α → Prop}
    (h : ∀ H, Tells H (fun q _ => q.Passive) (K H) x) : Prog.Never Sends x.run :=
  Learns.never h fun _ _ _ hq hn => hn hq

lemma once_ensureWethApproval {walletAddress : Address} :
    Prog.Once Sends (ensureWethApproval c chain walletAddress).run := by
  have hpassive : ∀ q (_ : Unit), Query.Passive q → q.Passive := fun _ _ h => h
  refine .run_later (never fun _ => .lift learns_wethGnosis) fun weth => ?_
  refine .run_later (never fun _ => tells_rpc hpassive trivial) fun allowance => ?_
  refine .run_ite (.run_before .ask fun hash => ?_) (.of_never .pure)
  exact never (K := fun _ _ => True) fun _ => .bind (tells_rpc hpassive trivial) fun status _ =>
    .ite (fun _ => .lift .panic) fun _ => .pure trivial

lemma once_checkBalances : Prog.Once Sends (checkBalances c routes).run := by
  have hrpc : ∀ {q : Query}, q.Passive → Prog.Never Sends (rpc q).run := fun hq =>
    never fun _ => tells_rpc (fun _ _ h => h) hq
  have hpanic : ∀ e : Panic, Prog.Once Sends (ExceptT.lift (.panic e : M Unit) : Fallible Unit).run :=
    fun _ => .of_never (.run_lift .panic)
  refine .run_later (never fun _ => .lift learns_index) fun first => ?_
  refine .run_later (never fun _ => .lift learns_index) fun second => ?_
  refine .run_later (hrpc trivial) fun ethDeposit => .run_later (hrpc trivial) fun ethBalance => ?_
  refine .run_ite (hpanic _) (.run_later (hrpc trivial) fun gnosisDeposit => ?_)
  refine .run_later (never fun _ => .lift learns_wethGnosis) fun weth => ?_
  refine .run_later (hrpc trivial) fun wethBalance => .run_ite (hpanic _) ?_
  refine .run_later (hrpc trivial) fun xdaiBalance => .run_ite (hpanic _) ?_
  exact once_ensureWethApproval

lemma once_start : Prog.Once Sends (start c).run := by
  have hpassive : ∀ q (_ : Unit), Query.Passive q → q.Passive := fun _ _ h => h
  refine .run_later (never fun _ => .lift learns_buildRoutes) fun routes => ?_
  refine .run_later (never (K := fun _ _ => True) fun _ => .lift ?_) fun _ => ?_
  · refine .bind learns_index fun first _ => .bind learns_index fun second _ => ?_
    refine .bind (learns_checkHealth hpassive) fun _ _ => ?_
    refine .bind (learns_checkHealth hpassive) fun _ _ => ?_
    exact .mono (learns_checkHealth hpassive) fun _ _ => trivial
  refine .run_before once_checkBalances fun _ => never (K := fun _ _ => True) fun _ => ?_
  refine .bind (.lift learns_checkFinalityConfig) fun _ _ => .bind (.lift learns_index) fun first _ => ?_
  exact .lift (.mono (learns_loadSettings hpassive routes) fun _ _ => trivial)

end

/-! ### The runs of a start -/

section
variable {c : ValidatorConfig} {rely : Unit → Unit → Prop} {l : List ((q : Query) × q.Answer)}
  {u : Unit}

/-- **A start is checked.** When the start returns routes, it has heard from the three chains, the
wallet has the deposits and the gas, the outbox on Gnosis may take the token, the sequencer's inbox is
configured, and the routes are the two of the configuration with the settings that their contracts and
the rollup's chain give. -/
theorem start_checked {routes : List Route}
    (h : (start c).run.Talks rely () l (.ok (.ok routes)) u) : Started c (Prog.In l) routes :=
  Prog.Learns.talks (K := fun H => Prog.Returns (Started c H) fun _ => True) (fun _ => tells_start) h

/-- **A start sends one approval at most.** It is for the outbox on Gnosis, which may not take any of
the token, and the balances have been sufficient. -/
theorem start_approves {chain amount : ℕ} {weth spender : Address}
    (h : (start c).run.Comes rely () l (.approve chain weth spender amount) u) :
    (chain = 100 ∧ spender = c.outboxArbToGnosis ∧ amount = 2 ^ 256 - 1 ∧
      Funded c (Prog.In l) weth ∧
      Prog.In l (.allowance 100 weth c.walletAddress c.outboxArbToGnosis) (.ok 0)) ∧
    ∀ x ∈ l, x.1.Passive := by
  have hallowed : Allowed c (Prog.In l) (.approve chain weth spender amount) u :=
    Prog.Learns.comes (fun _ => tells_start) h
  refine ⟨hallowed chain weth spender amount rfl, fun x hx => ?_⟩
  exact not_not.mp (once_start _ _ _ _ _ h id x hx)

end

/-! ### A start with an approval -/

def sampleConfig : ValidatorConfig where
  walletAddress := 3
  chains
    | 42161 => some ⟨none⟩
    | 1 => some ⟨none⟩
    | 100 => some ⟨some 4⟩
    | _ => none
  inboxArbToEth := 1
  outboxArbToEth := 2
  inboxArbToGnosis := 5
  outboxArbToGnosis := 6
  arbOutbox := 7
  sequencerInbox := some 8

def sampleNode : (q : Query) → q.Answer
  | .blockNumber _ => .ok 20000
  | .blockByNumber _ n => .ok (if n ≤ 20000 then some ⟨n, 12 * n⟩ else none)
  | .deposit _ _ => .ok 5
  | .balance _ _ => .ok (10 ^ 18)
  | .wethBalance _ _ _ => .ok 9
  | .allowance _ _ _ _ => .ok 0
  | .approve _ _ _ _ => .ok 11
  | .receipt _ _ => .ok true
  | .rollup _ _ => .ok 12
  | .confirmPeriodBlocks _ _ => .ok 45818
  | .sequencerDelayLimit _ _ => .ok 86400
  | .minChallengePeriod _ _ => .ok 0
  | .epochPeriod _ _ => .ok 3600

def sampleSettings : RouteSettings := ⟨550416, 90600, 600, 642216⟩

def sampleRoutes : List Route :=
  [{ arbToEth sampleConfig 42161 1 ⟨none⟩ with settings := sampleSettings },
    { arbToGnosis sampleConfig 42161 100 ⟨some 4⟩ with settings := sampleSettings }]

/-- What the start hears. -/
def sampleHeard : List ((q : Query) × q.Answer) := (start sampleConfig).run.exchanges sampleNode ()

lemma talks_sample : (start sampleConfig).run.Talks (fun _ _ => True) () sampleHeard
    (.ok (.ok sampleRoutes)) () := by
  have heval : ((start sampleConfig).run.eval sampleNode ()).1 = .ok (.ok sampleRoutes) := by rfl
  rw [← heval]
  exact Prog.talks_exchanges (fun _ => trivial) sampleNode _ ()

theorem start_checked_sample : Started sampleConfig (Prog.In sampleHeard) sampleRoutes :=
  start_checked talks_sample

theorem start_approves_sample : Funded sampleConfig (Prog.In (sampleHeard.take 9)) 4 ∧
    ∀ x ∈ sampleHeard.take 9, x.1.Passive := by
  have hsplit : sampleHeard = sampleHeard.take 9 ++
      ⟨.approve 100 4 6 (2 ^ 256 - 1), .ok 11⟩ :: sampleHeard.drop 10 := by rfl
  have htalk := talks_sample
  rw [hsplit] at htalk
  obtain ⟨u, hu⟩ := htalk.comes
  obtain ⟨⟨-, -, -, hfunded, -⟩, honce⟩ := start_approves hu
  exact ⟨hfunded, honce⟩

end Startup

end VeaValidator
