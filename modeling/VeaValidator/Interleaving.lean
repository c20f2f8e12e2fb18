import VeaValidator.Dispatcher
import VeaValidator.Indexer
import VeaValidator.Coop.System

/-!
The indexer and the dispatcher of a route on its two files.

Here the indexer is fed with logs directly, whatever its scans would have found: the handlers
run in the given order, with a pause before each, and the passes of the dispatcher fall
between any two suspension points.
-/

namespace VeaValidator

open Coop

inductive Role
  | indexer | dispatcher
  deriving DecidableEq

/-- What each of the two guarantees is what the other relies on. -/
lemma Role.guar_rely {P : Protocol Role World Panic Query.Answer}
    (hi : ∀ s t, P.guar .indexer s t → P.rely .dispatcher s t)
    (hd : ∀ s t, P.guar .dispatcher s t → P.rely .indexer s t) (i j : Role) (s t : World)
    (hij : i ≠ j) (h : P.guar i s t) : P.rely j s t := by
  cases i with
  | indexer =>
    cases j with
    | indexer => exact absurd rfl hij
    | dispatcher => exact hi s t h
  | dispatcher =>
    cases j with
    | indexer => exact hd s t h
    | dispatcher => exact absurd rfl hij

/-- The roots the inbox answers with once an epoch is finalized. The dispatcher asks for the snapshot
of an epoch only when the nodes have shown it to be final, by `Audit.snapshots_checked`. -/
def SnapshotsAre (snap : ℕ → Word) : Role → (q : Query) → q.Answer → World → Prop
  | .dispatcher, .snapshots e, .ok root, _ => root = snap e
  | _, _, _, _ => True

/-- The empty files of a route that has never run. -/
def Empty (w : World) : Prop := w.schedule.tasks = [] ∧ w.claims = [] ∧ w.log = []

lemma Empty.claim? {w : World} (h : Empty w) (e : ℕ) : w.claim? e = none := by
  rw [World.claim?, h.2.1]
  rfl

lemma Empty.not_queued {w : World} (h : Empty w) (e : ℕ) (k : KindName) : ¬w.Queued e k := by
  simp [World.Queued, h.1]

/-- The route is started again: its files stay, its memory does not. -/
def Restarted (s t : World) : Prop :=
  ∃ onSync, t = { s with
    schedule := { s.schedule with onSync }
    inboxCatchup := {}
    outboxCatchup := {} }

/-- A route whose indexer is given the logs of a list in `D`, and whose dispatcher makes any
number of passes. -/
def handlerSystem (route : Route) (D : List (ScanTarget × Log) → Prop)
    (answer : Role → (q : Query) → q.Answer → World → Prop) (restart : World → World → Prop) :
    System Role World Panic Query.Answer where
  init := Empty
  boot
    | .indexer, p => ∃ logs, D logs ∧ p = Indexer.deliver route logs
    | .dispatcher, p => ∃ n, p = Dispatcher.run route n
  answer
  env _ _ := False
  restart

/-! ### A route on a small chain -/

namespace Sample

def route : Route where
  name := "ARB_TO_ETH"
  inboxAddress := 1
  outboxAddress := 2
  wethAddress := none
  sequencerInbox := none
  walletAddress := 3
  settings := ⟨10, 0, 20, 1000⟩

/-- A log of the outbox in a block with a timestamp. -/
def log (topics : List Word) (root : UInt8) (block : ℕ) : Log where
  topics
  data := List.replicate 31 0 ++ [root]
  blockNumber := some block
  blockTimestamp := some (10 * block)
  transactionHash := some 7

def claimed (e : ℕ) (root : UInt8) (block : ℕ) : Log :=
  log [sigClaimed, 9, BitVec.ofNat 256 e] root block
def verificationStarted (e block : ℕ) : Log :=
  log [sigVerificationStarted, BitVec.ofNat 256 e] 0 block
def challenged (e block : ℕ) : Log := log [sigChallenged, BitVec.ofNat 256 e, 8] 0 block
def verified (e block : ℕ) : Log := log [sigVerified, BitVec.ofNat 256 e] 0 block

/-- Nodes with a clock, at which every root is 1 and every balance is `balance`. -/
def node (now balance : ℕ) : (q : Query) → q.Answer
  | .sleep _ => .ok ()
  | .blockByNumber _ (.number n) => .ok (some ⟨n, 10 * n⟩)
  | .blockByNumber _ _ => .ok (some ⟨now / 10, now⟩)
  | .epochPeriod => .ok 3600
  | .snapshots _ => .ok 1
  | .claimHashes _ => .ok 1
  | .deposit => .ok 5
  | .ethBalance _ => .ok balance
  | .send _ => .ok ()
  | _ => .error "connection refused"

/-- The same role with the same answers, several times. -/
def times (n : ℕ) (i : Role) (o : (q : Query) → q.Answer) :
    List (Role × ((q : Query) → q.Answer)) := List.replicate n (i, o)

/-- The route on empty files, with these logs to come and two passes to make. -/
def start (logs : List (ScanTarget × Log)) : Config Role World Panic Query.Answer where
  store := { schedule := { onSync := true } }
  thread
    | .indexer => Indexer.deliver route logs
    | .dispatcher => Dispatcher.run route 2

lemma mem_roles (i : Role) : i ∈ [Role.indexer, Role.dispatcher] := by
  cases i <;> simp

lemma snapshotsAre_node (now balance : ℕ) (i : Role) (q : Query) (s : World) :
    SnapshotsAre (fun _ => 1) i q (node now balance q) s := by
  cases i with
  | indexer => trivial
  | dispatcher => cases q <;> trivial

/-- What is played with the nodes of the sample is a run. -/
lemma reachable {D : List (ScanTarget × Log) → Prop} {restart : World → World → Prop}
    {logs : List (ScanTarget × Log)} (hD : D logs)
    {l : List (Role × ((q : Query) → q.Answer))}
    (hl : ∀ x ∈ l, ∃ now balance, x.2 = node now balance)
    (h : (start logs).plays [.indexer, .dispatcher] l = true) :
    (handlerSystem route D (SnapshotsAre fun _ => 1) restart).Reachable
      ((start logs).play l) := by
  refine System.reachable_play mem_roles (fun x hx q s => ?_) (.init ⟨rfl, rfl, rfl⟩ ?_) h
  · obtain ⟨now, balance, ho⟩ := hl x hx
    rw [ho]
    exact snapshotsAre_node now balance x.1 q s
  · rintro (_ | _)
    · exact ⟨logs, hD, rfl⟩
    · exact ⟨2, rfl⟩

lemma node_of_mem_times {n : ℕ} {i : Role} {now balance : ℕ}
    {x : Role × ((q : Query) → q.Answer)} (hx : x ∈ times n i (node now balance)) :
    ∃ now balance, x.2 = node now balance :=
  ⟨now, balance, by rw [List.eq_of_mem_replicate hx]⟩

lemma node_of_mem_append {l l' : List (Role × ((q : Query) → q.Answer))}
    (hl : ∀ x ∈ l, ∃ now balance, x.2 = node now balance)
    (hl' : ∀ x ∈ l', ∃ now balance, x.2 = node now balance) :
    ∀ x ∈ l ++ l', ∃ now balance, x.2 = node now balance := fun x hx =>
  (List.mem_append.mp hx).elim (hl x) (hl' x)

end Sample

end VeaValidator
