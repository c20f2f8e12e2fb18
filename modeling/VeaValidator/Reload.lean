import VeaValidator.Crashes
import VeaValidator.Revert

/-!
Tasks that survive a reload.

A task may wait for a week in the schedule file. Two kinds of fields are written by hand: a `U256`
as digits without leading zeros, and a byte string as two digits for every byte, both behind `0x`,
which is trimmed when they are read. What serde derives has these fields as texts. Its conversion to
JSON is a parameter, and the conversion of the schedule is put together from the two.
-/

namespace VeaValidator

open Coop Bytes

/-- `alloy::primitives::U256` as text: `{:#x}` and `from_str_radix(_, 16)`. -/
structure Uint where
  lowerHexAlternate : Word → String
  fromStrRadix16 : String → Option Word

/-- The number of a text of digits. -/
def hexNumber (cs : List Char) : Option ℕ :=
  cs.foldlM (fun n c => (Revert.hexValue c).map (16 * n + ·)) 0

/-- The digits of a number are read as the number. -/
lemma hexNumber_toDigits (n : ℕ) : hexNumber (Nat.toDigits 16 n) = some n := by
  induction n using Nat.strong_induction_on with
  | _ n ih =>
    rw [Nat.toDigits_eq_if (by decide)]
    split
    · next hlt =>
      rw [hexNumber, List.foldlM_cons, Revert.hexValue_digitChar hlt]
      simp
    · next hge =>
      have hlast : n % 16 < 16 := Nat.mod_lt n (by decide)
      have hrest := ih (n / 16) (by omega)
      rw [hexNumber] at hrest ⊢
      rw [List.foldlM_append, hrest]
      simp only [Option.bind_eq_bind, Option.bind_some, List.foldlM_cons, List.foldlM_nil,
        Revert.hexValue_digitChar hlast, Option.map_some, Nat.div_add_mod]
      rfl

/-- What the documentation of `U256` says. -/
structure Uint.Documented (uint : Uint) : Prop where
  lowerHexAlternate_eq : ∀ value : Word,
    uint.lowerHexAlternate value = "0x" ++ String.ofList (Nat.toDigits 16 value.toNat)
  fromStrRadix16_eq : ∀ cs n, cs ≠ [] → hexNumber cs = some n → n < 2 ^ 256 →
    uint.fromStrRadix16 (String.ofList cs) = some (BitVec.ofNat 256 n)

/-- What the documentation of `alloy::hex` says. -/
structure Revert.Hex.Documented (hex : Revert.Hex) : Prop where
  encode_eq : ∀ bytes, hex.encode bytes = lowerHex bytes
  decode_eq : ∀ cs bytes, Revert.decodeDigits cs = some bytes →
    hex.decode (String.ofList cs) = some bytes

/-- The parts of `alloy` that the fields are written with. -/
structure Alloy where
  uint : Uint
  hex : Revert.Hex

structure Alloy.Documented (alloy : Alloy) : Prop where
  uint : alloy.uint.Documented
  hex : alloy.hex.Documented

/-- `s.trim_start_matches("0x")` -/
def trim0x (s : String) : String := String.ofList (trimStartMatches ['0', 'x'] s.toList)

/-- What is written behind `0x` is there when it has been trimmed. -/
lemma trim0x_digits {cs : List Char} (h : Digits cs) :
    trim0x ("0x" ++ String.ofList cs) = String.ofList cs := by
  have hlist : ("0x" ++ String.ofList cs).toList = '0' :: 'x' :: cs := by simp
  rw [trim0x, hlist, trimStartMatches_digits h]

/-! ### The two codecs -/

namespace U256Hex

variable {uint : Uint}

def serialize (uint : Uint) (value : Word) : String := uint.lowerHexAlternate value

def deserialize (uint : Uint) (s : String) : Option Word := uint.fromStrRadix16 (trim0x s)

/-- **A number is read as it was written**, zero included. -/
lemma deserialize_serialize (h : uint.Documented) (value : Word) :
    deserialize uint (serialize uint value) = some value := by
  have hdigits : hexNumber (Nat.toDigits 16 value.toNat) = some value.toNat :=
    hexNumber_toDigits value.toNat
  rw [deserialize, serialize, h.lowerHexAlternate_eq, trim0x_digits (digits_toDigits _),
    h.fromStrRadix16_eq _ _ Nat.toDigits_ne_nil hdigits value.isLt, BitVec.ofNat_toNat,
    BitVec.setWidth_eq]

end U256Hex

namespace BytesHex

variable {hex : Revert.Hex}

def serialize (hex : Revert.Hex) (value : List UInt8) : String := "0x" ++ hex.encode value

def deserialize (hex : Revert.Hex) (s : String) : Option (List UInt8) := hex.decode (trim0x s)

/-- **A byte string is read as it was written**, the empty one included, and with the zeros at its
beginning. -/
lemma deserialize_serialize (h : hex.Documented) (value : List UInt8) :
    deserialize hex (serialize hex value) = some value := by
  rw [deserialize, serialize, h.encode_eq, lowerHex, trim0x_digits (digits_hexPair value),
    h.decode_eq _ _ (Revert.decodeDigits_hexPair value)]

end BytesHex

/-! ### What serde derives

The structures with texts in the place of the fields that are written by hand.
-/

namespace Wire

structure Relay where
  position : String
  l2Sender : Address
  destAddr : Address
  l2Block : ℕ
  l1Block : ℕ
  l2Timestamp : ℕ
  amount : String
  data : String
  deriving DecidableEq

inductive TaskKind
  | saveSnapshot
  | claim (stateRoot : Word)
  | validateClaim
  | challenge
  | sendSnapshot
  | startVerification
  | verifySnapshot
  | executeRelay (relay : Relay)
  | withdrawDeposit
  deriving DecidableEq

structure Task where
  epoch : ℕ
  executeAfter : ℕ
  kind : TaskKind
  deriving DecidableEq

structure RouteState where
  inboxLastBlock : Option ℕ
  outboxLastBlock : Option ℕ
  tasks : List Task
  indexingSince : Option ℕ
  onSync : Bool
  lastSavedCount : Option ℕ
  deriving DecidableEq

section
variable (alloy : Alloy)

def Relay.serialize (relay : VeaValidator.Relay) : Relay where
  position := U256Hex.serialize alloy.uint relay.position
  l2Sender := relay.l2Sender
  destAddr := relay.destAddr
  l2Block := relay.l2Block
  l1Block := relay.l1Block
  l2Timestamp := relay.l2Timestamp
  amount := U256Hex.serialize alloy.uint relay.amount
  data := BytesHex.serialize alloy.hex relay.data

def Relay.deserialize (relay : Relay) : Option VeaValidator.Relay := do
  let position ← U256Hex.deserialize alloy.uint relay.position
  let amount ← U256Hex.deserialize alloy.uint relay.amount
  let data ← BytesHex.deserialize alloy.hex relay.data
  pure {
    position
    l2Sender := relay.l2Sender
    destAddr := relay.destAddr
    l2Block := relay.l2Block
    l1Block := relay.l1Block
    l2Timestamp := relay.l2Timestamp
    amount
    data }

def TaskKind.serialize : VeaValidator.TaskKind → TaskKind
  | .saveSnapshot => .saveSnapshot
  | .claim stateRoot => .claim stateRoot
  | .validateClaim => .validateClaim
  | .challenge => .challenge
  | .sendSnapshot => .sendSnapshot
  | .startVerification => .startVerification
  | .verifySnapshot => .verifySnapshot
  | .executeRelay relay => .executeRelay (Relay.serialize alloy relay)
  | .withdrawDeposit => .withdrawDeposit

def TaskKind.deserialize : TaskKind → Option VeaValidator.TaskKind
  | .saveSnapshot => some .saveSnapshot
  | .claim stateRoot => some (.claim stateRoot)
  | .validateClaim => some .validateClaim
  | .challenge => some .challenge
  | .sendSnapshot => some .sendSnapshot
  | .startVerification => some .startVerification
  | .verifySnapshot => some .verifySnapshot
  | .executeRelay relay => (Relay.deserialize alloy relay).map .executeRelay
  | .withdrawDeposit => some .withdrawDeposit

def Task.serialize (task : VeaValidator.Task) : Task where
  epoch := task.epoch
  executeAfter := task.executeAfter
  kind := TaskKind.serialize alloy task.kind

def Task.deserialize (task : Task) : Option VeaValidator.Task := do
  let kind ← TaskKind.deserialize alloy task.kind
  pure { epoch := task.epoch, executeAfter := task.executeAfter, kind }

def RouteState.serialize (state : VeaValidator.RouteState) : RouteState where
  inboxLastBlock := state.inboxLastBlock
  outboxLastBlock := state.outboxLastBlock
  tasks := state.tasks.map (Task.serialize alloy)
  indexingSince := state.indexingSince
  onSync := state.onSync
  lastSavedCount := state.lastSavedCount

def RouteState.deserialize (state : RouteState) : Option VeaValidator.RouteState := do
  let tasks ← state.tasks.mapM (Task.deserialize alloy)
  pure {
    inboxLastBlock := state.inboxLastBlock
    outboxLastBlock := state.outboxLastBlock
    tasks
    indexingSince := state.indexingSince
    onSync := state.onSync
    lastSavedCount := state.lastSavedCount }

end

variable {alloy : Alloy}

lemma Relay.deserialize_serialize (h : alloy.Documented) (relay : VeaValidator.Relay) :
    Relay.deserialize alloy (Relay.serialize alloy relay) = some relay := by
  have hposition := U256Hex.deserialize_serialize h.uint relay.position
  have hamount := U256Hex.deserialize_serialize h.uint relay.amount
  have hdata := BytesHex.deserialize_serialize h.hex relay.data
  rw [Relay.deserialize, Relay.serialize]
  dsimp only
  rw [hposition, hamount, hdata]
  rfl

lemma TaskKind.deserialize_serialize (h : alloy.Documented) (kind : VeaValidator.TaskKind) :
    TaskKind.deserialize alloy (TaskKind.serialize alloy kind) = some kind := by
  cases kind with
  | executeRelay relay =>
    rw [TaskKind.serialize, TaskKind.deserialize, Relay.deserialize_serialize h]
    rfl
  | _ => rfl

lemma Task.deserialize_serialize (h : alloy.Documented) (task : VeaValidator.Task) :
    Task.deserialize alloy (Task.serialize alloy task) = some task := by
  rw [Task.deserialize, Task.serialize]
  dsimp only
  rw [TaskKind.deserialize_serialize h]
  rfl

lemma RouteState.deserialize_serialize (h : alloy.Documented) (state : VeaValidator.RouteState) :
    RouteState.deserialize alloy (RouteState.serialize alloy state) = some state := by
  have htasks : ∀ tasks : List VeaValidator.Task,
      (tasks.map (Task.serialize alloy)).mapM (Task.deserialize alloy) = some tasks := by
    intro tasks
    induction tasks with
    | nil => rfl
    | cons task tasks ih =>
      rw [List.map_cons, List.mapM_cons, Task.deserialize_serialize h, ih]
      rfl
  rw [RouteState.deserialize, RouteState.serialize]
  dsimp only
  rw [htasks]
  rfl

end Wire

/-! ### The schedule file -/

namespace Reload

open Files

variable {alloy : Alloy} {serde : Serde Wire.RouteState} {state : RouteState}

/-- The conversion of the schedule, over the one serde has for what it derives. -/
def routeState (alloy : Alloy) (serde : Serde Wire.RouteState) : Serde RouteState where
  toStringPretty state := serde.toStringPretty (Wire.RouteState.serialize alloy state)
  fromStr text := serde.fromStr text >>= Wire.RouteState.deserialize alloy

/-- `TaskStore::load` after `TaskStore::save`. -/
def reload (c : Serde RouteState) (state : RouteState) : FileM RouteState := do
  Files.TaskStore.save c state
  Files.TaskStore.load c

lemma read_back_routeState (halloy : alloy.Documented)
    (hserde : serde.fromStr (serde.toStringPretty (Wire.RouteState.serialize alloy state)) =
      some (Wire.RouteState.serialize alloy state)) :
    (routeState alloy serde).fromStr ((routeState alloy serde).toStringPretty state) =
      some state := by
  show (serde.fromStr (serde.toStringPretty (Wire.RouteState.serialize alloy state)) >>=
    Wire.RouteState.deserialize alloy) = some state
  rw [hserde]
  exact Wire.RouteState.deserialize_serialize halloy state

/-- **Tasks survive a reload.** Every `U256` and every byte string is read as it was written, and so
the schedule that is loaded after it has been saved is the same. -/
theorem survives_reload (halloy : alloy.Documented) :
    (∀ value : Word,
      U256Hex.deserialize alloy.uint (U256Hex.serialize alloy.uint value) = some value) ∧
    (∀ value : List UInt8,
      BytesHex.deserialize alloy.hex (BytesHex.serialize alloy.hex value) = some value) ∧
    ∀ (serde : Serde Wire.RouteState) (state : RouteState),
      serde.fromStr (serde.toStringPretty (Wire.RouteState.serialize alloy state)) =
        some (Wire.RouteState.serialize alloy state) →
      ∀ (o : (q : Query) → q.Answer) (f : File),
        ((reload (routeState alloy serde) state).eval o f).1 = .ok state := by
  refine ⟨U256Hex.deserialize_serialize halloy.uint, BytesHex.deserialize_serialize halloy.hex, ?_⟩
  intro serde state hserde o f
  have hsaved : Loads (routeState alloy serde) "schedule" {}
      (some (ofText ((routeState alloy serde).toStringPretty state))) state :=
    .of_saved (read_back_routeState halloy hserde)
  rw [reload, Files.TaskStore.save, Prog.eval_bind_ok eval_save]
  exact congrArg Prod.fst (hsaved o)

/-- The functions the documentation describes. -/
def documentedAlloy : Alloy where
  uint := {
    lowerHexAlternate value := "0x" ++ String.ofList (Nat.toDigits 16 value.toNat)
    fromStrRadix16 s := do
      let n ← hexNumber s.toList
      if n < 2 ^ 256 then some (BitVec.ofNat 256 n) else none }
  hex := Revert.hexCodec

lemma documentedAlloy_documented : documentedAlloy.Documented := by
  refine ⟨⟨fun _ => rfl, ?_⟩, ⟨fun _ => rfl, ?_⟩⟩
  · intro cs n _ hn hlt
    show (hexNumber (String.ofList cs).toList >>= fun n =>
      if n < 2 ^ 256 then some (BitVec.ofNat 256 n) else none) = some (BitVec.ofNat 256 n)
    rw [String.toList_ofList, hn]
    exact if_pos hlt
  · intro cs bytes hbytes
    show Revert.hexCodec.decode (String.ofList cs) = some bytes
    rw [Revert.hexCodec]
    dsimp only
    rw [String.toList_ofList]
    split
    · -- No digit is an `x`.
      cases hbytes
    · exact hbytes

/-- A schedule with a relay that begins with zeros, has the position zero, and waits for a week. -/
def relaying : RouteState where
  inboxLastBlock := some 40
  tasks := [{
    epoch := 5
    executeAfter := 604900
    kind := .executeRelay {
      position := 0
      l2Sender := 0x11
      destAddr := 0x22
      l2Block := 60
      l1Block := 50
      l2Timestamp := 100
      amount := 255
      data := [0x00, 0x00, 0xde, 0xad] } }]

def relayingText : String :=
  "\x7b\n  \"inbox_last_block\": 40,\n  \"outbox_last_block\": null,\n" ++
  "  \"tasks\": [\n    \x7b\n" ++
  "      \"epoch\": 5,\n      \"execute_after\": 604900,\n      \"kind\": \x7b\n" ++
  "        \"type\": \"ExecuteRelay\",\n        \"position\": \"0x0\",\n" ++
  "        \"l2_sender\": \"0x0000000000000000000000000000000000000011\",\n" ++
  "        \"dest_addr\": \"0x0000000000000000000000000000000000000022\",\n" ++
  "        \"l2_block\": 60,\n        \"l1_block\": 50,\n        \"l2_timestamp\": 100,\n" ++
  "        \"amount\": \"0xff\",\n        \"data\": \"0x0000dead\"\n      \x7d\n    \x7d\n  ],\n" ++
  "  \"indexing_since\": null,\n  \"on_sync\": false,\n  \"last_saved_count\": null\n\x7d"

def relayingSerde : Serde Wire.RouteState :=
  Crashes.table [(relayingText, Wire.RouteState.serialize documentedAlloy relaying)]

theorem survives_reload_sample :
    U256Hex.deserialize documentedAlloy.uint (U256Hex.serialize documentedAlloy.uint 0) = some 0 ∧
    BytesHex.deserialize documentedAlloy.hex (BytesHex.serialize documentedAlloy.hex []) =
      some [] ∧
    ((reload (routeState documentedAlloy relayingSerde) relaying).eval Crashes.silent none).1 =
      .ok relaying := by
  have hsound := survives_reload documentedAlloy_documented
  refine ⟨hsound.1 0, hsound.2.1 [], hsound.2.2 relayingSerde relaying ?_ Crashes.silent none⟩
  decide +kernel

/-! ### The runs of a store on its file -/

section
variable {o : (q : Query) → q.Answer} {f u : File} {w : World} {β : Type}
  {call : Files.TaskStore.Call β}

/-- The next call saves what serde can write. -/
def Writable (alloy : Alloy) (serde : Serde Wire.RouteState) (call : Files.TaskStore.Call β)
    (w : World) : Prop :=
  ∀ b, call.saves w.schedule = some b → serde.Writes (Wire.RouteState.serialize alloy b)

/-- The file after some calls of a store, and the world after the programs they stand for. At the
beginning there is no file. -/
inductive Stored (alloy : Alloy) (serde : Serde Wire.RouteState) (o : (q : Query) → q.Answer) :
    File → World → Prop
  | start {w : World} (h : w.schedule = {}) : Stored alloy serde o none w
  | call {f : File} {w : World} {β : Type} {call : Files.TaskStore.Call β} {p : M β}
    (hp : Files.TaskStore.Models call p) (hwrites : Writable alloy serde call w)
    (h : Stored alloy serde o f w) :
    Stored alloy serde o ((call.run (routeState alloy serde)).eval o f).2 (p.eval o w).2

lemma writes_routeState (halloy : alloy.Documented) (hwrites : Writable alloy serde call w) :
    ∀ b, call.saves w.schedule = some b → (routeState alloy serde).Writes b := by
  intro b hb
  have hserde := hwrites b hb
  exact ⟨hserde.group, read_back_routeState halloy hserde.read_back⟩

lemma strict_routeState (hstrict : serde.Strict) : (routeState alloy serde).Strict := by
  intro text state hread
  obtain ⟨wire, hwire, -⟩ := Option.bind_eq_some_iff.mp hread
  exact hstrict text wire hwire

/-- **No task is lost on the way through the file.** After any calls of the store, what is in the file
is the schedule of the model. -/
theorem loads_stored (halloy : alloy.Documented) (h : Stored alloy serde o f w) :
    Loads (routeState alloy serde) "schedule" {} f w.schedule := by
  induction h with
  | start h =>
    rw [h]
    exact loads_none
  | call hp hwrites _ ih =>
    have hsaved := writes_routeState halloy hwrites
    exact (Files.TaskStore.eval_models hp ih hsaved).2

/-- A stop within a call on such a file is harmless as long as it is not within a write. -/
theorem recovers_stored (halloy : alloy.Documented) (hstrict : serde.Strict)
    (h : Stored alloy serde o f w) (hwrites : Writable alloy serde call w) {n : ℕ}
    (hu : ((call.run (routeState alloy serde)).stops o f)[n]? = some u) :
    Crashes.Recovers (routeState alloy serde) "schedule" {} o (call.run (routeState alloy serde))
        f u ↔
      Crashes.Whole (routeState alloy serde) (call.saves w.schedule) n := by
  have hload := loads_stored halloy h
  have hstops := Files.TaskStore.stops_run (o := o) hload call
  exact Crashes.recovers_iff (strict_routeState hstrict) hload hstops
    (writes_routeState halloy hwrites) hu

end

end Reload

end VeaValidator
