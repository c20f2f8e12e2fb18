import VeaValidator.Brackets
import VeaValidator.Bytes
import VeaValidator.Stores

/-!
The two files of a route.

Every operation of a store reads its whole file and most of them write it anew. The content is
converted by `serde_json`, which is a parameter here; `fs::write` truncates the file and then writes
the bytes. As long as nothing stops it in between, a store on a file is the store of the model.
-/

namespace VeaValidator

open Coop Bytes

/-- The bytes of a file, if there is one. -/
abbrev File := Option (List UInt8)

abbrev FileM := Prog File Panic Query.Answer

/-- The functions of `serde_json` at the type of a content. -/
structure Serde (α : Type) where
  toStringPretty : α → String
  fromStr : String → Option α

namespace Serde

/-- What a letter of a JSON text is for. -/
def kind (c : Char) : Brackets.Kind :=
  if c = '"' then .quote
  else if c = '\\' then .escape
  else if c = '[' ∨ c = '\x7b' then .opening
  else if c = ']' ∨ c = '\x7d' then .closing
  else .plain

variable {α : Type}

/-- Only JSON texts are accepted: there is something in them, and their brackets match. -/
def Strict (c : Serde α) : Prop :=
  ∀ text a, c.fromStr text = some a → text.toList ≠ [] ∧ Brackets.Balanced kind text.toList

/-- A structure or a sequence is written as one text in brackets, and this text is read again. -/
structure Writes (c : Serde α) (a : α) : Prop where
  group : Brackets.Group kind (c.toStringPretty a).toList
  read_back : c.fromStr (c.toStringPretty a) = some a

end Serde

namespace Files

/-- `write_all` -/
def writeAll : List UInt8 → FileM Unit
  | [] => pure ()
  | b :: bytes => do
    Prog.modify (Option.map (· ++ [b]))
    writeAll bytes

def fsWrite (contents : String) : FileM Unit := do
  Prog.modify fun _ => some []
  writeAll (ofText contents)

section
variable {α : Type} (c : Serde α)

/-- Reads the file `file`; when there is none, the content is `init`. -/
def load (file : String) (init : α) : FileM α := do
  match ← Prog.gets id with
  | none => pure init
  | some bytes =>
    match String.fromUTF8? bytes.toByteArray with
    | none => .panic (.failedToRead file "stream did not contain valid UTF-8")
    | some contents =>
      match c.fromStr contents with
      | some a => pure a
      | none => .panic (.expect ("Failed to parse " ++ file ++ " file - data corrupted"))

def save (a : α) : FileM Unit := fsWrite (c.toStringPretty a)

end

/-! ### The schedule file -/

namespace TaskStore

section
variable (c : Serde RouteState)

def load : FileM RouteState := Files.load c "schedule" {}

def save (state : RouteState) : FileM Unit := Files.save c state

def addTask (task : Task) : FileM Unit := do
  let state ← load c
  save c { state with tasks := state.tasks ++ [task] }

def removeTask (task : Task) : FileM Unit := do
  let state ← load c
  save c { state with tasks := Keyed.erase Task.key task.key state.tasks }

def rescheduleTask (task : Task) (executeAfter : ℕ) : FileM Unit := do
  let state ← load c
  save c { state with
    tasks := Keyed.update Task.key task.key (fun t => { t with executeAfter }) state.tasks }

def updateInboxBlock (block : ℕ) : FileM Unit := do
  let state ← load c
  save c { state with inboxLastBlock := some block }

def updateOutboxBlock (block : ℕ) : FileM Unit := do
  let state ← load c
  save c { state with outboxLastBlock := some block }

def setIndexingSince (ts : ℕ) : FileM Unit := do
  let state ← load c
  save c { state with indexingSince := some ts }

def initializeSync (indexingSince inboxBlock outboxBlock : ℕ) : FileM Unit := do
  let state ← load c
  save c { state with
    indexingSince := some indexingSince
    inboxLastBlock := some inboxBlock
    outboxLastBlock := some outboxBlock }

def setOnSync (value : Bool) : FileM Unit := do
  let state ← load c
  save c { state with onSync := value }

def isOnSync : FileM Bool := do
  let state ← load c
  pure state.onSync

def invalidateTasks (epoch : ℕ) (kinds : List KindName) : FileM Unit := do
  let state ← load c
  save c { state with
    tasks := state.tasks.filter fun t => !(t.epoch = epoch ∧ t.kind.name ∈ kinds) }

def setLastSavedCount (count : ℕ) : FileM Unit := do
  let state ← load c
  save c { state with lastSavedCount := some count }

def getLastSavedCount : FileM (Option ℕ) := do
  let state ← load c
  pure state.lastSavedCount

end

/-- The calls of a `TaskStore`, by what they return. -/
inductive Call : Type → Type
  | load : Call RouteState
  | save (state : RouteState) : Call Unit
  | addTask (task : Task) : Call Unit
  | removeTask (task : Task) : Call Unit
  | rescheduleTask (task : Task) (executeAfter : ℕ) : Call Unit
  | updateInboxBlock (block : ℕ) : Call Unit
  | updateOutboxBlock (block : ℕ) : Call Unit
  | setIndexingSince (ts : ℕ) : Call Unit
  | initializeSync (indexingSince inboxBlock outboxBlock : ℕ) : Call Unit
  | setOnSync (value : Bool) : Call Unit
  | isOnSync : Call Bool
  | invalidateTasks (epoch : ℕ) (kinds : List KindName) : Call Unit
  | setLastSavedCount (count : ℕ) : Call Unit
  | getLastSavedCount : Call (Option ℕ)

def Call.run (c : Serde RouteState) {β : Type} : Call β → FileM β
  | .load => TaskStore.load c
  | .save state => TaskStore.save c state
  | .addTask task => TaskStore.addTask c task
  | .removeTask task => TaskStore.removeTask c task
  | .rescheduleTask task executeAfter => TaskStore.rescheduleTask c task executeAfter
  | .updateInboxBlock block => TaskStore.updateInboxBlock c block
  | .updateOutboxBlock block => TaskStore.updateOutboxBlock c block
  | .setIndexingSince ts => TaskStore.setIndexingSince c ts
  | .initializeSync indexingSince inboxBlock outboxBlock =>
    TaskStore.initializeSync c indexingSince inboxBlock outboxBlock
  | .setOnSync value => TaskStore.setOnSync c value
  | .isOnSync => TaskStore.isOnSync c
  | .invalidateTasks epoch kinds => TaskStore.invalidateTasks c epoch kinds
  | .setLastSavedCount count => TaskStore.setLastSavedCount c count
  | .getLastSavedCount => TaskStore.getLastSavedCount c

/-- What a call writes, on a file with this content. -/
def Call.saves {β : Type} : Call β → RouteState → Option RouteState
  | .load, _ => none
  | .save state, _ => some state
  | .addTask task, state => some { state with tasks := state.tasks ++ [task] }
  | .removeTask task, state =>
    some { state with tasks := Keyed.erase Task.key task.key state.tasks }
  | .rescheduleTask task executeAfter, state => some { state with
      tasks := Keyed.update Task.key task.key (fun t => { t with executeAfter }) state.tasks }
  | .updateInboxBlock block, state => some { state with inboxLastBlock := some block }
  | .updateOutboxBlock block, state => some { state with outboxLastBlock := some block }
  | .setIndexingSince ts, state => some { state with indexingSince := some ts }
  | .initializeSync indexingSince inboxBlock outboxBlock, state => some { state with
      indexingSince := some indexingSince
      inboxLastBlock := some inboxBlock
      outboxLastBlock := some outboxBlock }
  | .setOnSync value, state => some { state with onSync := value }
  | .isOnSync, _ => none
  | .invalidateTasks epoch kinds, state => some { state with
      tasks := state.tasks.filter fun t => !(t.epoch = epoch ∧ t.kind.name ∈ kinds) }
  | .setLastSavedCount count, state => some { state with lastSavedCount := some count }
  | .getLastSavedCount, _ => none

end TaskStore

/-! ### The claims file -/

namespace ClaimStore

section
variable (c : Serde (List ClaimData))

def loadAll : FileM (List ClaimData) := Files.load c "claims" []

def saveAll (claims : List ClaimData) : FileM Unit := Files.save c claims

def store (claim : ClaimData) : FileM Unit := do
  let claims ← loadAll c
  let existing := (Keyed.entries ClaimData.epoch claim.epoch claims).length
  if existing > 0 then
    .panic (.duplicateClaim claim.epoch)
  else
    saveAll c (claims ++ [claim])

def update (epoch : ℕ) (f : ClaimData → ClaimData) : FileM Unit := do
  let claims ← loadAll c
  match Keyed.lookup ClaimData.epoch epoch claims with
  | some _ => saveAll c (Keyed.update ClaimData.epoch epoch f claims)
  | none => .panic (.cannotUpdateClaim epoch)

def get (epoch : ℕ) : FileM ClaimData := do
  let claims ← loadAll c
  match Keyed.entries ClaimData.epoch epoch claims with
  | [] => .panic (.noClaimFound epoch)
  | [claim] => pure claim
  | _ => .panic (.multipleClaims epoch)

def getClaim (epoch : ℕ) : FileM Claim := do
  let claim ← get c epoch
  pure claim.toClaim

def remove (epoch : ℕ) : FileM Unit := do
  let claims ← loadAll c
  saveAll c (Keyed.erase ClaimData.epoch epoch claims)

def hasStateRootInRecentClaims (stateRoot : Word) (sinceTimestamp : ℕ) : FileM Bool := do
  let claims ← loadAll c
  pure (claims.any fun c => c.stateRoot = stateRoot ∧ c.timestampClaimed ≥ sinceTimestamp)

def existsClaim (epoch : ℕ) : FileM Bool := do
  let claims ← loadAll c
  pure (claims.any fun c => c.epoch = epoch)

end

/-- The calls of a `ClaimStore`, by what they return. -/
inductive Call : Type → Type
  | store (claim : ClaimData) : Call Unit
  | update (epoch : ℕ) (f : ClaimData → ClaimData) : Call Unit
  | get (epoch : ℕ) : Call ClaimData
  | getClaim (epoch : ℕ) : Call Claim
  | remove (epoch : ℕ) : Call Unit
  | hasStateRootInRecentClaims (stateRoot : Word) (sinceTimestamp : ℕ) : Call Bool
  | existsClaim (epoch : ℕ) : Call Bool

def Call.run (c : Serde (List ClaimData)) {β : Type} : Call β → FileM β
  | .store claim => ClaimStore.store c claim
  | .update epoch f => ClaimStore.update c epoch f
  | .get epoch => ClaimStore.get c epoch
  | .getClaim epoch => ClaimStore.getClaim c epoch
  | .remove epoch => ClaimStore.remove c epoch
  | .hasStateRootInRecentClaims stateRoot sinceTimestamp =>
    ClaimStore.hasStateRootInRecentClaims c stateRoot sinceTimestamp
  | .existsClaim epoch => ClaimStore.existsClaim c epoch

/-- What a call writes, on a file with this content. A call that panics writes nothing. -/
def Call.saves {β : Type} : Call β → List ClaimData → Option (List ClaimData)
  | .store claim, claims =>
    if (Keyed.entries ClaimData.epoch claim.epoch claims).length > 0 then none
    else some (claims ++ [claim])
  | .update epoch f, claims =>
    if (Keyed.lookup ClaimData.epoch epoch claims).isSome then
      some (Keyed.update ClaimData.epoch epoch f claims)
    else none
  | .remove epoch, claims => some (Keyed.erase ClaimData.epoch epoch claims)
  | _, _ => none

end ClaimStore

/-! ### What is in a file -/

section
variable {α β : Type} {c : Serde α} {file : String} {init a b : α} {f : File}
  {o : (q : Query) → q.Answer}

/-- The file can be read, and its content is `a`. -/
def Loads (c : Serde α) (file : String) (init : α) (f : File) (a : α) : Prop :=
  ∀ o : (q : Query) → q.Answer, (load c file init).eval o f = (.ok a, f)

/-- The contents a file `f` has while `b` is saved, if anything is. -/
def passes (c : Serde α) (f : File) : Option α → List File
  | none => [f]
  | some b => f :: (ofText (c.toStringPretty b)).inits.map some

lemma evalWrites_load : (load c file init).evalWrites o f = [] := by
  unfold load
  rw [Prog.evalWrites_bind]
  rcases f with _ | bytes
  · rfl
  cases hbytes : String.fromUTF8? bytes.toByteArray with
  | none =>
    simp only [Prog.gets, Prog.eval, Prog.evalWrites, id, hbytes, List.nil_append]
  | some text =>
    cases htext : c.fromStr text with
    | none => simp only [Prog.gets, Prog.eval, Prog.evalWrites, id, hbytes, htext, List.nil_append]
    | some a =>
      simp only [Prog.gets, Prog.eval, Prog.evalWrites, id, hbytes, htext, List.nil_append]
      rfl

lemma loads_none : Loads c file init none init := fun _ => rfl

/-- The bytes are those of a text, and it is accepted. -/
lemma loads_some {bytes : List UInt8} : Loads c file init (some bytes) a ↔
    ∃ text, ofText text = bytes ∧ c.fromStr text = some a := by
  constructor
  · intro h
    have ho := h fun q => .error ""
    unfold load at ho
    rw [Prog.eval_bind] at ho
    cases hbytes : String.fromUTF8? bytes.toByteArray with
    | none =>
      simp only [Prog.gets, Prog.eval, id, hbytes] at ho
      cases ho
    | some text =>
      cases htext : c.fromStr text with
      | none =>
        simp only [Prog.gets, Prog.eval, id, hbytes, htext] at ho
        cases ho
      | some a' =>
        simp only [Prog.gets, Prog.eval, id, hbytes, htext] at ho
        cases ho
        exact ⟨text, ofText_of_fromUTF8? hbytes, htext⟩
  · rintro ⟨text, rfl, htext⟩ o
    unfold load
    rw [Prog.eval_bind]
    simp only [Prog.gets, Prog.eval, id, fromUTF8?_ofText, htext]
    rfl

lemma like_load (h : Loads c file init f a) (g : α → FileM β) :
    Prog.Like o f (load c file init >>= g) (g a) :=
  Prog.Like.eval_bind (h o) evalWrites_load

lemma stops_writeAll (bytes done : List UInt8) :
    (writeAll bytes).stops o (some done) = bytes.inits.map fun l => some (done ++ l) := by
  induction bytes generalizing done with
  | nil => simp [writeAll, Prog.stops, Prog.evalWrites, pure]
  | cons b bytes ih =>
    show some done :: (writeAll bytes).stops o (some (done ++ [b])) = _
    rw [ih, List.inits_cons]
    simp [Function.comp_def]

lemma eval_writeAll (bytes done : List UInt8) :
    (writeAll bytes).eval o (some done) = (.ok (), some (done ++ bytes)) := by
  induction bytes generalizing done with
  | nil =>
    rw [List.append_nil]
    rfl
  | cons b bytes ih =>
    show (writeAll bytes).eval o (some (done ++ [b])) = _
    rw [ih, List.append_assoc, List.singleton_append]

lemma eval_save : (save c b).eval o f = (.ok (), some (ofText (c.toStringPretty b))) :=
  eval_writeAll (ofText (c.toStringPretty b)) []

/-- What is saved can be read again. -/
lemma Loads.of_saved (h : c.fromStr (c.toStringPretty b) = some b) :
    Loads c file init (some (ofText (c.toStringPretty b))) b :=
  loads_some.mpr ⟨_, rfl, h⟩

lemma stops_save : (save c b).stops o f = passes c f (some b) := by
  show f :: (writeAll (ofText (c.toStringPretty b))).stops o (some []) = _
  rw [stops_writeAll]
  rfl

lemma getLast?_passes (saved : Option α) : (passes c f saved).getLast? =
    some (saved.elim f fun b => some (ofText (c.toStringPretty b))) := by
  cases saved with
  | none => rfl
  | some b =>
    have hlast : (ofText (c.toStringPretty b)).inits.getLast? = some (ofText (c.toStringPretty b)) := by
      rw [List.getLast?_eq_getElem?, List.length_inits, Nat.add_sub_cancel]
      simp
    rw [passes, List.getLast?_cons, List.getLast?_map, hlast]
    rfl

/-- At its end an operation leaves what it has saved. -/
lemma loads_eval {p : FileM β} {saved : Option α} (hf : Loads c file init f a)
    (hstops : p.stops o f = passes c f saved) (hwrites : ∀ b, saved = some b → c.Writes b) :
    Loads c file init (p.eval o f).2 (saved.getD a) := by
  have hlast := Prog.getLast?_stops o p f
  rw [hstops, getLast?_passes] at hlast
  rw [← Option.some.inj hlast]
  cases saved with
  | none => exact hf
  | some b => exact .of_saved (hwrites b rfl).read_back

end

namespace TaskStore

variable {c : Serde RouteState} {f : File} {state : RouteState} {β : Type}
  {o : (q : Query) → q.Answer}

/-- **A call of a `TaskStore`** reads the file, and writes what it saves. -/
theorem stops_run (h : Loads c "schedule" {} f state) (call : Call β) :
    (call.run c).stops o f = passes c f (call.saves state) := by
  cases call with
  | load => exact congrArg (fun l => f :: l.map Prod.snd) evalWrites_load
  | save state => exact stops_save
  | isOnSync => exact (like_load h _).stops
  | getLastSavedCount => exact (like_load h _).stops
  | _ => exact (like_load h _).stops.trans stops_save

/-- The program of the model that a call stands for. -/
inductive Models : {β : Type} → Call β → M β → Prop
  | load : Models .load VeaValidator.TaskStore.load
  | addTask (task : Task) : Models (.addTask task) (VeaValidator.TaskStore.addTask task)
  | removeTask (task : Task) : Models (.removeTask task) (VeaValidator.TaskStore.removeTask task)
  | rescheduleTask (task : Task) (executeAfter : ℕ) :
    Models (.rescheduleTask task executeAfter)
      (VeaValidator.TaskStore.rescheduleTask task executeAfter)
  | updateInboxBlock (fromBlock block : ℕ) (logs : List Log) :
    Models (.updateInboxBlock block)
      (VeaValidator.TaskStore.updateBlock .inbox fromBlock block logs)
  | updateOutboxBlock (fromBlock block : ℕ) (logs : List Log) :
    Models (.updateOutboxBlock block)
      (VeaValidator.TaskStore.updateBlock .outbox fromBlock block logs)
  | initializeSync (indexingSince inboxBlock outboxBlock : ℕ) :
    Models (.initializeSync indexingSince inboxBlock outboxBlock)
      (VeaValidator.TaskStore.initializeSync indexingSince inboxBlock outboxBlock)
  | setOnSync (value : Bool) : Models (.setOnSync value) (VeaValidator.TaskStore.setOnSync value)
  | isOnSync : Models .isOnSync VeaValidator.TaskStore.isOnSync
  | invalidateTasks (epoch : ℕ) (kinds : List KindName) :
    Models (.invalidateTasks epoch kinds) (VeaValidator.TaskStore.invalidateTasks epoch kinds)
  | setLastSavedCount (count : ℕ) :
    Models (.setLastSavedCount count) (VeaValidator.TaskStore.setLastSavedCount count)
  | getLastSavedCount : Models .getLastSavedCount VeaValidator.TaskStore.getLastSavedCount

/-- **The schedule of the model is in the file.** A call on the file returns what the program of the
model returns, and leaves the schedule of the model in the file. -/
theorem eval_models {w : World} {call : Call β} {p : M β} (hp : Models call p)
    (h : Loads c "schedule" {} f w.schedule)
    (hwrites : ∀ b, call.saves w.schedule = some b → c.Writes b) :
    ((call.run c).eval o f).1 = (p.eval o w).1 ∧
      Loads c "schedule" {} ((call.run c).eval o f).2 (p.eval o w).2.schedule := by
  have hload := loads_eval h (stops_run (o := o) h call) hwrites
  cases hp with
  | load => exact ⟨congrArg Prod.fst (h o), hload⟩
  | isOnSync => exact ⟨congrArg Prod.fst (like_load h _).1, hload⟩
  | getLastSavedCount => exact ⟨congrArg Prod.fst (like_load h _).1, hload⟩
  | _ => exact ⟨(congrArg Prod.fst (like_load h _).1).trans (congrArg Prod.fst eval_save), hload⟩

end TaskStore

namespace ClaimStore

variable {c : Serde (List ClaimData)} {f : File} {claims : List ClaimData} {β : Type}
  {o : (q : Query) → q.Answer}

lemma evalWrites_get (h : Loads c "claims" [] f claims) (epoch : ℕ) :
    (get c epoch).evalWrites o f = [] := by
  rw [get, loadAll, (like_load h _).2]
  rcases Keyed.entries ClaimData.epoch epoch claims with _ | ⟨claim, _ | _⟩ <;> rfl

/-- **A call of a `ClaimStore`** reads the file, and writes what it saves. -/
theorem stops_run (h : Loads c "claims" [] f claims) (call : Call β) :
    (call.run c).stops o f = passes c f (call.saves claims) := by
  cases call with
  | store claim =>
    refine (like_load h _).stops.trans ?_
    rw [Call.saves]
    by_cases hdup : (Keyed.entries ClaimData.epoch claim.epoch claims).length > 0
    · rw [if_pos hdup, if_pos hdup]
      rfl
    · rw [if_neg hdup, if_neg hdup]
      exact stops_save
  | update epoch f' =>
    refine (like_load h _).stops.trans ?_
    rw [Call.saves]
    cases Keyed.lookup ClaimData.epoch epoch claims with
    | none => rfl
    | some claim => exact stops_save
  | get epoch => exact congrArg (fun l => f :: l.map Prod.snd) (evalWrites_get h epoch)
  | getClaim epoch =>
    have hwrites : (getClaim c epoch).evalWrites o f = [] := by
      rw [getClaim, Prog.evalWrites_bind, evalWrites_get h]
      rcases (get c epoch).eval o f with ⟨_ | _, _⟩ <;> rfl
    exact congrArg (fun l => f :: l.map Prod.snd) hwrites
  | remove epoch => exact (like_load h _).stops.trans stops_save
  | hasStateRootInRecentClaims stateRoot sinceTimestamp => exact (like_load h _).stops
  | existsClaim epoch => exact (like_load h _).stops

/-- The program of the model that a call stands for. -/
inductive Models : {β : Type} → Call β → M β → Prop
  | store (claim : ClaimData) : Models (.store claim) (VeaValidator.ClaimStore.store claim)
  | update (epoch : ℕ) (f : ClaimData → ClaimData) :
    Models (.update epoch f) (VeaValidator.ClaimStore.update epoch f)
  | get (epoch : ℕ) : Models (.get epoch) (VeaValidator.ClaimStore.get epoch)
  | getClaim (epoch : ℕ) : Models (.getClaim epoch) (VeaValidator.ClaimStore.getClaim epoch)
  | remove (epoch : ℕ) : Models (.remove epoch) (VeaValidator.ClaimStore.remove epoch)
  | hasStateRootInRecentClaims (stateRoot : Word) (sinceTimestamp : ℕ) :
    Models (.hasStateRootInRecentClaims stateRoot sinceTimestamp)
      (VeaValidator.ClaimStore.hasStateRootInRecentClaims stateRoot sinceTimestamp)
  | existsClaim (epoch : ℕ) :
    Models (.existsClaim epoch) (VeaValidator.ClaimStore.existsClaim epoch)

/-- `get` finds the same in the file as in the model. -/
lemma eval_get {w : World} (h : Loads c "claims" [] f w.claims) (epoch : ℕ) :
    ((get c epoch).eval o f).1 = ((VeaValidator.ClaimStore.get epoch).eval o w).1 ∧
      ((VeaValidator.ClaimStore.get epoch).eval o w).2 = w := by
  have hloads : VeaValidator.ClaimStore.loadAll.eval o w = (.ok w.claims, w) := rfl
  rw [get, loadAll, (like_load h _).1, VeaValidator.ClaimStore.get, Prog.eval_bind_ok hloads]
  rcases Keyed.entries ClaimData.epoch epoch w.claims with _ | ⟨claim, _ | _⟩ <;> exact ⟨rfl, rfl⟩

/-- **The claims of the model are in the file.** -/
theorem eval_models {w : World} {call : Call β} {p : M β} (hp : Models call p)
    (h : Loads c "claims" [] f w.claims)
    (hwrites : ∀ b, call.saves w.claims = some b → c.Writes b) :
    ((call.run c).eval o f).1 = (p.eval o w).1 ∧
      Loads c "claims" [] ((call.run c).eval o f).2 (p.eval o w).2.claims := by
  have hload := loads_eval h (stops_run (o := o) h call) hwrites
  have hloads : VeaValidator.ClaimStore.loadAll.eval o w = (.ok w.claims, w) := rfl
  cases hp with
  | store claim =>
    rw [Call.saves] at hload
    rw [VeaValidator.ClaimStore.store, Prog.eval_bind_ok hloads]
    by_cases hdup : (Keyed.entries ClaimData.epoch claim.epoch w.claims).length > 0
    · rw [if_pos hdup] at hload ⊢
      refine ⟨(congrArg Prod.fst (like_load h _).1).trans ?_, hload⟩
      rw [if_pos hdup]
      rfl
    · rw [if_neg hdup] at hload ⊢
      refine ⟨(congrArg Prod.fst (like_load h _).1).trans ?_, hload⟩
      rw [if_neg hdup]
      exact congrArg Prod.fst eval_save
  | update epoch f' =>
    rw [Call.saves] at hload
    rw [VeaValidator.ClaimStore.update, Prog.eval_bind_ok hloads]
    have hrun : ((update c epoch f').eval o f).1 = _ := congrArg Prod.fst (like_load h _).1
    cases hlookup : Keyed.lookup ClaimData.epoch epoch w.claims with
    | none =>
      rw [hlookup] at hload hrun
      exact ⟨hrun, hload⟩
    | some claim =>
      rw [hlookup] at hload hrun
      exact ⟨hrun.trans (congrArg Prod.fst eval_save), hload⟩
  | get epoch =>
    obtain ⟨hresult, hworld⟩ := eval_get (o := o) h epoch
    refine ⟨hresult, ?_⟩
    rw [hworld]
    exact hload
  | getClaim epoch =>
    obtain ⟨hresult, hworld⟩ := eval_get (o := o) h epoch
    have hpair : (VeaValidator.ClaimStore.get epoch).eval o w = (((get c epoch).eval o f).1, w) :=
      Prod.ext hresult.symm hworld
    have hclaims : ((VeaValidator.ClaimStore.getClaim epoch).eval o w).2 = w := by
      rw [VeaValidator.ClaimStore.getClaim, Prog.eval_bind, hpair]
      cases ((get c epoch).eval o f).1 <;> rfl
    refine ⟨?_, by rw [hclaims]; exact hload⟩
    show ((getClaim c epoch).eval o f).1 = _
    rw [getClaim, VeaValidator.ClaimStore.getClaim, Prog.eval_bind, Prog.eval_bind, hpair]
    rcases (get c epoch).eval o f with ⟨_ | _, _⟩ <;> rfl
  | remove epoch => exact ⟨(congrArg Prod.fst (like_load h _).1).trans (congrArg Prod.fst eval_save), hload⟩
  | hasStateRootInRecentClaims stateRoot sinceTimestamp =>
    exact ⟨congrArg Prod.fst (like_load h _).1, hload⟩
  | existsClaim epoch => exact ⟨congrArg Prod.fst (like_load h _).1, hload⟩

end ClaimStore

end Files

end VeaValidator
