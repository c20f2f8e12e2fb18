import VeaValidator.Audit

/-!
The snapshots the dispatcher asks for.

`is_epoch_finalized` asks about blocks, logs and batches only. The two bodies that need the snapshot
of their epoch come to it behind this check, and the other bodies ask for none. So the inbox answers
the dispatcher about epochs that the nodes have shown to be final.
-/

namespace VeaValidator

open Coop

namespace Audit

/-- The query asks the inbox for the snapshot of an epoch. -/
def OfSnapshot : Query → Prop
  | .snapshots _ => True
  | _ => False

/-- The program asks for no snapshot. -/
abbrev Blind {α : Type} (p : M α) : Prop := Prog.Never OfSnapshot p

variable {route : Route} {rely : World → World → Prop} {s u : World}
  {l : List ((q : Query) × q.Answer)} {e : ℕ}

namespace Blind

/-! ### The finality of an epoch -/

lemma rpc {q : Query} (hq : ¬OfSnapshot q) : Blind (rpc q).run := .ask hq

lemma getBlockAttempts (provider : Provider) (block : BlockNumberOrTag) (delays : List ℕ) :
    Blind (getBlockAttempts provider block delays) := by
  induction delays with
  | nil => exact .panic
  | cons delay delays ih =>
    refine .bind (.ask id) fun answer => ?_
    rcases answer with err | _ | b
    · exact .ite .panic (.bind (.bind (.ask id) fun _ => .pure) fun _ => ih)
    · exact .panic
    · exact .pure

lemma bisect (provider : Provider) (target fuel lo hi : ℕ) :
    Blind (bisect provider target fuel lo hi) := by
  induction fuel generalizing lo hi with
  | zero => exact .pure
  | succ fuel ih =>
    exact .ite (.bind (getBlockAttempts _ _ _) fun b => .ite (ih _ _) (ih _ _)) .pure

lemma findBlockByTimestamp (provider : Provider) (target : ℕ) :
    Blind (findBlockByTimestamp provider target) :=
  .bind (getBlockAttempts _ _ _) fun _ => .ite .pure (bisect _ _ _ _ _)

lemma searchBatch (sequencerInbox : Address) (batch latest iterations fromBlock : ℕ) :
    Blind (searchBatch sequencerInbox batch latest iterations fromBlock).run := by
  induction iterations generalizing fromBlock with
  | zero => exact .pure
  | succ iterations ih =>
    refine .run_ite (.run_bind (rpc id) fun logs => ?_) .pure
    cases logs with
    | nil => exact ih _
    | cons log logs => exact .pure

lemma isEpochFinalized (epoch epochPeriod : ℕ) (sequencerInbox : Option Address) :
    Blind (isEpochFinalized epoch epochPeriod sequencerInbox).run := by
  cases sequencerInbox with
  | none => exact .pure
  | some sequencerInbox =>
    refine .run_bind (.run_lift (findBlockByTimestamp _ _)) fun l2Block => ?_
    refine .run_bind (rpc id) fun batch => .run_bind (.run_bind (rpc id) fun latest => ?_) ?_
    · exact .run_bind (.run_lift (findBlockByTimestamp _ _)) fun _ => searchBatch _ _ _ _ _
    · intro l1Block
      cases l1Block with
      | none => exact .pure
      | some n =>
        refine .run_bind (rpc id) fun block => ?_
        cases block with
        | none => exact .pure
        | some block => exact .pure

/-! ### The other bodies -/

lemma toU64 (w : Word) : Blind (toU64 w) := .ite .pure .panic

lemma wasEventEmitted (sig : Word) : Blind
    (ExceptT.lift (Tasks.wasEventEmitted .outbox route.outboxAddress sig e) : Fallible Bool).run := by
  refine .run_lift (.bind (.ask id) fun answer => ?_)
  rcases answer with err | head
  · exact .pure
  refine .bind (.ask id) fun answer => ?_
  rcases answer with err | logs
  · exact .pure
  induction logs with
  | nil => exact .pure
  | cons log logs ih =>
    show Blind (Tasks.anyWithEpoch e (log :: logs))
    rw [Tasks.anyWithEpoch]
    cases log.topics[1]? with
    | none => exact ih
    | some t => exact .bind (toU64 t) fun n => .ite .pure ih

lemma get : Blind (ClaimStore.get e) := by
  refine .bind .gets fun claims => ?_
  rcases Keyed.entries ClaimData.epoch e claims with _ | ⟨c, _ | ⟨d, rest⟩⟩
  · exact .panic
  · exact .pure
  · exact .panic

lemma getClaim : Blind (ExceptT.lift (ClaimStore.getClaim e) : Fallible Claim).run :=
  .run_lift (.bind get fun _ => .pure)

lemma claimValue : Blind (Tasks.claimValue route).run := by
  unfold Tasks.claimValue
  cases route.wethAddress with
  | some _ => exact .pure
  | none => exact .run_bind (rpc id) fun _ => .pure

lemma balance : Blind (Tasks.balance route).run := by
  unfold Tasks.balance
  cases route.wethAddress with
  | some _ => exact rpc id
  | none => exact rpc id

/-- A transaction is no question to the inbox. -/
lemma send {α : Type} {tx : Tx} {g : Except String Unit → Fallible α} (hg : ∀ r, Blind (g r).run) :
    Blind (ExceptT.lift (Tasks.sendTx tx).run >>= g).run := .run_bind (.run_lift (.ask id)) hg

lemma saveSnapshot : Blind Tasks.saveSnapshot.run := by
  refine .run_bind (rpc id) fun count => .run_ite .pure ?_
  exact .run_bind (.run_lift .gets) fun last => .run_ite .pure (.ask id)

lemma challenge : Blind (Tasks.challenge route e).run := by
  refine .run_bind (rpc id) fun epochPeriod => .run_bind (isEpochFinalized _ _ _) fun finalized => ?_
  refine .run_ite .pure (.run_bind getClaim fun c => .run_bind (rpc id) fun deposit => ?_)
  refine .run_bind balance fun balance => .run_ite .pure (send fun r => ?_)
  cases r with
  | ok _ => exact .pure
  | error err =>
    refine .run_bind (wasEventEmitted _) fun challenged => .run_ite .pure ?_
    exact .run_bind (wasEventEmitted _) fun started => .run_ite .pure .pure

lemma sendSnapshot : Blind (Tasks.sendSnapshot route e).run :=
  .run_bind getClaim fun _ => .run_ite (.ask id) (.run_ite (.ask id) (.run_lift .panic))

lemma sendUnlessChallenged {tx : ℕ → Claim → Tx} {sig : Word} :
    Blind (Tasks.sendUnlessChallenged route e tx sig).run := by
  refine .run_bind (.run_lift get) fun d => .run_ite .pure ?_
  refine .run_bind getClaim fun c => send fun r => ?_
  cases r with
  | ok _ => exact .pure
  | error err =>
    refine .run_bind (wasEventEmitted _) fun emitted => .run_ite .pure ?_
    exact .run_bind (wasEventEmitted _) fun challenged => .run_ite .pure .pure

lemma executeRelay {relay : Relay} : Blind (Tasks.executeRelay relay).run := by
  refine .run_bind (rpc id) fun spent => .run_ite .pure (.run_bind ?_ fun ⟨proof, root⟩ => ?_)
  · exact .run_bind (rpc id) fun _ => .run_bind (.run_lift (toU64 _)) fun _ => rpc id
  · refine .run_bind (rpc id) fun r => .run_ite .pure (send fun r => ?_)
    cases r with
    | ok _ => exact .pure
    | error _ => exact .pure

lemma remove : Blind (ExceptT.lift (ClaimStore.remove e) : Fallible Unit).run := .run_lift .modify

lemma withdrawDeposit : Blind (Tasks.withdrawDeposit e).run := by
  refine .run_bind (rpc id) fun h => .run_ite remove (.run_bind getClaim fun c => .run_bind ?_ ?_)
  · unfold Tasks.withdrawTx
    cases c.honest with
    | none => exact .run_lift .panic
    | claimer => exact .run_lift .pure
    | challenger => exact .run_lift .pure
  · refine fun tx => send fun r => ?_
    cases r with
    | ok _ => exact remove
    | error err => exact .run_bind (rpc id) fun _ => .run_ite remove .pure

end Blind

/-! ### The two bodies that ask -/

/-- A body that checks its epoch first comes to a snapshot when the epoch has been shown final. -/
lemma finalized_of_checked {x : Fallible Unit} {q : Query} (hq : OfSnapshot q) (h : (do
      let epochPeriod ← rpc .epochPeriod
      let finalized ← isEpochFinalized e epochPeriod route.sequencerInbox
      if !finalized then
        throw "EpochNotFinalized"
      else x : Fallible Unit).run.Comes rely s l q u) :
    Finalized route (Prog.In l) e ∧ ∃ v l', x.run.Comes rely v l' q u := by
  obtain ⟨epochPeriod, v, l₁, l', rfl, hperiod, h⟩ := (Blind.rpc id).run_comes_rest h hq
  obtain ⟨finalized, w, l₂, l₃, rfl, hfinal, h⟩ :=
    (Blind.isEpochFinalized _ _ _).run_comes_rest h hq
  let H : Answers := Prog.In (l₁ ++ (l₂ ++ l₃))
  have hask : Tells route H (fun n => H .epochPeriod (.ok n)) (rpc .epochPeriod) := Tells.rpc trivial
  have hcheck : Tells route H _ (isEpochFinalized e epochPeriod route.sequencerInbox) :=
    Tells.isEpochFinalized _ _ _
  have hheard : H .epochPeriod (.ok epochPeriod) :=
    hask.heard (fun x hx => List.mem_append_left _ hx) hperiod
  have hshown := hcheck.heard (fun x hx => List.mem_append_right _ (List.mem_append_left _ hx)) hfinal
  cases finalized with
  | false => exact h.elim
  | true => exact ⟨⟨epochPeriod, hheard, hshown rfl⟩, w, l₃, h⟩

/-- Behind its query for a snapshot a body asks for no other one. -/
lemma eq_of_comes {g : Word → Fallible Unit} {e' : ℕ} (hg : ∀ root, Blind (g root).run)
    (h : (rpc (.snapshots e) >>= g).run.Comes rely s l (.snapshots e') u) : e' = e := by
  have hquery : OfSnapshot (.snapshots e') := trivial
  obtain ⟨-, he, -⟩ := Prog.comes_ask.mp (Prog.Never.run_comes_first hg h hquery)
  cases he
  rfl

lemma comes_claim {now e' : ℕ} (h : (Tasks.claim route e now).run.Comes rely s l (.snapshots e') u) :
    e' = e ∧ Finalized route (Prog.In l) e := by
  have hquery : OfSnapshot (.snapshots e') := trivial
  obtain ⟨hfinalized, v, l', h⟩ := finalized_of_checked hquery h
  refine ⟨eq_of_comes (fun root => .run_ite .pure (.run_bind (Blind.rpc id) fun hash => ?_)) h,
    hfinalized⟩
  refine .run_ite .pure (.run_bind (Blind.rpc id) fun current => .run_ite .pure ?_)
  refine .run_bind (.run_lift .gets) fun recent => .run_ite .pure ?_
  refine .run_bind Blind.claimValue fun value => Blind.send fun r => ?_
  cases r with
  | ok _ => exact .pure
  | error err => exact .run_bind (Blind.rpc id) fun _ => .run_ite .pure .pure

lemma comes_validateClaim {now e' : ℕ}
    (h : (Tasks.validateClaim route e now).run.Comes rely s l (.snapshots e') u) :
    e' = e ∧ Finalized route (Prog.In l) e := by
  have hquery : OfSnapshot (.snapshots e') := trivial
  obtain ⟨hfinalized, v, l', h⟩ := finalized_of_checked hquery h
  have hget : Blind (ExceptT.lift (ClaimStore.get e) : Fallible ClaimData).run := .run_lift Blind.get
  obtain ⟨d, w, l₁, l₂, -, -, h⟩ := hget.run_comes_rest h hquery
  exact ⟨eq_of_comes (fun root => .run_ite (.run_lift .modify) (.run_lift .modify)) h, hfinalized⟩

/-- A body asks for a snapshot only of its own epoch, which it has heard to be final. -/
lemma comes_body {task : Task} {now : ℕ}
    (h : (Dispatcher.body route task now).run.Comes rely s l (.snapshots e) u) :
    e = task.epoch ∧ Finalized route (Prog.In l) task.epoch := by
  have hnone : ∀ {x : Fallible Unit}, Blind x.run → ¬x.run.Comes rely s l (.snapshots e) u :=
    fun hx hc => hx _ _ _ _ _ hc trivial
  obtain ⟨epoch, executeAfter, kind⟩ := task
  cases kind with
  | claim root => exact comes_claim h
  | validateClaim => exact comes_validateClaim h
  | saveSnapshot => exact absurd h (hnone Blind.saveSnapshot)
  | challenge => exact absurd h (hnone Blind.challenge)
  | sendSnapshot => exact absurd h (hnone Blind.sendSnapshot)
  | startVerification => exact absurd h (hnone Blind.sendUnlessChallenged)
  | verifySnapshot => exact absurd h (hnone Blind.sendUnlessChallenged)
  | executeRelay relay => exact absurd h (hnone Blind.executeRelay)
  | withdrawDeposit => exact absurd h (hnone Blind.withdrawDeposit)

/-- **The dispatcher asks about final epochs.** Whatever the nodes answer and whatever becomes of the
stores: when the dispatcher asks for the snapshot of an epoch, the nodes have shown it to be final. -/
theorem snapshots_checked {n : ℕ} (h : (Dispatcher.run route n).Comes rely s l (.snapshots e) u) :
    ∃ old recent, l = old ++ recent ∧ Finalized route (Prog.In recent) e := by
  obtain ⟨old, recent, v, task, now, rfl, hbody⟩ :=
    byBody_dispatcher (q := .snapshots e) nofun nofun n h
  obtain ⟨rfl, hfinalized⟩ := comes_body hbody
  exact ⟨old, recent, rfl, hfinalized⟩

end Audit

end VeaValidator
