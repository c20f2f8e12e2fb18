import VeaValidator.KeyedMap
import VeaValidator.Stores

/-!
The claims file is a map from epochs to claims.

The file is a list that every operation of `ClaimStore` reads anew, and three different lookups are
made in it. They agree as long as no two entries are of one epoch, and from an absent file on no
sequence of operations makes a second entry of an epoch: `store` looks before it adds, and `update`
keeps the epoch.
-/

namespace VeaValidator

open Coop

namespace ClaimMap

/-- The calls of a `ClaimStore`. What `update` is given keeps the epoch. -/
inductive Call
  | store (claim : ClaimData)
  | update (epoch : ℕ) (f : ClaimData → ClaimData) (hf : ∀ c, (f c).epoch = c.epoch)
  | remove (epoch : ℕ)
  | get (epoch : ℕ)
  | getClaim (epoch : ℕ)
  | existsClaim (epoch : ℕ)

/-- What a call returns. -/
inductive Reply
  | done
  | entry (c : ClaimData)
  | claim (c : Claim)
  | answer (b : Bool)
  deriving DecidableEq

/-- The call as the store runs it. -/
def Call.run : Call → M Reply
  | .store claim => do
    ClaimStore.store claim
    pure .done
  | .update epoch f _ => do
    ClaimStore.update epoch f
    pure .done
  | .remove epoch => do
    ClaimStore.remove epoch
    pure .done
  | .get epoch => do
    let c ← ClaimStore.get epoch
    pure (.entry c)
  | .getClaim epoch => do
    let c ← ClaimStore.getClaim epoch
    pure (.claim c)
  | .existsClaim epoch => do
    let b ← ClaimStore.existsClaim epoch
    pure (.answer b)

/-- The epoch a call is about. -/
def Call.epoch : Call → ℕ
  | .store claim => claim.epoch
  | .update epoch _ _ => epoch
  | .remove epoch => epoch
  | .get epoch => epoch
  | .getClaim epoch => epoch
  | .existsClaim epoch => epoch

/-- A map from epochs to claims. -/
abbrev Table := Finmap fun _ : ℕ => ClaimData

/-- The call on a map. -/
def Call.onMap : Call → Table → Except Panic Reply × Table
  | .store claim, m =>
    if claim.epoch ∈ m then (.error (.duplicateClaim claim.epoch), m)
    else (.ok .done, m.insert claim.epoch claim)
  | .update epoch f _, m =>
    match m.lookup epoch with
    | some c => (.ok .done, m.insert epoch (f c))
    | none => (.error (.cannotUpdateClaim epoch), m)
  | .remove epoch, m => (.ok .done, m.erase epoch)
  | .get epoch, m =>
    match m.lookup epoch with
    | some c => (.ok (.entry c), m)
    | none => (.error (.noClaimFound epoch), m)
  | .getClaim epoch, m =>
    match m.lookup epoch with
    | some c => (.ok (.claim c.toClaim), m)
    | none => (.error (.noClaimFound epoch), m)
  | .existsClaim epoch, m => (.ok (.answer (m.lookup epoch).isSome), m)

/-- The results of calls that are made one after the other, and the world after the last. A panic
ends a call and not the sequence, since the route starts again on the file. -/
def runAll (o : (q : Query) → q.Answer) : List Call → World → List (Except Panic Reply) × World
  | [], w => ([], w)
  | call :: calls, w =>
    let (r, u) := call.run.eval o w
    let (rs, v) := runAll o calls u
    (r :: rs, v)

/-- The same calls on a map. -/
def onMapAll : List Call → Table → List (Except Panic Reply) × Table
  | [], m => ([], m)
  | call :: calls, m =>
    let (r, m') := call.onMap m
    let (rs, m'') := onMapAll calls m'
    (r :: rs, m'')

/-- The claims file of the world holds the map. -/
abbrev Holds (w : World) (m : Table) : Prop := Keyed.Holds ClaimData.epoch w.claims m

variable {o : (q : Query) → q.Answer} {w : World} {m : Table} {e : ℕ} {c : ClaimData}

/-! ### One operation -/

lemma loadAll_eval : ClaimStore.loadAll.eval o w = (.ok w.claims, w) := rfl

lemma store_eval : (ClaimStore.store c).eval o w =
    if (w.claim? c.epoch).isSome then (.error (.duplicateClaim c.epoch), w)
    else (.ok (), w.storeClaim c) := by
  have hlen : (Keyed.entries ClaimData.epoch c.epoch w.claims).length > 0 ↔
      (w.claim? c.epoch).isSome := by
    rw [gt_iff_lt, List.length_pos_iff, ne_eq, Keyed.entries_eq_nil_iff, ← ne_eq,
      Option.ne_none_iff_isSome]
    rfl
  rw [ClaimStore.store, Prog.eval_bind_ok loadAll_eval]
  by_cases h : (w.claim? c.epoch).isSome
  · rw [if_pos h, if_pos (hlen.mpr h)]
    rfl
  · rw [if_neg h, if_neg fun h' => h (hlen.mp h')]
    rfl

lemma update_eval {f : ClaimData → ClaimData} : (ClaimStore.update e f).eval o w =
    if (w.claim? e).isSome then (.ok (), w.updateClaim e f)
    else (.error (.cannotUpdateClaim e), w) := by
  rw [ClaimStore.update, Prog.eval_bind_ok loadAll_eval, World.claim?]
  cases Keyed.lookup ClaimData.epoch e w.claims <;> rfl

/-- One match is what `get` returns; two would be a panic of another kind. -/
lemma get_eval (h : Holds w m) : (ClaimStore.get e).eval o w =
    ((m.lookup e).elim (.error (.noClaimFound e)) .ok, w) := by
  rw [ClaimStore.get, Prog.eval_bind_ok loadAll_eval, h.entries_eq e]
  cases m.lookup e <;> rfl

/-! ### One call -/

/-- **One call.** It returns what the map returns, and leaves a file that holds the map after it. -/
lemma run_holds (h : Holds w m) (call : Call) :
    (call.run.eval o w).1 = (call.onMap m).1 ∧ Holds (call.run.eval o w).2 (call.onMap m).2 := by
  cases call with
  | store c =>
    have hmem : (w.claim? c.epoch).isSome ↔ c.epoch ∈ m := by
      rw [← Finmap.lookup_isSome, ← h.lookup_eq]
      rfl
    rw [Call.run, Call.onMap, Prog.eval_bind, store_eval]
    by_cases hc : c.epoch ∈ m
    · rw [if_pos (hmem.mpr hc), if_pos hc]
      exact ⟨rfl, h⟩
    · rw [if_neg fun h' => hc (hmem.mp h'), if_neg hc]
      exact ⟨rfl, h.append hc⟩
  | update e f hf =>
    have hlookup : w.claim? e = m.lookup e := h.lookup_eq e
    rw [Call.run, Call.onMap, Prog.eval_bind, update_eval, hlookup]
    rcases hc : m.lookup e with _ | c
    · exact ⟨rfl, h⟩
    · exact ⟨rfl, h.update hf hc⟩
  | remove e => exact ⟨rfl, h.erase⟩
  | get e =>
    rw [Call.run, Call.onMap, Prog.eval_bind, get_eval h]
    cases m.lookup e <;> exact ⟨rfl, h⟩
  | getClaim e =>
    rw [Call.run, Call.onMap, ClaimStore.getClaim, Prog.eval_bind, Prog.eval_bind, get_eval h]
    cases m.lookup e <;> exact ⟨rfl, h⟩
  | existsClaim e =>
    have hlookup : w.claim? e = m.lookup e := h.lookup_eq e
    have hany : (ClaimStore.existsClaim e).eval o w = (.ok (w.claim? e).isSome, w) := by
      rw [← any_epoch]
      rfl
    rw [Call.run, Call.onMap, Prog.eval_bind, hany, hlookup]
    exact ⟨rfl, h⟩

/-- The calls that the file refuses: a second claim of an epoch, and a claim that is not there. -/
def Call.Refused (claims : List ClaimData) : Call → Prop
  | .store claim => ∃ d ∈ claims, d.epoch = claim.epoch
  | .update epoch _ _ => ¬∃ d ∈ claims, d.epoch = epoch
  | .remove _ => False
  | .get epoch => ¬∃ d ∈ claims, d.epoch = epoch
  | .getClaim epoch => ¬∃ d ∈ claims, d.epoch = epoch
  | .existsClaim _ => False

/-- The panic of a refused call. -/
def Call.refusal : Call → Panic
  | .store claim => .duplicateClaim claim.epoch
  | .update epoch _ _ => .cannotUpdateClaim epoch
  | .remove epoch => .noClaimFound epoch
  | .get epoch => .noClaimFound epoch
  | .getClaim epoch => .noClaimFound epoch
  | .existsClaim epoch => .noClaimFound epoch

lemma claim?_isSome : (w.claim? e).isSome ↔ ∃ d ∈ w.claims, d.epoch = e := Keyed.lookup_isSome

/-- A refused call panics and leaves the world alone. -/
lemma run_refused (h : Holds w m) {call : Call} (hr : call.Refused w.claims) :
    call.run.eval o w = (.error call.refusal, w) := by
  have hnone : ∀ e, (¬∃ d ∈ w.claims, d.epoch = e) → m.lookup e = none := fun e he => by
    rw [← h.lookup_eq, ← Option.not_isSome_iff_eq_none, Keyed.lookup_isSome]
    exact he
  cases call with
  | store c => rw [Call.run, Prog.eval_bind, store_eval, if_pos (claim?_isSome.mpr hr)]; rfl
  | update e f hf =>
    rw [Call.run, Prog.eval_bind, update_eval, if_neg fun h' => hr (claim?_isSome.mp h')]
    rfl
  | remove e => exact hr.elim
  | get e =>
    rw [Call.run, Prog.eval_bind, get_eval h, hnone e hr]
    rfl
  | getClaim e =>
    rw [Call.run, ClaimStore.getClaim, Prog.eval_bind, Prog.eval_bind, get_eval h, hnone e hr]
    rfl
  | existsClaim e => exact hr.elim

/-- Every other call returns. -/
lemma run_accepted (h : Holds w m) {call : Call} (hr : ¬call.Refused w.claims) :
    ∃ r, (call.run.eval o w).1 = .ok r := by
  have hsome : ∀ e, ¬(¬∃ d ∈ w.claims, d.epoch = e) → ∃ c, m.lookup e = some c := fun e he => by
    rw [not_not, ← h.mem_iff, Finmap.mem_iff] at he
    exact he
  rw [(run_holds h call).1]
  cases call with
  | store c =>
    have hnot : c.epoch ∉ m := fun hm => hr (h.mem_iff.mp hm)
    exact ⟨.done, by rw [Call.onMap, if_neg hnot]⟩
  | update e f hf =>
    obtain ⟨c, hc⟩ := hsome e hr
    exact ⟨.done, by rw [Call.onMap, hc]⟩
  | remove e => exact ⟨.done, rfl⟩
  | get e =>
    obtain ⟨c, hc⟩ := hsome e hr
    exact ⟨.entry c, by rw [Call.onMap, hc]⟩
  | getClaim e =>
    obtain ⟨c, hc⟩ := hsome e hr
    exact ⟨.claim c.toClaim, by rw [Call.onMap, hc]⟩
  | existsClaim e => exact ⟨.answer (m.lookup e).isSome, rfl⟩

lemma run_panics_iff (h : Holds w m) (call : Call) :
    (∃ p, (call.run.eval o w).1 = .error p) ↔ call.Refused w.claims := by
  constructor
  · rintro ⟨p, hp⟩
    by_contra hr
    obtain ⟨r, hok⟩ := run_accepted (o := o) h hr
    rw [hp] at hok
    cases hok
  · exact fun hr => ⟨call.refusal, by rw [run_refused h hr]⟩

/-- A call changes no entry of another epoch. -/
lemma run_frame (call : Call) (hne : call.epoch ≠ e) :
    (call.run.eval o w).2.entries e = w.entries e := by
  have hid : ∀ c : ClaimData, c.epoch = id c.epoch := fun _ => rfl
  cases call with
  | store c =>
    rw [Call.run, Prog.eval_bind, store_eval]
    by_cases hc : (w.claim? c.epoch).isSome
    · rw [if_pos hc]
    · rw [if_neg hc]
      show (w.storeClaim c).entries e = w.entries e
      have hne' : c.epoch ≠ e := hne
      rw [World.entries_storeClaim, if_neg hne', List.append_nil]
  | update e' f hf =>
    rw [Call.run, Prog.eval_bind, update_eval]
    by_cases hc : (w.claim? e').isSome
    · rw [if_pos hc]
      show Keyed.entries ClaimData.epoch e (Keyed.update ClaimData.epoch e' f w.claims) = _
      rw [Keyed.entries_update hid hf]
      exact if_neg hne
    · rw [if_neg hc]
  | remove e' =>
    show Keyed.entries ClaimData.epoch e (Keyed.erase ClaimData.epoch e' w.claims) = _
    rw [Keyed.entries_erase hid]
    exact if_neg hne
  | get e' =>
    rw [Call.run, Prog.eval_bind, ClaimStore.get, Prog.eval_bind_ok loadAll_eval]
    rcases Keyed.entries ClaimData.epoch e' w.claims with _ | ⟨c, _ | ⟨c', l⟩⟩ <;> rfl
  | getClaim e' =>
    rw [Call.run, ClaimStore.getClaim, Prog.eval_bind, Prog.eval_bind, ClaimStore.get,
      Prog.eval_bind_ok loadAll_eval]
    rcases Keyed.entries ClaimData.epoch e' w.claims with _ | ⟨c, _ | ⟨c', l⟩⟩ <;> rfl
  | existsClaim e' => rfl

/-! ### Runs -/

/-- **Any number of calls.** -/
lemma runAll_holds (h : Holds w m) (calls : List Call) :
    (runAll o calls w).1 = (onMapAll calls m).1 ∧
      Holds (runAll o calls w).2 (onMapAll calls m).2 := by
  induction calls generalizing w m with
  | nil => exact ⟨rfl, h⟩
  | cons call calls ih =>
    obtain ⟨hreply, hnext⟩ := run_holds (o := o) h call
    obtain ⟨hreplies, hend⟩ := ih hnext
    refine ⟨?_, hend⟩
    rw [runAll, onMapAll]
    dsimp only
    rw [hreply, hreplies]

/-- The world before the first claim is stored, when there is no claims file. -/
def noFile (w : World) : World := { w with claims := [] }

/-- **The claims file refines a map.** After any calls that start without a file, the replies have
been those of the map, and the file has the entries of the map, each epoch once. The next call, any
of them, replies as the map does; it panics exactly when `store` finds its epoch or `update`, `get`
or `getClaim` do not, never over two claims of one epoch; a call that panics changes nothing, and no
call changes an entry of another epoch. -/
theorem claimStore_refines_map (o : (q : Query) → q.Answer) (calls : List Call) (w : World) :
    (runAll o calls (noFile w)).1 = (onMapAll calls ∅).1 ∧
      ((runAll o calls (noFile w)).2.claims.map ClaimData.epoch).Nodup ∧
      (∀ e, (runAll o calls (noFile w)).2.claim? e = (onMapAll calls ∅).2.lookup e) ∧
      ∀ call : Call,
        (call.run.eval o (runAll o calls (noFile w)).2).1 = (call.onMap (onMapAll calls ∅).2).1 ∧
        ((∃ p, (call.run.eval o (runAll o calls (noFile w)).2).1 = .error p) ↔
          call.Refused (runAll o calls (noFile w)).2.claims) ∧
        (∀ p, (call.run.eval o (runAll o calls (noFile w)).2).1 = .error p →
          (∀ e, p ≠ .multipleClaims e) ∧
            (call.run.eval o (runAll o calls (noFile w)).2).2 = (runAll o calls (noFile w)).2) ∧
        ∀ e, e ≠ call.epoch → (call.run.eval o (runAll o calls (noFile w)).2).2.entries e =
          (runAll o calls (noFile w)).2.entries e := by
  have hstart : Holds (noFile w) ∅ := Keyed.holds_nil
  obtain ⟨hreplies, hend⟩ := runAll_holds (o := o) hstart calls
  refine ⟨hreplies, hend.nodup, hend.lookup_eq, fun call => ⟨(run_holds hend call).1,
    run_panics_iff hend call, fun p hp => ?_, fun e he => run_frame call (Ne.symm he)⟩⟩
  have hrefused := run_refused (o := o) hend ((run_panics_iff hend call).mp ⟨p, hp⟩)
  rw [hrefused] at hp ⊢
  cases hp
  refine ⟨fun e => ?_, rfl⟩
  cases call <;> exact nofun

end ClaimMap

end VeaValidator
