import VeaValidator.Files

/-!
Stops in the middle of a write.

An operation of a store rewrites its file in place. When it is stopped between the truncation and
the last byte, what is in the file is the beginning of a JSON text, and no such beginning is a JSON
text itself. The next operation panics over it, and so does every one after that.
-/

namespace VeaValidator

open Coop Bytes

namespace Crashes

open Files

section
variable {α β : Type} {c : Serde α} {file : String} {init a b : α} {f u : File}
  {o : (q : Query) → q.Answer}

/-- The file `u`, which is left when the operation on `f` is stopped, has the content from before the
operation or the one from after it. -/
def Recovers (c : Serde α) (file : String) (init : α) (o : (q : Query) → q.Answer) (p : FileM β)
    (f u : File) : Prop :=
  ∃ a, Loads c file init u a ∧ (Loads c file init f a ∨ Loads c file init (p.eval o f).2 a)

/-- A stop after `n` steps of the write is before the truncation or after the last byte, if there is
something to write. -/
def Whole (c : Serde α) (saved : Option α) (n : ℕ) : Prop :=
  ∀ b, saved = some b → n = 0 ∨ (ofText (c.toStringPretty b)).length < n

/-- **A part of what is saved cannot be read.** -/
lemma not_loads_part {bytes : List UInt8} (hstrict : c.Strict) (hb : c.Writes b)
    (hp : bytes <+: ofText (c.toStringPretty b)) (hne : bytes ≠ ofText (c.toStringPretty b)) :
    ¬Loads c file init (some bytes) a := by
  intro h
  obtain ⟨text, rfl, htext⟩ := loads_some.mp h
  obtain ⟨hnil, hbalanced⟩ := hstrict text a htext
  have hcut : text.toList ≠ (c.toStringPretty b).toList := by
    intro heq
    exact hne (congrArg ofText (String.toList_inj.mp heq))
  exact hb.group.not_balanced (prefix_toList hp) hcut hnil hbalanced

lemma recovers_iff {p : FileM β} {saved : Option α} (hstrict : c.Strict)
    (hf : Loads c file init f a) (hstops : p.stops o f = passes c f saved)
    (hwrites : ∀ b, saved = some b → c.Writes b) {n : ℕ} (hu : (p.stops o f)[n]? = some u) :
    Recovers c file init o p f u ↔ Whole c saved n := by
  have hafter := loads_eval hf hstops hwrites
  rw [hstops] at hu
  cases n with
  | zero =>
    -- Nothing has been written yet.
    have huf : u = f := by cases saved <;> exact (Option.some.inj hu).symm
    subst huf
    exact ⟨fun _ _ _ => .inl rfl, fun _ => ⟨a, hf, .inl hf⟩⟩
  | succ n =>
    cases saved with
    | none => cases hu
    | some b =>
      have hb := hwrites b rfl
      obtain ⟨hlt, rfl⟩ : n < (ofText (c.toStringPretty b)).length + 1 ∧
          some ((ofText (c.toStringPretty b)).take n) = u := by
        simpa [passes, List.getElem?_eq_some_iff] using hu
      constructor
      · rintro ⟨a', ha', -⟩
        rintro b' ⟨⟩
        refine .inr ?_
        by_contra hshort
        refine not_loads_part hstrict hb (List.take_prefix n _) (fun heq => ?_) ha'
        have hlen := congrArg List.length heq
        rw [List.length_take] at hlen
        omega
      · intro hwhole
        have hfull := (hwhole b rfl).resolve_left (Nat.succ_ne_zero n)
        rw [List.take_of_length_le (by omega)]
        exact ⟨b, .of_saved hb.read_back, .inr hafter⟩

end

/-- **When a stop is harmless.** For every operation of the two stores, every content and every point
of the operation: the file that is left has the content from before or after the operation if and
only if the stop is not between the truncation and the last byte of a write. -/
theorem recovers_iff_whole {schedule : Serde RouteState} {claims : Serde (List ClaimData)}
    (hschedule : schedule.Strict) (hclaims : claims.Strict) (o : (q : Query) → q.Answer) :
    (∀ (β : Type) (call : TaskStore.Call β) (f : File) (state : RouteState),
      Loads schedule "schedule" {} f state →
      (∀ b, call.saves state = some b → schedule.Writes b) →
      ∀ n u, ((call.run schedule).stops o f)[n]? = some u →
        (Recovers schedule "schedule" {} o (call.run schedule) f u ↔
          Whole schedule (call.saves state) n)) ∧
    ∀ (β : Type) (call : ClaimStore.Call β) (f : File) (entries : List ClaimData),
      Loads claims "claims" [] f entries →
      (∀ b, call.saves entries = some b → claims.Writes b) →
      ∀ n u, ((call.run claims).stops o f)[n]? = some u →
        (Recovers claims "claims" [] o (call.run claims) f u ↔
          Whole claims (call.saves entries) n) :=
  ⟨fun _ call _ _ hf hwrites _ _ hu =>
      recovers_iff hschedule hf (TaskStore.stops_run hf call) hwrites hu,
    fun _ call _ _ hf hwrites _ _ hu =>
      recovers_iff hclaims hf (ClaimStore.stops_run hf call) hwrites hu⟩

/-! ### A file that cannot be read -/

lemma eval_load_unreadable {α : Type} {c : Serde α} {file : String} {init : α} {f : File}
    (h : ∀ a, ¬Loads c file init f a) :
    ∃ e, ∀ o : (q : Query) → q.Answer, (load c file init).eval o f = (.error e, f) := by
  rcases f with _ | bytes
  · exact absurd loads_none (h init)
  unfold load
  cases hbytes : String.fromUTF8? bytes.toByteArray with
  | none =>
    refine ⟨.failedToRead file "stream did not contain valid UTF-8", fun o => ?_⟩
    rw [Prog.eval_bind]
    simp only [Prog.gets, Prog.eval, id, hbytes]
  | some text =>
    cases htext : c.fromStr text with
    | none =>
      refine ⟨.expect ("Failed to parse " ++ file ++ " file - data corrupted"), fun o => ?_⟩
      rw [Prog.eval_bind]
      simp only [Prog.gets, Prog.eval, id, hbytes, htext]
    | some a => exact absurd (loads_some.mpr ⟨text, ofText_of_fromUTF8? hbytes, htext⟩) (h a)

/-- Every call but `save` begins with a `load`. -/
def Reads {β : Type} : TaskStore.Call β → Prop
  | .save _ => False
  | _ => True

/-- **A file that cannot be read stays so.** Every operation that reads it panics and leaves it as it
is, in this run of the route and in every later one. -/
theorem unreadable_stays {schedule : Serde RouteState} {claims : Serde (List ClaimData)}
    (o : (q : Query) → q.Answer) :
    (∀ (β : Type) (call : TaskStore.Call β) (f : File), Reads call →
      (∀ state, ¬Loads schedule "schedule" {} f state) →
      ∃ e, (call.run schedule).eval o f = (.error e, f)) ∧
    ∀ (β : Type) (call : ClaimStore.Call β) (f : File),
      (∀ entries, ¬Loads claims "claims" [] f entries) →
      ∃ e, (call.run claims).eval o f = (.error e, f) := by
  constructor
  · intro β call f hreads h
    obtain ⟨e, he⟩ := eval_load_unreadable h
    refine ⟨e, ?_⟩
    cases call with
    | save state => exact hreads.elim
    | load => exact he o
    | _ => exact (Prog.eval_bind o _ _ f).trans (by rw [Files.TaskStore.load, he])
  · intro β call f h
    obtain ⟨e, he⟩ := eval_load_unreadable h
    refine ⟨e, ?_⟩
    have hget : ∀ epoch, (Files.ClaimStore.get claims epoch).eval o f = (.error e, f) := by
      intro epoch
      rw [Files.ClaimStore.get, Files.ClaimStore.loadAll, Prog.eval_bind, he]
    cases call with
    | get epoch => exact hget epoch
    | getClaim epoch => exact (Prog.eval_bind o _ _ f).trans (by rw [hget])
    | _ => exact (Prog.eval_bind o _ _ f).trans (by rw [Files.ClaimStore.loadAll, he])

/-! ### A schedule that is lost -/

/-- The conversions of a few contents. -/
def table {α : Type} [DecidableEq α] (texts : List (String × α)) : Serde α where
  toStringPretty a := ((texts.find? fun x => x.2 = a).map Prod.fst).getD ""
  fromStr text := (texts.find? fun x => x.1 = text).map Prod.snd

lemma strict_table {α : Type} [DecidableEq α] {texts : List (String × α)}
    (h : ∀ x ∈ texts, Brackets.Group Serde.kind x.1.toList) : (table texts).Strict := by
  intro text a hread
  obtain ⟨x, hx, rfl⟩ := Option.map_eq_some_iff.mp hread
  have hgroup := h x (List.mem_of_find?_eq_some hx)
  have htext : x.1 = text := by simpa using List.find?_some hx
  rw [← htext]
  exact ⟨hgroup.ne_nil, hgroup.balanced⟩

/-- The schedule of a route that is on sync. -/
def synced : RouteState := { inboxLastBlock := some 40, outboxLastBlock := some 30, onSync := true }

def syncedText : String :=
  "\x7b\n  \"inbox_last_block\": 40,\n  \"outbox_last_block\": 30,\n  \"tasks\": [],\n" ++
  "  \"indexing_since\": null,\n  \"on_sync\": true,\n  \"last_saved_count\": null\n\x7d"

def scheduleSerde : Serde RouteState := table [(syncedText, synced)]

def claimsSerde : Serde (List ClaimData) := table [("[]", [])]

/-- Nodes that do not answer, and are not asked. -/
def silent : (q : Query) → q.Answer := fun _ => .error "timed out"

/-- `set_on_sync(true)` on the file of that route, which is to write it as it is. -/
def setOnSync : FileM Unit := (TaskStore.Call.setOnSync true).run scheduleSerde

def syncedFile : File := some (ofText syncedText)

lemma group_synced : Brackets.Group Serde.kind syncedText.toList := by
  have hinner : ∃ m, syncedText.toList = '\x7b' :: m ++ ['\x7d'] ∧
      Brackets.check Serde.kind ⟨0, .outside⟩ m = true :=
    ⟨(syncedText.toList.drop 1).dropLast, by decide +kernel⟩
  obtain ⟨m, htext, hcheck⟩ := hinner
  rw [htext]
  exact .mk (by decide) (by decide) (Brackets.balanced_of_check hcheck)

lemma strict_scheduleSerde : scheduleSerde.Strict := by
  refine strict_table fun x hx => ?_
  obtain rfl := List.mem_singleton.mp hx
  exact group_synced

lemma strict_claimsSerde : claimsSerde.Strict := by
  refine strict_table fun x hx => ?_
  obtain rfl := List.mem_singleton.mp hx
  exact .mk (a := '[') (b := ']') (m := []) (by decide) (by decide) .nil

lemma read_synced : scheduleSerde.fromStr syncedText = some synced := by
  decide +kernel

lemma loads_syncedFile : Loads scheduleSerde "schedule" {} syncedFile synced :=
  loads_some.mpr ⟨syncedText, rfl, read_synced⟩

lemma writes_synced : scheduleSerde.Writes synced := by
  have hpretty : scheduleSerde.toStringPretty synced = syncedText := rfl
  constructor
  · rw [hpretty]
    exact group_synced
  · rw [hpretty]
    exact read_synced

lemma stops_setOnSync : (setOnSync.stops silent syncedFile)[1]? = some (some []) := by
  rw [setOnSync, TaskStore.stops_run loads_syncedFile]
  rfl

theorem recovers_iff_whole_sample :
    ¬Recovers scheduleSerde "schedule" {} silent setOnSync syncedFile (some []) := by
  have hwrites : ∀ b, (TaskStore.Call.setOnSync true).saves synced = some b →
      scheduleSerde.Writes b := by
    rintro b ⟨⟩
    exact writes_synced
  rw [setOnSync, (recovers_iff_whole strict_scheduleSerde strict_claimsSerde silent).1 Unit
    (.setOnSync true) syncedFile synced loads_syncedFile hwrites 1 (some []) stops_setOnSync]
  intro hwhole
  rcases hwhole synced rfl with h | h
  · cases h
  · exact absurd h (by decide +kernel)

/-- The process stops when the file has been truncated: neither the old content nor the new one is
there, and the store panics. -/
theorem crash_loses :
    Loads scheduleSerde "schedule" {} syncedFile synced ∧
    (setOnSync.stops silent syncedFile)[1]? = some (some []) ∧
    ¬Recovers scheduleSerde "schedule" {} silent setOnSync syncedFile (some []) ∧
    (Files.TaskStore.load scheduleSerde).eval silent (some []) =
      (.error (.expect "Failed to parse schedule file - data corrupted"), some []) := by
  have hpanic : (Files.TaskStore.load scheduleSerde).eval silent (some []) =
      (.error (.expect "Failed to parse schedule file - data corrupted"), some []) := by
    decide +kernel
  refine ⟨loads_syncedFile, stops_setOnSync, ?_, hpanic⟩
  rintro ⟨a, ha, -⟩
  have hload := ha silent
  rw [← Files.TaskStore.load, hpanic] at hload
  cases hload

end Crashes

end VeaValidator
