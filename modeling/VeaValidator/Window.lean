import VeaValidator.Main

/-!
How far back a route looks.

An initialisation that resets the cursors goes back from the time of the inbox's head by the lookback
of the route. What it leaves out is older than that, and older still by the head of any later time.
-/

namespace VeaValidator

open Coop

namespace Window

open Coverage (Framed)

/-- A sync goes back by the lookback from the time of a block that the inbox's chain has. -/
def Known (route : Route) (chains : ScanTarget → Chain) (w : World) : Prop :=
  ∃ m ≤ w.heads.inbox, w.schedule.indexingSince =
    some ((chains .inbox).ts m - route.settings.syncLookbackSecs)

/-- Where there is a cursor there has been a sync. -/
def Inv (route : Route) (chains : ScanTarget → Chain) (w : World) : Prop :=
  ∀ target, w.lastBlock target ≠ none → Known route chains w

/-- What the others do to the time of the sync and to the heads. -/
structure Steady (s t : World) : Prop where
  since : t.schedule.indexingSince = s.schedule.indexingSince
  heads : s.heads.inbox ≤ t.heads.inbox

variable {route : Route} {chains : ScanTarget → Chain} {s t u w : World}

lemma Steady.refl (s : World) : Steady s s := ⟨rfl, le_rfl⟩

lemma Steady.trans (h : Steady s t) (h' : Steady t u) : Steady s u :=
  ⟨h'.since.trans h.since, h.heads.trans h'.heads⟩

lemma steady_of_frame (h : Coverage.Frame s t) : Steady s t := ⟨h.since, by rw [h.heads]⟩

lemma Known.steady (h : Known route chains s) (hst : Steady s t) : Known route chains t := by
  obtain ⟨m, hm, hsince⟩ := h
  exact ⟨m, hm.trans hst.heads, hst.since.trans hsince⟩

/-- The cursors stay as well. -/
lemma Inv.steady (h : Inv route chains s) (hst : Steady s t)
    (hcursor : ∀ target, t.lastBlock target = s.lastBlock target) : Inv route chains t := by
  intro target ht
  rw [hcursor] at ht
  exact (h target ht).steady hst

lemma Inv.frame (h : Inv route chains s) (hf : Coverage.Frame s t) : Inv route chains t :=
  h.steady (steady_of_frame hf) hf.cursor

lemma inv_of_known (h : Known route chains s) : Inv route chains s := fun _ _ => h

/-! ### The protocol -/

@[simps]
def protocol (route : Route) (chains : ScanTarget → Chain) :
    Protocol Role World Panic Query.Answer where
  inv := Inv route chains
  durable := Inv route chains
  rely
    | .indexer, s, t => Steady s t
    | .dispatcher, _, _ => True
  guar
    | .indexer, _, _ => True
    | .dispatcher, s, t => Steady s t
  answer := Coverage.Faithful route chains
  issue _ _ _ := True
  fault _ _ _ := True

lemma patient {J : World → Prop} (h : ∀ s t, J s → Steady s t → J t) :
    Patient (protocol route chains) .indexer J where
  rely s t hJ ht _ := h s t hJ ht
  issue _ _ _ _ _ := trivial
  fault _ _ _ _ _ := trivial

lemma patient_known : Patient (protocol route chains) .indexer (Known route chains) :=
  patient fun _ _ h hst => h.steady hst

/-- A write of the indexer after a sync. -/
lemma keeps_modify {f : World → World} (hf : ∀ w, Steady w (f w)) :
    Prog.Keeps (protocol route chains) .indexer (Known route chains) (Prog.modify f) := by
  intro s _ hs
  have hI : Inv route chains (f s) := inv_of_known (hs.steady (hf s))
  exact ⟨trivial, hI, hI, hs.steady (hf s)⟩

lemma keeps_framed {α : Type} {p : M α} (hp : Framed p) :
    Prog.Keeps (protocol route chains) .indexer (Known route chains) p :=
  .of_loose hp (fun _ _ h ht _ => h.steady ht)
    (fun _ _ hI h hf => ⟨trivial, hI.frame hf, hI.frame hf, h.steady (steady_of_frame hf)⟩)
    (fun _ _ _ _ _ => trivial) fun _ _ _ _ _ => trivial

lemma keeps_handle (target : ScanTarget) (log : Log) : Prog.Keeps (protocol route chains) .indexer
    (Known route chains) (Indexer.handle route target log) := by
  intro s hI h
  refine Indexer.wp_handle (keeps_framed (Coverage.framed_dispatch target log) s hI h) ?_
  rintro t ⟨hIt, ht⟩
  exact keeps_modify (fun w => steady_of_frame (Coverage.frame_note w (o := .handled target log)
    trivial)) t hIt ht

lemma keeps_run (n : ℕ) : Prog.Keeps (protocol route chains) .indexer (Known route chains)
    (Indexer.run route n) := by
  refine Indexer.keeps_run patient_known (fun _ _ _ _ => trivial)
    (fun target f => keeps_modify fun w => ⟨?_, ?_⟩)
    (fun target a b logs => keeps_modify fun w => ⟨?_, ?_⟩)
    (keeps_modify fun w => steady_of_frame (Coverage.frame_setOnSync w true)) keeps_handle n
  · rw [World.schedule_setCatchup]
  · rw [World.heads_setCatchup]
  · rw [World.indexingSince_updateBlock]
  · exact le_rfl

/-- After an initialisation it is known how far back the route looks. -/
lemma wp_initializeIndexer (hI : Inv route chains s) :
    (Indexer.initializeIndexer route).wp (protocol route chains) .indexer
      (fun _ t => Inv route chains t ∧ Known route chains t) s := by
  have hf : Coverage.Frame s (s.setOnSync false) := Coverage.frame_setOnSync s false
  have hstay : ∀ now, ∀ t u : World, (∃ m ≤ t.heads.inbox, now = (chains .inbox).ts m) → Steady t u →
      ∃ m ≤ u.heads.inbox, now = (chains .inbox).ts m := by
    rintro now t u ⟨m, hm, rfl⟩ htu
    exact ⟨m, hm.trans htu.heads, rfl⟩
  refine Indexer.wp_initializeIndexer (J := fun t => s.lastBlock .inbox ≠ none → Known route chains t)
    (patient fun t u h htu hin => (h hin).steady htu)
    (B := fun now t => ∃ m ≤ t.heads.inbox, now = (chains .inbox).ts m)
    ⟨trivial, hI.frame hf⟩ (hI.frame hf) (fun hin => (hI .inbox hin).steady (steady_of_frame hf))
    (fun b t _ _ ha => ?_) (fun now t u h htu _ => hstay now t u h htu)
    (fun hin _ t hIt ht => ⟨hIt, ht hin⟩) fun now t hB hIt _ => ?_
  · obtain ⟨hnumber, hts, -⟩ := ha .inbox rfl
    exact ⟨b.number, le_of_eq hnumber, hts⟩
  · have hsearch : ∀ provider target, Prog.Keeps (protocol route chains) .indexer
        (fun u => ∃ m ≤ u.heads.inbox, now = (chains .inbox).ts m)
        (findBlockByTimestamp provider target) := fun provider target =>
      (patient (hstay now)).keeps (quiet_findBlockByTimestamp provider target)
    rw [Prog.wp_bind]
    refine Prog.wp_mono ?_ (hsearch _ _ t hIt hB)
    rintro inboxStart u ⟨hIu, hu⟩
    rw [Prog.wp_bind]
    refine Prog.wp_mono ?_ (hsearch _ _ u hIu hu)
    rintro outboxStart v ⟨-, m, hm, rfl⟩
    have hknown : Known route chains (v.initializeSync
        ((chains .inbox).ts m - route.settings.syncLookbackSecs) inboxStart outboxStart) :=
      ⟨m, hm, rfl⟩
    exact ⟨trivial, inv_of_known hknown, inv_of_known hknown, hknown⟩

theorem covers (route : Route) (chains : ScanTarget → Chain) :
    (protocol route chains).Covers (Coverage.system route chains) where
  rely_refl i s := by
    cases i with
    | indexer => exact Steady.refl s
    | dispatcher => trivial
  rely_trans i s t u hst htu := by
    cases i with
    | indexer => exact Steady.trans hst htu
    | dispatcher => trivial
  guar_rely := Role.guar_rely (fun _ _ _ => trivial) fun _ _ h => h
  answer _ _ _ _ ha := ha
  env s t hst hI := by
    obtain ⟨hheads, heq⟩ := hst
    have hsteady : Steady s t := ⟨by rw [heq], hheads .inbox⟩
    refine ⟨hI.steady hsteady fun _ => by rw [heq]; rfl, fun i => ?_⟩
    cases i with
    | indexer => exact hsteady
    | dispatcher => trivial
  init s hs := by
    rw [hs]
    intro target ht
    cases target <;> exact absurd rfl ht
  boot i p s t hp _ _ hI := by
    cases i with
    | indexer =>
      obtain ⟨n, rfl⟩ := hp
      rw [Prog.wp_bind]
      refine Prog.wp_mono ?_ (wp_initializeIndexer hI)
      rintro _ u ⟨hIu, hu⟩
      exact Prog.wp_mono (fun _ v hv => hv.1) (keeps_run n u hIu hu)
    | dispatcher =>
      obtain ⟨n, rfl⟩ := hp
      have hkeeps : Prog.Keeps (protocol route chains) .dispatcher (fun _ => True)
          (Dispatcher.run route n) :=
        .of_loose (Coverage.framed_run n) (fun _ _ _ _ _ => trivial)
          (fun _ _ hIs _ hf => ⟨steady_of_frame hf, hIs.frame hf, hIs.frame hf, trivial⟩)
          (fun _ _ _ _ _ => trivial) fun _ _ _ _ _ => trivial
      exact Prog.wp_mono (fun _ u hu => hu.1) (hkeeps t hI trivial)
  durable _ h := h
  restart s t h hr := by
    obtain ⟨onSync, rfl⟩ := hr
    exact h.steady ⟨rfl, le_rfl⟩ fun _ => rfl

lemma tolerates (route : Route) (chains : ScanTarget → Chain) :
    Main.Tolerates (protocol route chains) where
  kept s line hI :=
    have hkept := hI.frame (Coverage.frame_note s (o := .watch line) trivial)
    ⟨hkept, hkept⟩
  unseen i s line := by
    cases i with
    | indexer => exact steady_of_frame (Coverage.frame_note s (o := .watch line) trivial)
    | dispatcher => trivial
  patient := patient fun _ _ _ _ => trivial

/-! ### The logs of the window -/

/-- A log in a scanned block that is not older than the head by more than the lookback is handled. -/
lemma handled_of_recent {makeClaims : Bool} (hmono : ∀ target, Monotone (chains target).ts)
    {c : Staged.Config Thread World Panic Query.Answer ℕ}
    (hc : (Main.routeSystem route makeClaims Coverage.Fresh (Coverage.Faithful route chains)
      Restarted).Reachable c) {target : ScanTarget} {log : Log} {n cursor : ℕ}
    (hcursor : c.store.lastBlock target = some cursor) (hlog : log ∈ (chains target).logs)
    (hn : log.blockNumber = some n) (hlt : n < cursor)
    (hrecent : (chains .inbox).ts c.store.heads.inbox ≤
      (chains target).ts n + route.settings.syncLookbackSecs) :
    .handled target log ∈ c.store.log := by
  have hsome : c.store.lastBlock target ≠ none := by
    rw [hcursor]
    exact Option.some_ne_none cursor
  obtain ⟨m, hm, hsince⟩ :=
    (Main.invariant_of_covers (covers route chains) (tolerates route chains) hc).1 target hsome
  have hhead : (chains .inbox).ts m ≤ (chains .inbox).ts c.store.heads.inbox := hmono .inbox hm
  have hcoverage : Coverage.Inv chains c.store :=
    (Main.invariant_of_covers (Coverage.covers route hmono) (Main.tolerates_coverage route chains)
      hc).1
  exact hcoverage.covered target log ⟨_, cursor, n, hsince, hcursor, hlog, hn, by omega, .inl hlt⟩

end Window

end VeaValidator
