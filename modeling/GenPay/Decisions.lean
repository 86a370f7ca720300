import GenPay.Settlements

/-!
# Decisions on an authorization

Each handler reads the status of its authorization and writes it later: two decisions that both read `pending`
both commit, and a batch that runs in between settles an authorization that ends up declined (`decisions_race`).
As long as decisions on an authorization commit on a pending row only, at most one of them commits, its status is
final, and only an authorized one has a settlement (`decided_once`).
-/

namespace GenPay

open ReadCommitted

/-- An approval or a decline of the authorization with this external reference. -/
def Job.decides (env : Env) (reference : String) : Job → Prop
  | .request r => r.route = .processorEvents ∧ ∃ envelope, env.parseEnvelope r.rawBody = .ok envelope ∧
      ((envelope.eventType = .authorizationApproved ∧
          ∃ data, env.validateApproved envelope.data = .ok data ∧ data.authorizationId = reference) ∨
        (envelope.eventType = .authorizationDeclined ∧
          ∃ data, env.validateDeclined envelope.data = .ok data ∧ data.authorizationId = reference))
  | _ => False

/-- The authorization with this reference is pending. -/
def Db.Pending (d : Db) (reference : String) : Prop :=
  ∃ a ∈ d.authorizations, a.externalReference = reference ∧ a.status = .pending

instance (d : Db) (reference : String) : Decidable (d.Pending reference) :=
  inferInstanceAs (Decidable (∃ a ∈ d.authorizations, _))

/-- A decision commits only while its authorization is pending. -/
def DecidesPending (env : Env) (reference : String) (t : AppSession) (d : Db) : Prop :=
  t.job.decides env reference → t.txn.writes ≠ [] → d.Pending reference

/-- At most one decision commits, the status it leaves is final, and only authorized ones are settled. -/
structure DecidedOnce (env : Env) (G : AppSession → Db → Prop) (reference : String) (s : AppSystem) : Prop where
  once : ∀ (i j : Nat) t u, s.sessions[i]? = some t → s.sessions[j]? = some u → t.job.decides env reference →
    u.job.decides env reference → t.published ≠ [] → u.published ≠ [] → i = j
  final : ∀ s', Run (genPay env) G s s' → ∀ a ∈ s.db.authorizations, a.externalReference = reference →
    a.status ≠ .pending → ∀ b ∈ s'.db.authorizations, b.id = a.id → b.status = a.status
  settled : ∀ x ∈ s.db.settlements, ∀ a ∈ s.db.authorizations, a.externalReference = reference →
    a.id = x.authorizationId → a.status = .authorized

/-! ### A commit -/

namespace Action.Commits

variable {env : Env} {ds : List Db} {d : Db} {act : Action}

/-- A commit changes an authorization by a decision on it only. -/
theorem authorization_cases (h : act.Commits env ds d) {a : Authorization} (ha : a ∈ d.authorizations) :
    (authorizationTable env.foreignKeys).updateAll act.writes a = a ∨
      ∃ e b status reason, act = .decided e b status reason ∧ b.externalReference = a.externalReference := by
  by_cases hdec : ∃ e b status reason, act = .decided e b status reason ∧ b.id = a.id
  · obtain ⟨e, b, status, reason, rfl, hid⟩ := hdec
    refine Or.inr ⟨e, b, status, reason, rfl, ?_⟩
    obtain ⟨⟨d', hd', hb⟩, -⟩ := h.grounded
    obtain ⟨c, hc, hstep⟩ := (h.seen d' hd').2.authorizations.mem hb
    have hca : c = a := List.inj_on_of_nodup_map (h.sound.unique .authorizationsId) hc ha
      ((of_core Authorization.id hstep).trans hid)
    exact hca ▸ (of_core Authorization.externalReference hstep).symm
  · refine Or.inl ((authorizationTable env.foreignKeys).updateAll_of_fixed fun w hw => ?_)
    rcases w.onAuthorization_cases a with he | ⟨status, reason, rfl⟩
    · exact he
    · obtain ⟨e, b, hact, hid⟩ := mem_setAuthorizationStatus.1 hw
      exact absurd ⟨e, b, status, reason, hact, hid⟩ hdec

/-- A decision leaves its authorization decided. -/
theorem decided_after {e : ProcessedWebhookEvent} {b : Authorization} {status : AuthorizationStatus}
    {reason : Option String} (h : (Action.decided e b status reason).Commits env ds d) :
    ∃ a ∈ (after env d (.decided e b status reason)).authorizations,
      a.externalReference = b.externalReference ∧ a.status ≠ .pending := by
  obtain ⟨⟨d', hd', hb⟩, -, hstatus⟩ := h.grounded
  obtain ⟨c, hc, hstep⟩ := (h.seen d' hd').2.authorizations.mem hb
  have hid : c.id = b.id := of_core Authorization.id hstep
  refine ⟨(authorizationTable env.foreignKeys).updateAll (writes (.decided e b status reason)) c, ?_,
    (of_core Authorization.externalReference (authorization_core c)).trans
      (of_core Authorization.externalReference hstep), ?_⟩
  · rw [authorizations_after]
    exact List.mem_append_left _ (List.mem_map_of_mem hc)
  · have hupdated : (authorizationTable env.foreignKeys).updateAll (writes (.decided e b status reason)) c =
        { c with status := status, declineReason := reason.orElse fun _ => c.declineReason } := by
      show Write.onAuthorization (.setAuthorizationStatus b.id status reason) c = _
      simp only [Write.onAuthorization, if_pos hid]
    rw [hupdated]
    rcases hstatus with rfl | rfl <;> exact AuthorizationStatus.noConfusion

/-- An authorization that is decided stays as it is, if decisions on it commit on a pending row only. -/
theorem decided_stays (h : act.Commits env ds d) {reference : String}
    (hguard : ∀ e b status reason, act = .decided e b status reason → b.externalReference = reference →
      d.Pending reference) {a : Authorization} (ha : a ∈ d.authorizations) (href : a.externalReference = reference)
    (hst : a.status ≠ .pending) : a ∈ (after env d act).authorizations := by
  have hfix : (authorizationTable env.foreignKeys).updateAll act.writes a = a := by
    rcases h.authorization_cases ha with he | ⟨e, b, status, reason, hact, hb⟩
    · exact he
    · obtain ⟨c, hc, hcref, hpending⟩ := hguard e b status reason hact (hb.trans href)
      have hca : c = a := List.inj_on_of_nodup_map (h.sound.unique .authorizationsExternalReference) hc ha
        (hcref.trans href.symm)
      exact absurd (hca ▸ hpending) hst
  rw [authorizations_after, List.mem_append, List.mem_map]
  exact Or.inl ⟨a, ha, hfix⟩

end Action.Commits

/-! ### At most one decision -/

/-- Only if it is authorized, the authorization with this reference has a settlement. -/
def Db.SettledAuthorized (d : Db) (reference : String) : Prop :=
  ∀ x ∈ d.settlements, ∀ a ∈ d.authorizations, a.externalReference = reference → a.id = x.authorizationId →
    a.status = .authorized

/-- A later database has the decided authorization unchanged. -/
def Db.KeepsDecided (reference : String) (d d' : Db) : Prop :=
  ∀ a ∈ d.authorizations, a.externalReference = reference → a.status ≠ .pending → a ∈ d'.authorizations

/-- The settlements a commit adds are of authorizations that are still authorized. -/
theorem Action.Commits.settledAuthorized {env : Env} {ds : List Db} {d : Db} {act : Action}
    (h : act.Commits env ds d) {reference : String} (hd : d.SettledAuthorized reference)
    (hseen : ∀ d' ∈ ds, Db.KeepsDecided reference d' d) (hkeep : Db.KeepsDecided reference d (after env d act)) :
    (after env d act).SettledAuthorized reference := by
  have unique : ∀ {a b : Authorization}, a ∈ (after env d act).authorizations →
      b ∈ (after env d act).authorizations → a.id = b.id → a = b :=
    fun ha hb he => List.inj_on_of_nodup_map (h.sound_after.unique .authorizationsId) ha hb he
  have decided : ∀ {a : Authorization}, a.status = .authorized → a.status ≠ .pending := by
    intro a ha hp
    rw [ha] at hp
    cases hp
  intro x hx a ha href hid
  rw [settlements_after, List.mem_append, List.mem_map] at hx
  rcases hx with ⟨x, hx, rfl⟩ | hx
  · -- an old settlement: its authorization was there, authorized
    rw [of_core Settlement.authorizationId (settlement_core x)] at hid
    obtain ⟨c, hc, hcid⟩ := List.mem_map.1 (h.sound.authorization x hx)
    obtain ⟨c', hc', hstep⟩ := h.extends_after.authorizations.mem hc
    have hac : a = c' := unique ha hc' (hid.trans (hcid.symm.trans (of_core Authorization.id hstep).symm))
    have hcref : c.externalReference = reference :=
      (of_core Authorization.externalReference hstep).symm.trans (hac ▸ href)
    have hst := hd x hx c hc hcref hcid
    rw [unique ha (hkeep c hc hcref (decided hst)) (hid.trans hcid.symm)]
    exact hst
  · rw [settlements_eq, List.mem_map] at hx
    obtain ⟨p, hp, rfl⟩ := hx
    have hgr : p.Grounded env ds := h.grounded.purchase hp
    have hmem : p.authorization ∈ (after env d act).authorizations := by
      cases act with
      | purchase key q =>
        cases List.mem_singleton.1 hp
        rw [authorizations_after]
        exact List.mem_append_right _ (List.mem_singleton.2 rfl)
      | batch e ps =>
        -- the batch has read it authorized, and it has stayed so
        obtain ⟨-, d', hd', hmem⟩ := h.grounded p hp
        obtain ⟨c, hc, hstep⟩ := ((h.seen d' hd').2.trans h.extends_after).authorizations.mem hmem
        have hac : a = c := unique ha hc
          ((hid.trans hgr.settlement.1).trans (of_core Authorization.id hstep).symm)
        have hpref : p.authorization.externalReference = reference :=
          (of_core Authorization.externalReference hstep).symm.trans (hac ▸ href)
        exact hkeep _ (hseen d' hd' _ hmem hpref (decided hgr.authorized)) hpref (decided hgr.authorized)
      | _ => cases hp
    rw [unique ha hmem (hid.trans hgr.settlement.1)]
    exact hgr.authorized

section Runs

variable {env : Env} {d₀ : Db} {s : AppSystem} {reference : String}

/-- What a decision that writes anything does. -/
theorem Answers.decided {a : Response} {act : Action} {ds : List Db} {job : Job} (h : Answers env a act ds job)
    (hjob : job.decides env reference) (hne : act.writes ≠ []) :
    ∃ e b status reason, act = .decided e b status reason ∧ b.externalReference = reference := by
  cases job with
  | seed => exact hjob.elim
  | reconcileScript => exact hjob.elim
  | request r =>
    obtain ⟨hr, envelope, hparse, hdec⟩ := hjob
    have hact := (h.event hr hparse hne).1
    rcases hdec with ⟨htype, data, hval, rfl⟩ | ⟨htype, data, hval, rfl⟩
    · simp only [AnswersEvent, htype] at hact
      obtain ⟨data', b, hval', href, rfl⟩ := hact
      rw [hval] at hval'
      cases hval'
      exact ⟨_, b, _, _, rfl, href⟩
    · simp only [AnswersEvent, htype] at hact
      obtain ⟨data', b, hval', href, rfl⟩ := hact
      rw [hval] at hval'
      cases hval'
      exact ⟨_, b, _, _, rfl, href⟩

theorem Answers.decides {a : Response} {ds : List Db} {job : Job} {e : ProcessedWebhookEvent} {b : Authorization}
    {status : AuthorizationStatus} {reason : Option String}
    (h : Answers env a (.decided e b status reason) ds job) : job.decides env b.externalReference := by
  cases h.acts with
  | entity _ hact => cases hact
  | @event r act envelope result hr _ hparse _ hact =>
    refine ⟨hr, envelope, hparse, ?_⟩
    unfold AnswersEvent at hact
    split at hact
    · obtain ⟨data, x, -, -, he⟩ := hact
      cases he
    · rename_i htype
      obtain ⟨data, x, hval, href, he⟩ := hact
      cases he
      exact Or.inl ⟨htype, data, hval, href.symm⟩
    · rename_i htype
      obtain ⟨data, x, hval, href, he⟩ := hact
      cases he
      exact Or.inr ⟨htype, data, hval, href.symm⟩
    · obtain ⟨data, ps, -, -, he⟩ := hact
      cases he

/-- Decisions that commit on a pending authorization only leave it decided. -/
def decideOnce (env : Env) (reference : String) :
    Discipline (genPay env) (uniqueKeys env.foreignKeys) (DecidesPending env reference) where
  inv d := d.Sound ∧ d.SettledAuthorized reference
  evolves d d' := d.Extends d' ∧ Db.KeepsDecided reference d d'
  post := Committed env
  refl d := ⟨Db.Extends.refl d, fun _ ha _ _ => ha⟩
  trans h h' := ⟨h.1.trans h'.1, fun a ha href hst => h'.2 a (h.2 a ha href hst) href hst⟩
  program := fun r o => handle_spec env r o
  commit := by
    rintro t a d hpost hG ⟨hd, hset⟩ hseen hord hfree
    obtain ⟨act, hw, h, hans⟩ := Committed.commits hpost hd
      (fun d' hd' => ⟨(hseen d' hd').1.1, (hseen d' hd').2.1⟩) (hord.imp fun h => h.1) hfree
    have hkeep : Db.KeepsDecided reference d (Action.Commits.after env d act) := by
      refine fun b hb href hst => h.decided_stays (fun e c status reason hact hc => ?_) hb href hst
      subst hact
      exact hG (hc ▸ hans.decides) (by rw [hw]; exact List.cons_ne_nil _ _)
    rw [hw]
    exact ⟨⟨h.sound_after, h.settledAuthorized hset (fun d' hd' => (hseen d' hd').2.2) hkeep⟩,
      h.extends_after, hkeep⟩

theorem decideOnce_initial (h₀ : Seeded env d₀) : (decideOnce env reference).inv d₀ :=
  ⟨h₀.sound, fun x hx => by rw [h₀.no_ledger.2.1] at hx; cases hx⟩

/-- A committed decision has left its authorization decided. -/
theorem decided_of_committed (h₀ : Seeded env d₀)
    (h : Run (genPay env) (DecidesPending env reference) (System.initial d₀) s) {t : AppSession}
    (ht : t ∈ s.sessions) {a : Response} (ha : t.phase = .committed a) (hjob : t.job.decides env reference)
    (hne : t.txn.writes ≠ []) :
    ∃ b ∈ s.db.authorizations, b.externalReference = reference ∧ b.status ≠ .pending := by
  refine Discipline.facts (D := decideOnce env reference) (fun t d => t.job.decides env reference →
    t.txn.writes ≠ [] → ∃ b ∈ d.authorizations, b.externalReference = reference ∧ b.status ≠ .pending) ?_ ?_
    (decideOnce_initial h₀) h t ht a ha hjob hne
  · rintro t a d hat hjob hne
    obtain ⟨act, hw, hc, hans⟩ := Committed.commits hat.post hat.inv.1
      (fun d' hd' => ⟨(hat.seen d' hd').1.1, (hat.seen d' hd').2.1⟩) (hat.ordered.imp fun h => h.1) hat.free
    obtain ⟨e, b, status, reason, rfl, rfl⟩ := hans.decided hjob (hw ▸ hne)
    rw [hw]
    exact hc.decided_after
  · rintro t a d d' - hF - hev hjob hne
    obtain ⟨b, hb, href, hst⟩ := hF hjob hne
    exact ⟨b, hev.2 b hb href hst, href, hst⟩

/-- As long as decisions on the authorization commit while it is pending only, all parties agree on one. -/
theorem decided_once (h₀ : Seeded env d₀)
    (h : Run (genPay env) (DecidesPending env reference) (System.initial d₀) s) :
    DecidedOnce env (DecidesPending env reference) reference s where
  once i j t u hi hj ht hu hpt hpu := by
    by_contra hij
    have committed : ∀ {v : AppSession}, v.published ≠ [] → ∃ a, v.phase = .committed a ∧ v.txn.writes ≠ [] := by
      intro v hv
      by_contra hn
      refine hv (published_of_not_committed fun a ha => hn ⟨a, ha, ?_⟩)
      rwa [published_of_committed ha] at hv
    obtain ⟨a, ha, hta⟩ := committed hpt
    obtain ⟨b, hb, hub⟩ := committed hpu
    refine Discipline.pairwise (D := decideOnce env reference)
      (fun u d => u.job.decides env reference → u.txn.writes ≠ [] →
        ∃ b ∈ d.authorizations, b.externalReference = reference ∧ b.status ≠ .pending)
      (fun t u => ¬ ((t.job.decides env reference ∧ t.txn.writes ≠ []) ∧
        u.job.decides env reference ∧ u.txn.writes ≠ []))
      (fun t u hn hut => hn hut.symm) (fun s' hrun t ht a ha => decided_of_committed h₀ hrun ht ha) ?_
      (decideOnce_initial h₀) h i j t u a b hij hi hj ha hb ⟨⟨ht, hta⟩, hu, hub⟩
    rintro t a d u b hat - hF ⟨⟨ht, hta⟩, hu, hub⟩
    obtain ⟨x, hx, hxref, hpending⟩ := hat.guard ht hta
    obtain ⟨y, hy, hyref, hdecided⟩ := hF hu hub
    have hxy : x = y := List.inj_on_of_nodup_map (hat.inv.1.unique .authorizationsExternalReference) hx hy
      (hxref.trans hyref.symm)
    exact hdecided (hxy ▸ hpending)
  final s' hrun a ha href hst b hb hid := by
    obtain ⟨hev, h'⟩ := Discipline.evolves_run (D := decideOnce env reference) (decideOnce_initial h₀) h hrun
    have hinv := (Discipline.inv_run (D := decideOnce env reference) (decideOnce_initial h₀) h').db
    have hba : b = a := List.inj_on_of_nodup_map (hinv.1.unique .authorizationsId) hb (hev.2 a ha href hst) hid
    rw [hba]
  settled := (Discipline.inv_run (D := decideOnce env reference) (decideOnce_initial h₀) h).db.2

end Runs

namespace Sample

/-- Only the approval and the decline of the authorization are decisions. -/
theorem decides_case {c : Case} (h : c.job.decides env "auth_1") :
    c = .delivers .approved ∨ c = .delivers .declined := by
  cases c with
  | delivers e =>
    obtain ⟨-, envelope, hparse, hdec⟩ := h
    have he : e.envelope = envelope := Except.ok.inj ((parse_body e).symm.trans hparse)
    subst he
    cases e with
    | approved => exact Or.inl rfl
    | declined => exact Or.inr rfl
    | _ => rcases hdec with ⟨htype, -⟩ | ⟨htype, -⟩ <;> cases htype
  | reconciles => exact h.elim
  | _ => exact absurd h.1 Route.noConfusion

/-- The guard, on sessions that are told apart by the times of their deliveries. -/
def decidesPending (t : AppSession) (d : Db) : Bool :=
  match t.job with
  | .request r => decide ((r.clock.num ≠ 1767225601 ∧ r.clock.num ≠ 1767225602) ∨ d.Pending "auth_1")
  | _ => true

theorem decidesPending_spec (c : Case) (t : AppSession) (d : Db) (hc : t.job = c.job)
    (h : decidesPending t d = true) : DecidesPending env "auth_1" t d := by
  intro hdec _
  rw [hc] at hdec
  unfold decidesPending at h
  rw [hc] at h
  rcases decides_case hdec with rfl | rfl
  · exact (of_decide_eq_true h).resolve_left fun hn => hn.1 (by decide +kernel)
  · exact (of_decide_eq_true h).resolve_left fun hn => hn.2 (by decide +kernel)

/-- The authorization is approved, a decline arrives too late, and the settlement follows. -/
def declinedTooLate : AppSystem :=
  after decidesPending (authorized ++ [.start 2 (.delivers .declined), .steps 2 3, .start 3 (.delivers .settled),
    .steps 3 27])

end Sample

theorem decided_once_declinedTooLate : Sample.declinedTooLate.db.settlements.length = 1 ∧
    DecidedOnce Sample.env (DecidesPending Sample.env "auth_1") "auth_1" Sample.declinedTooLate := by
  refine ⟨?_, decided_once Sample.seeded_env (Sample.run_after Sample.decidesPending_spec _)⟩
  rw [Sample.declinedTooLate, Sample.after_eq]
  decide +kernel

/-- The approval and the decline both read the authorization while it is pending; between their commits it is
settled. -/
def Sample.decisionRace : AppSystem :=
  after (fun _ _ => true) [.start 0 (.delivers .created), .steps 0 8, .start 1 (.delivers .approved),
    .start 2 (.delivers .declined), .steps 1 2, .steps 2 2, .steps 1 2, .start 3 (.delivers .settled), .steps 3 27,
    .steps 2 2]

/-- The authorization has a settlement, settled, and is declined. -/
theorem decisions_race : Reachable (genPay Sample.env) Sample.seeded Sample.decisionRace ∧
    ¬ DecidedOnce Sample.env (fun _ _ => True) "auth_1" Sample.decisionRace ∧
    ∃ x ∈ Sample.decisionRace.db.settlements, x.status = .settled ∧
      ∃ a ∈ Sample.decisionRace.db.authorizations, a.id = x.authorizationId ∧ a.status = .declined := by
  have hrace : ∃ x ∈ Sample.decisionRace.db.settlements, x.status = .settled ∧
      ∃ a ∈ Sample.decisionRace.db.authorizations, a.id = x.authorizationId ∧ a.status = .declined ∧
        a.externalReference = "auth_1" := by
    rw [Sample.decisionRace, Sample.after_eq]
    decide +kernel
  obtain ⟨x, hx, hsettled, a, ha, hid, hdeclined, href⟩ := hrace
  refine ⟨Sample.reachable_after _, fun h => ?_, x, hx, hsettled, a, ha, hid, hdeclined⟩
  have hst := h.settled x hx a ha href hid
  rw [hdeclined] at hst
  cases hst

end GenPay
