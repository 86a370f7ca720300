import GenPay.Refunds

/-!
# Settlements

The unique constraint on `settlements.authorization_id` decides between sessions that settle one authorization:
over all sessions of a run, each authorization is settled once, with one entry set.  A batch publishes the
settlements of all its authorizations or nothing, and one that publishes nothing could as well not have arrived
(`settled_once`).
-/

namespace GenPay

open ReadCommitted

/-- The purchases an action settles. -/
def Action.purchases : Action → List Purchase
  | .purchase _ p => [p]
  | .batch _ ps => ps
  | _ => []

namespace Action

theorem settlements_eq (act : Action) : act.settlements = act.purchases.map (·.settlement) := by
  cases act <;> rfl

theorem transactions_eq {act : Action} (h : ∀ s xs ys, act ≠ .refund s xs ys) :
    act.transactions = act.purchases.flatMap (·.transactions) := by
  cases act with
  | purchase key p => simp [transactions, purchases]
  | refund s xs ys => exact absurd rfl (h s xs ys)
  | _ => rfl

theorem Grounded.purchase {env : Env} {ds : List Db} {act : Action} (h : act.Grounded env ds) {p : Purchase}
    (hp : p ∈ act.purchases) : p.Grounded env ds := by
  cases act with
  | purchase key q =>
    rw [List.mem_singleton.1 hp]
    exact h
  | batch e ps => exact (h p hp).1
  | _ => cases hp

theorem mem_insertSettlement {act : Action} {x : Settlement} :
    .insertSettlement x ∈ act.writes ↔ ∃ p ∈ act.purchases, p.settlement = x := by
  rw [← List.mem_map, ← settlements_eq]
  constructor
  · intro h
    rw [← filterMap_settlement]
    exact List.mem_filterMap.2 ⟨_, h, rfl⟩
  · exact Commits.mem_settlements

end Action

/-- Writes that insert no unique value twice insert settlements of different ids. -/
theorem settlements_nodup {fk : Bool} {ws : List Write} (h : ((uniqueKeys fk).all ws).Nodup) :
    ((ws.filterMap Write.settlement?).map (·.id)).Nodup := by
  have hpair := (List.nodup_flatMap.1 h).2
  unfold List.Nodup
  rw [List.pairwise_map, List.pairwise_filterMap]
  refine hpair.imp fun {w w'} hdisj x hx y hy he => ?_
  have key : ∀ (v : Write) z, v.settlement? = some z → (Column.settlementsId, z.id) ∈ v.keys := by
    intro v z hz
    cases v with
    | insertSettlement r => cases hz; simp [Write.keys]
    | _ => cases hz
  exact hdisj (key w x hx) (he ▸ key w' y hy)

/-- The rows of one of several purchases with settlements of their own. -/
theorem rows_of_purchase {ps : List Purchase} (hids : (ps.map (·.settlement.id)).Nodup)
    (hposted : ∀ p ∈ ps, Posted p.settlement.id p.entries p.transactions) {p : Purchase} (hp : p ∈ ps) :
    (ps.flatMap (·.transactions)).filter (·.settlementId == p.settlement.id) = p.transactions := by
  have own : ∀ q ∈ ps, q.settlement.id = p.settlement.id →
      q.transactions.filter (·.settlementId == p.settlement.id) = q.transactions := by
    intro q hq he
    exact List.filter_eq_self.2 fun t ht => by simpa [he] using (hposted q hq).settlement t ht
  have other : ∀ q ∈ ps, q.settlement.id ≠ p.settlement.id →
      q.transactions.filter (·.settlementId == p.settlement.id) = [] := by
    intro q hq hne
    exact List.filter_eq_nil_iff.2 fun t ht => by simpa [(hposted q hq).settlement t ht] using hne
  induction ps with
  | nil => cases hp
  | cons q ps ih =>
    rw [List.map_cons, List.nodup_cons] at hids
    rw [List.flatMap_cons, List.filter_append]
    rcases List.mem_cons.1 hp with rfl | hp'
    · have hrest : (ps.flatMap (·.transactions)).filter (·.settlementId == p.settlement.id) = [] := by
        rw [List.filter_flatMap]
        refine List.flatMap_eq_nil_iff.2 fun r hr => other r (List.mem_cons_of_mem _ hr) fun he => hids.1 ?_
        exact List.mem_map.2 ⟨r, hr, he⟩
      rw [own p (List.mem_cons_self ..) rfl, hrest, List.append_nil]
    · have hne : q.settlement.id ≠ p.settlement.id := fun he => hids.1 (List.mem_map.2 ⟨p, hp', he.symm⟩)
      rw [other q (List.mem_cons_self ..) hne, List.nil_append]
      exact ih hids.2 (fun r hr => hposted r (List.mem_cons_of_mem _ hr)) hp'
        (fun r hr => own r (List.mem_cons_of_mem _ hr)) fun r hr => other r (List.mem_cons_of_mem _ hr)

/-! ### Batches -/

/-- A delivery of a batch of these authorizations. -/
def Job.settles (env : Env) (references : List String) : Job → Prop
  | .request r => r.route = .processorEvents ∧ ∃ envelope data, env.parseEnvelope r.rawBody = .ok envelope ∧
      envelope.eventType = .settlementCompleted ∧ env.validateSettlement envelope.data = .ok data ∧
      data.authorizationIds = references
  | _ => False

/-- The session publishes the batch as a whole, or nothing. -/
def AllOrNothing (references : List String) (t : AppSession) : Prop :=
  t.published = [] ∨ ∃ event ps, t.published = Action.writes (.batch event ps) ∧
    ps.map (·.authorization.externalReference) = references

structure SettledOnce (env : Env) (d₀ : Db) (s : AppSystem) : Prop where
  unique : (s.db.settlements.map (·.authorizationId)).Nodup
  /-- Over all sessions, an authorization is settled once. -/
  once : ∀ (i j : Nat) t u x y, s.sessions[i]? = some t → s.sessions[j]? = some u →
    .insertSettlement x ∈ t.published → .insertSettlement y ∈ u.published →
    x.authorizationId = y.authorizationId → i = j ∧ x = y
  /-- Only refunds post rows that are not in the entry set of a settlement of the same session. -/
  posted : ∀ t ∈ s.sessions, ∀ r, .insertTransaction r ∈ t.published → (∃ id, t.job.refunds id) ∨
    ∃ p : Purchase, .insertSettlement p.settlement ∈ t.published ∧ r ∈ p.transactions ∧
      p.settlement.authorizationId = p.authorization.id ∧ Posted p.settlement.id p.entries p.transactions ∧
      (t.published.filterMap Write.transaction?).filter (·.settlementId == p.settlement.id) = p.transactions
  batch : ∀ t ∈ s.sessions, ∀ references, t.job.settles env references → AllOrNothing references t
  /-- A batch that loses an authorization to another session leaves no trace. -/
  loser : ∀ (i j : Nat) t u references x, i ≠ j → s.sessions[i]? = some t → s.sessions[j]? = some u →
    t.job.settles env references → .insertSettlement x ∈ u.published →
    (∃ a ∈ s.db.authorizations, a.id = x.authorizationId ∧ a.externalReference ∈ references) →
    t.published = [] ∧ Erasable (genPay env) (fun _ _ => True) d₀ i s
  /-- A reversed settlement stays the settlement of its authorization. -/
  reversed : ∀ s', Run (genPay env) (fun _ _ => True) s s' → ∀ x ∈ s.db.settlements, x.status = .reversed →
    ∀ y ∈ s'.db.settlements, y.authorizationId = x.authorizationId → y = x

section Runs

variable {env : Env} {d₀ : Db} {s : AppSystem}

/-- A batch that publishes anything publishes the purchases of all its authorizations. -/
theorem batch_published (h₀ : Seeded env d₀) (h : Reachable (genPay env) d₀ s) {t : AppSession}
    (ht : t ∈ s.sessions) {references : List String} (hjob : t.job.settles env references) {w : Write}
    (hw : w ∈ t.published) : ∃ event ps, t.published = Action.writes (.batch event ps) ∧
      ps.map (·.authorization.externalReference) = references ∧
      (Action.batch event ps).Grounded env t.txn.seen := by
  obtain ⟨a, act, -, hpub, hgr, hans⟩ := published_action h₀.sound h ht hw
  cases hj : t.job with
  | seed => rw [hj] at hjob; exact hjob.elim
  | reconcileScript => rw [hj] at hjob; exact hjob.elim
  | request r =>
    rw [hj] at hans hjob
    obtain ⟨hr, envelope, data, hparse, htype, hval, rfl⟩ := hjob
    have hact := (hans.event hr hparse (List.ne_nil_of_mem (hpub ▸ hw))).1
    simp only [AnswersEvent, htype] at hact
    obtain ⟨data', ps, hval', hps, rfl⟩ := hact
    rw [hval] at hval'
    cases hval'
    exact ⟨_, ps, hpub, hps, hgr⟩

theorem allOrNothing (h₀ : Seeded env d₀) (h : Reachable (genPay env) d₀ s) {t : AppSession} (ht : t ∈ s.sessions)
    {references : List String} (hjob : t.job.settles env references) : AllOrNothing references t := by
  cases hpub : t.published with
  | nil => exact Or.inl hpub
  | cons w ws =>
    obtain ⟨event, ps, hps, href, -⟩ := batch_published h₀ h ht hjob (w := w) (by simp [hpub])
    exact Or.inr ⟨event, ps, hps, href⟩

theorem settled_at_most_once (h₀ : Seeded env d₀) (h : Reachable (genPay env) d₀ s) {i j : Nat} {t u : AppSession}
    (ht : s.sessions[i]? = some t) (hu : s.sessions[j]? = some u) {x y : Settlement}
    (hx : .insertSettlement x ∈ t.published) (hy : .insertSettlement y ∈ u.published)
    (he : x.authorizationId = y.authorizationId) : i = j ∧ x = y := by
  have hkx : (Column.settlementsAuthorization, x.authorizationId) ∈ (Write.insertSettlement x).keys := by
    simp [Write.keys]
  have hky : (Column.settlementsAuthorization, x.authorizationId) ∈ (Write.insertSettlement y).keys := by
    simp [Write.keys, he]
  have hij : i = j := Keys.published_disjoint (K := uniqueKeys env.foreignKeys) (Keys.inv_run h) ht hu
    (List.mem_flatMap.2 ⟨_, hx, hkx⟩) (List.mem_flatMap.2 ⟨_, hy, hky⟩)
  subst hij
  rw [ht] at hu
  cases hu
  have hw := Keys.write_unique (published_nodup h₀.sound h (List.mem_of_getElem? ht)) hx hy hkx hky
  exact ⟨rfl, Write.insertSettlement.inj hw⟩

theorem posted_by_purchase (h₀ : Seeded env d₀) (h : Reachable (genPay env) d₀ s) {t : AppSession}
    (ht : t ∈ s.sessions) {r : Transaction} (hr : .insertTransaction r ∈ t.published) :
    (∃ id, t.job.refunds id) ∨ ∃ p : Purchase, .insertSettlement p.settlement ∈ t.published ∧ r ∈ p.transactions ∧
      p.settlement.authorizationId = p.authorization.id ∧ Posted p.settlement.id p.entries p.transactions ∧
      (t.published.filterMap Write.transaction?).filter (·.settlementId == p.settlement.id) = p.transactions := by
  obtain ⟨a, act, -, hpub, hgr, hans⟩ := published_action h₀.sound h ht hr
  by_cases hact : ∃ x xs ys, act = .refund x xs ys
  · obtain ⟨x, xs, ys, rfl⟩ := hact
    exact Or.inl ⟨_, hans.refunds⟩
  · have hrow : r ∈ act.transactions := by
      rw [← Action.filterMap_transaction, ← hpub]
      exact List.mem_filterMap.2 ⟨_, hr, rfl⟩
    rw [Action.transactions_eq (by simpa using hact)] at hrow
    obtain ⟨p, hp, hrp⟩ := List.mem_flatMap.1 hrow
    have hids : (act.purchases.map (·.settlement.id)).Nodup := by
      have hn := settlements_nodup (published_nodup h₀.sound h ht)
      rw [hpub, Action.filterMap_settlement, Action.settlements_eq, List.map_map] at hn
      exact hn
    refine Or.inr ⟨p, ?_, hrp, (hgr.purchase hp).settlement.1, (hgr.purchase hp).posted, ?_⟩
    · rw [hpub]
      exact Action.mem_insertSettlement.2 ⟨p, hp, rfl⟩
    · rw [hpub, Action.filterMap_transaction, Action.transactions_eq (by simpa using hact)]
      exact rows_of_purchase hids (fun q hq => (hgr.purchase hq).posted) hp

/-- Under any interleaving each authorization is settled at most once, and each batch as a whole or not at all. -/
theorem settled_once (h₀ : Seeded env d₀) (h : Reachable (genPay env) d₀ s) : SettledOnce env d₀ s where
  unique := (run_sound h₀.sound h).unique .settlementsAuthorization
  once _ _ _ _ _ _ ht hu hx hy he := settled_at_most_once h₀ h ht hu hx hy he
  posted _ ht _ hr := posted_by_purchase h₀ h ht hr
  batch _ ht _ hjob := allOrNothing h₀ h ht hjob
  loser i j t u references x hij ht hu hjob hx hmem := by
    obtain ⟨a, ha, haid, href⟩ := hmem
    have hmem := List.mem_of_getElem? ht
    have hnil : t.published = [] := by
      by_contra hne
      obtain ⟨w, hw⟩ := List.exists_mem_of_ne_nil _ hne
      obtain ⟨event, ps, hpub, rfl, hgr⟩ := batch_published h₀ h hmem hjob hw
      obtain ⟨p, hp, hpref⟩ := List.mem_map.1 href
      obtain ⟨hpgr, d', hd', hpa⟩ := hgr p hp
      -- the authorization the batch has read is the one that the other session has settled
      have hinv := Discipline.inv_run (D := ledger env fun _ _ => True) h₀.sound h
      obtain ⟨b, hb, hstep⟩ := (hinv.seen t hmem d' hd').2.authorizations.mem hpa
      have hba : b = a := List.inj_on_of_nodup_map (hinv.db.unique .authorizationsExternalReference) hb ha
        ((of_core Authorization.externalReference hstep).trans hpref)
      have hbp : b.id = p.authorization.id := of_core Authorization.id hstep
      have hpx : p.settlement.authorizationId = x.authorizationId := by
        rw [hpgr.settlement.1, ← hbp, hba, haid]
      have hpw : .insertSettlement p.settlement ∈ t.published := by
        rw [hpub]
        exact Action.mem_insertSettlement.2 ⟨p, hp, rfl⟩
      exact hij (settled_at_most_once h₀ h ht hu hpw hx hpx).1
    exact ⟨hnil, Run.erase h ht hnil⟩
  reversed s' hrun x hx hst y hy he := by
    obtain ⟨hext, h'⟩ := Discipline.evolves_run (D := ledger env fun _ _ => True) h₀.sound h hrun
    obtain ⟨z, hz, rfl | ⟨hset, -⟩⟩ := hext.settlements.mem hx
    · exact List.inj_on_of_nodup_map ((run_sound h₀.sound h').unique .settlementsAuthorization) hy hz he
    · rw [hst] at hset
      cases hset

end Runs

/-- Two batches of one authorization: the second waits for the first to end, then its insert fails. -/
def Sample.overlappingBatches : AppSystem :=
  after (fun _ _ => true) (authorized ++ [.start 2 (.delivers .settled), .start 3 (.delivers .settledAgain),
    .steps 2 14, .steps 3 9, .steps 2 13, .steps 3 2])

theorem settled_once_overlappingBatches : Sample.overlappingBatches.db.settlements.length = 1 ∧
    Sample.overlappingBatches.db.events.map (·.eventId) = ["evt_1", "evt_2", "evt_4"] ∧
    SettledOnce Sample.env Sample.seeded Sample.overlappingBatches := by
  refine ⟨?_, ?_, settled_once Sample.seeded_env (Sample.reachable_after _)⟩
  · rw [Sample.overlappingBatches, Sample.after_eq]
    decide +kernel
  · rw [Sample.overlappingBatches, Sample.after_eq]
    decide +kernel

end GenPay
