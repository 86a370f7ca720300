import GenPay.Batches
import GenPay.Settlements

/-!
# Totals

A batch settles the amounts of the authorizations it lists.  The total that it announces is read with the payload, and
nothing is done with it: batches of the same authorizations do the same, whatever they announce (`batch_total`).
-/

namespace GenPay

open ReadCommitted

variable {env : Env} {d₀ : Db} {s : AppSystem}

/-- What the authorizations with this reference amount to. -/
def Db.authorizedCents (d : Db) (reference : String) : Int :=
  ((d.authorizations.filter (·.externalReference == reference)).map (·.amountCents)).sum

theorem authorizedCents_eq {d : Db} (hd : d.Sound) {a : Authorization} (ha : a ∈ d.authorizations) :
    d.authorizedCents a.externalReference = a.amountCents := by
  have hone : d.authorizations.filter (·.externalReference == a.externalReference) = [a] :=
    filter_eq_singleton (hd.unique .authorizationsExternalReference) ha (by simp) fun b _ hb => by simpa using hb
  rw [Db.authorizedCents, hone]
  simp

theorem Delivery.Settles.job {d : Db} {x : Delivery} {payload : SettlementCompletedData} (hx : x.Settles env d payload) :
    (Job.request x.request).settles env payload.authorizationIds :=
  ⟨hx.delivers.route, x.event, payload, hx.delivers.parsed, hx.type, hx.payload, rfl⟩

/-- The settlements that a batch has made amount to what its authorizations do. -/
theorem batch_amounts (h₀ : Seeded env d₀) (h : Reachable (genPay env) d₀ s) {t : AppSession} (ht : t ∈ s.sessions)
    {references : List String} (hjob : t.job.settles env references) (hpub : t.published ≠ []) :
    (∀ reference ∈ references, reference ∈ s.db.column .authorizationsExternalReference) ∧
      (t.published.filterMap Write.settlement?).map (·.settledAmountCents) = references.map s.db.authorizedCents := by
  obtain ⟨w, hw⟩ := List.exists_mem_of_ne_nil _ hpub
  obtain ⟨event, ps, hbatch, rfl, hgr⟩ := batch_published h₀ h ht hjob hw
  have hinv := Discipline.inv_run (D := ledger env fun _ _ => True) h₀.sound h
  -- the authorizations as the batch has read them keep their references and amounts
  have hstored : ∀ p ∈ ps, ∃ a ∈ s.db.authorizations, a.externalReference = p.authorization.externalReference ∧
      a.amountCents = p.authorization.amountCents := by
    intro p hp
    obtain ⟨-, d', hd', hpa⟩ := hgr p hp
    obtain ⟨a, ha, hstep⟩ := (hinv.seen t ht d' hd').2.authorizations.mem hpa
    exact ⟨a, ha, of_core Authorization.externalReference hstep, of_core Authorization.amountCents hstep⟩
  constructor
  · intro reference hmem
    obtain ⟨p, hp, rfl⟩ := List.mem_map.1 hmem
    obtain ⟨a, ha, href, -⟩ := hstored p hp
    exact href ▸ List.mem_map_of_mem (f := Authorization.externalReference) ha
  · rw [hbatch, Action.filterMap_settlement, Action.settlements_eq, List.map_map, List.map_map]
    refine List.map_congr_left fun p hp => ?_
    obtain ⟨a, ha, href, hamount⟩ := hstored p hp
    show p.settlement.settledAmountCents = s.db.authorizedCents p.authorization.externalReference
    rw [← href, authorizedCents_eq hinv.db ha, hamount, (hgr p hp).1.settlement.2.1]

/-- Two deliveries of batches of the same authorizations end alike. -/
theorem settles_alike {d : Db} (hd : d.Sound) {x y : Delivery} {p q : SettlementCompletedData} (hx : x.Settles env d p)
    (hy : y.Settles env d q) (hids : p.authorizationIds = q.authorizationIds) :
    (∃ xs ys, (x.serve env d).1 = .ok (.processed x.event.eventId (.settlements p.settlementBatchId xs)) ∧
        (y.serve env d).1 = .ok (.processed y.event.eventId (.settlements q.settlementBatchId ys)) ∧
        d.AddsAlike (x.serve env d).2 (y.serve env d).2) ∨
      ∃ e e', x.serve env d = (.error e, d) ∧ y.serve env d = (.error e', d) := by
  rcases hx.outcome hd with ⟨hyes, bs, hbs, hserve, hsells⟩ | ⟨hno, e, hserve⟩
  · rcases hy.outcome hd with ⟨-, cs, hcs, hserve', hsells'⟩ | ⟨hno', -⟩
    · refine Or.inl ⟨_, _, hserve, hserve', ?_⟩
      exact addsAlike_of_sells hd (x.grows env hd).1 (y.grows env hd).1 (by rw [hids]) hbs hsells hcs hsells'
    · exact absurd (hids ▸ hyes) hno'
  · rcases hy.outcome hd with ⟨hyes', -⟩ | ⟨-, e', hserve'⟩
    · exact absurd (hids ▸ hyes') hno
    · exact Or.inr ⟨e, e', hserve, hserve'⟩

/-- Under any interleaving a batch moves what its authorizations amount to, whatever total it announces. -/
theorem batch_total (h₀ : Seeded env d₀) (h : Reachable (genPay env) d₀ s) :
    (∀ t ∈ s.sessions, ∀ references, t.job.settles env references → t.published ≠ [] →
      (∀ reference ∈ references, reference ∈ s.db.column .authorizationsExternalReference) ∧
      ((t.published.filterMap Write.settlement?).map (·.settledAmountCents)).sum =
        (references.map s.db.authorizedCents).sum) ∧
    ∀ (x y : Delivery) (p q : SettlementCompletedData), x.Settles env s.db p → y.Settles env s.db q →
      p.authorizationIds = q.authorizationIds →
      (∃ xs ys, (x.serve env s.db).1 = .ok (.processed x.event.eventId (.settlements p.settlementBatchId xs)) ∧
          (y.serve env s.db).1 = .ok (.processed y.event.eventId (.settlements q.settlementBatchId ys)) ∧
          s.db.AddsAlike (x.serve env s.db).2 (y.serve env s.db).2) ∨
        ∃ e e', x.serve env s.db = (.error e, s.db) ∧ y.serve env s.db = (.error e', s.db) := by
  constructor
  · intro t ht references hjob hpub
    obtain ⟨hall, hamounts⟩ := batch_amounts h₀ h ht hjob hpub
    exact ⟨hall, congrArg List.sum hamounts⟩
  · intro x y p q hx hy hids
    exact settles_alike (run_sound h₀.sound h) hx hy hids

/-! ### A batch that announces another total -/

namespace Sample

/-- A batch of one authorization over 599 cents that announces 600, and one that announces 599. -/
def overstated : Signed := .settled "evt_3" "batch_1" ["auth_1"] 600
  "e5dd931cf180c22276dda7900b31faa4a14f443a0406c5ee3a46e48ed42b2bef"

def exact : Signed := .settled "evt_3" "batch_1" ["auth_1"] 599
  "39f9f1d10c78d9096d47fa774bc8ecbb98690bf591672856bc5bb480e7ce97b0"

def announced : List Signed :=
  [.created "evt_1" "auth_1" "USD" "7f74a1245a59facea3823868fe8b59c7fbf479d1e2f27b6dd6534ec235ce8c6e",
    .approved "evt_2" "auth_1" "694e51aee0bbcf45cc098462e760451d1fc311ed2780672811ad64b457b791be", overstated, exact]

theorem announced_sendable : Sendable announced := ⟨by decide +kernel, by decide +kernel, by decide +kernel⟩

/-- The authorization has been approved. -/
def announcedApproved : Db := (genPay (envOf announced)).serveAll seeded (arrivals announced 2)

theorem announcedApproved_eq : announcedApproved =
    Service.serveAll { genPay (envOf announced) with handle := handleSigned announced } seeded (arrivals announced 2) :=
  serveAll_arrivals announced_sendable (by decide) seeded

theorem overstated_settles :
    (overstated.delivery 2).Settles (envOf announced) announcedApproved ⟨"batch_1", ["auth_1"], 600⟩ := by
  rw [announcedApproved_eq]
  exact announced_sendable.settles (by decide) rfl rfl rfl (by decide +kernel)

theorem exact_settles :
    (exact.delivery 3).Settles (envOf announced) announcedApproved ⟨"batch_1", ["auth_1"], 599⟩ := by
  rw [announcedApproved_eq]
  exact announced_sendable.settles (by decide) rfl rfl rfl (by decide +kernel)

theorem serve_overstated : (overstated.delivery 2).serve (envOf announced) announcedApproved =
    Service.serve { genPay (envOf announced) with handle := handleSigned announced } (.request (overstated.arrives 2))
      (oracle 3) (Service.serveAll { genPay (envOf announced) with handle := handleSigned announced } seeded
        (arrivals announced 2)) := by
  rw [announcedApproved_eq]
  exact serve_signed announced_sendable (by decide) rfl _ _

end Sample

open Sample in
/-- The total is 600, the authorization and the settlement are over 599. -/
theorem total_overstated : ∃ s : AppSystem, Reachable (genPay (envOf announced)) seeded s ∧
    (overstated.delivery 2).Settles (envOf announced) s.db ⟨"batch_1", ["auth_1"], 600⟩ ∧
    (["auth_1"].map s.db.authorizedCents).sum = 599 ∧ s.db.settlements = [] ∧
    "evt_3" ∈ ((overstated.delivery 2).serve (envOf announced) s.db).2.column .eventsEventId ∧
    (((overstated.delivery 2).serve (envOf announced) s.db).2.settlements.map (·.settledAmountCents)).sum = 599 := by
  obtain ⟨s, hs, hdb, -⟩ := reachable_serveAll (envOf announced) seeded (arrivals announced 2)
  have hdb : s.db = announcedApproved := hdb
  refine ⟨s, hs, ?_⟩
  rw [hdb]
  refine ⟨overstated_settles, ?_, ?_, ?_, ?_⟩
  · rw [announcedApproved_eq]
    decide +kernel
  · rw [announcedApproved_eq]
    decide +kernel
  · rw [serve_overstated]
    decide +kernel
  · rw [serve_overstated]
    decide +kernel

open Sample in
theorem batch_total_announced : ∃ (s s' : AppSystem) (t : AppSession),
    Reachable (genPay (envOf announced)) seeded s ∧ Reachable (genPay (envOf announced)) seeded s' ∧
    t ∈ s'.sessions ∧ t.job.settles (envOf announced) ["auth_1"] ∧
    ((t.published.filterMap Write.settlement?).map (·.settledAmountCents)).sum = (["auth_1"].map s'.db.authorizedCents).sum ∧
    s.db.AddsAlike ((overstated.delivery 2).serve (envOf announced) s.db).2
      ((exact.delivery 3).serve (envOf announced) s.db).2 := by
  obtain ⟨s, hs, hdb, hidle⟩ := reachable_serveAll (envOf announced) seeded (arrivals announced 2)
  have hdb : s.db = announcedApproved := hdb
  have hoverstated := hdb.symm ▸ overstated_settles
  have hexact := hdb.symm ▸ exact_settles
  -- the session that settles the batch
  obtain ⟨t, hjob, -, -, hrun, hpublished, -⟩ := serve_run (S := genPay (envOf announced)) (G := fun _ _ => True)
    (fun _ _ => True.intro) hidle (.request (overstated.delivery 2).request) (oracle 3) (d := s.db)
  have hs' := hs.trans hrun
  have hsettles : t.job.settles (envOf announced) ["auth_1"] := hjob ▸ hoverstated.job
  have hevents : "evt_3" ∈ ((overstated.delivery 2).serve (envOf announced) s.db).2.column .eventsEventId := by
    rw [hdb, serve_overstated]
    decide +kernel
  have hpub : t.published ≠ [] := by
    intro hnil
    rw [hnil] at hpublished
    have hno : ((overstated.delivery 2).serve (envOf announced) s.db).2 = s.db := hpublished
    exact hoverstated.new (hno ▸ hevents)
  have htotal := (batch_total (seeded_envOf announced) hs').1 t (by simp) _ hsettles hpub
  rcases (batch_total (seeded_envOf announced) hs).2 _ _ _ _ hoverstated hexact rfl with
    ⟨xs, ys, -, -, halike⟩ | ⟨e, -, hfails, -⟩
  · exact ⟨_, _, t, hs, hs', by simp, hsettles, htotal.2, halike⟩
  · rw [hfails] at hevents
    exact absurd hevents hoverstated.new

end GenPay
