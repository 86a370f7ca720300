import GenPay.Decisions

/-!
# Purchases under an idempotency key

A purchase claims its key by inserting it before anything else, and stores its response in the same transaction.
Whatever requests run at the same time, the unique key lets one of them execute; all others that are answered
carry its result, and a request that fails leaves the key free (`purchased_once`).
-/

namespace GenPay

open ReadCommitted

/-- A purchase request under this key. -/
def Job.buys (key : String) : Job → Prop
  | .request r => ∃ data, r.route = .purchase data (some key)
  | _ => False

/-- A request under this key that is answered alone claims the key and purchases. -/
def Executes (env : Env) (key : String) (d : Db) : Prop :=
  ∀ data client o t, t.writes = [] → (purchase env data key client).run (engine env.foreignKeys) o d t =
    (purchaseClaimed env data key client).run (engine env.foreignKeys) o d
      ((t.saw d).wrote d (.insertIdempotencyKey ⟨key, none⟩))

/-- At most one request under the key executes, all answers are its result, and all others leave no trace. -/
structure PurchasedOnce (env : Env) (d₀ : Db) (key : String) (s : AppSystem) : Prop where
  once : ∀ (i j : Nat) t u, s.sessions[i]? = some t → s.sessions[j]? = some u → t.job.buys key → u.job.buys key →
    t.published ≠ [] → u.published ≠ [] → i = j
  whole : ∀ t ∈ s.sessions, t.job.buys key →
    t.published = [] ∨ ∃ p : Purchase, t.published = Action.writes (.purchase (some key) p)
  answered : ∀ t ∈ s.sessions, ∀ a, t.job.buys key → t.phase = .committed a →
    ∃ u ∈ s.sessions, ∃ p : Purchase, u.job.buys key ∧ u.phase = .committed (.purchase p.result) ∧
      u.published = Action.writes (.purchase (some key) p) ∧ a = .purchase p.result
  stored : ∀ k ∈ s.db.idempotencyKeys, ∃ result, k.responseBody = some result ∧
    ∃ x ∈ s.db.settlements, x.id = result.settlementId
  distinct : s.db.idempotencyKeys.Pairwise fun k k' =>
    ∀ r r', k.responseBody = some r → k'.responseBody = some r' → r.settlementId ≠ r'.settlementId
  failed : ∀ (i : Nat) t, s.sessions[i]? = some t → t.job.buys key → (∀ a, t.phase ≠ .committed a) →
    Erasable (genPay env) (fun _ _ => True) d₀ i s
  /-- As long as all requests under the key have failed, another one can still execute. -/
  retry : (∀ t ∈ s.sessions, t.job.buys key → t.published = []) → Executes env key s.db

/-! ### The key of a request -/

/-- A key that is not committed is claimed and used. -/
theorem executes_of_free {env : Env} {key : String} {d : Db} (hk : key ∉ d.column .idempotencyKeysKey) :
    Executes env key d := by
  intro data client o t ht
  have hview : (engine env.foreignKeys).view d t.writes = d := by rw [ht, Engine.view_nil]
  have hrow : ((o t.seen.length).arrange (d.idempotencyKeys.filter (·.key == key))).head? = none := by
    rw [List.head?_eq_none_iff, List.eq_nil_iff_forall_not_mem]
    intro k hmem
    obtain ⟨hmem, he⟩ := List.mem_filter.1 (Choice.mem_arrange.1 hmem)
    exact hk (List.mem_map.2 ⟨k, hmem, by simpa using he⟩)
  have hclaim : (engine env.foreignKeys).violation d (.insertIdempotencyKey ⟨key, none⟩) = none := by
    show Db.violation _ _ _ = none
    simp [Db.violation, Write.keys, Write.references, Write.checked, hk]
  unfold purchase IdempotencyKeyRepository.get scalar Prog.query IdempotencyKeyRepository.tryClaim
  simp only [bind, Prog.bind, Prog.run, hview, hrow, pure, Txn.saw_writes, hclaim]
  rfl

namespace Answers

variable {env : Env} {job : Job} {a : Response} {act : Action} {ds : List Db} {key : String}

theorem purchase (h : Answers env a act ds job) (hjob : job.buys key) :
    ∃ result, a = .purchase result ∧ AnswersPurchase key result act ds := by
  cases job with
  | seed => exact hjob.elim
  | reconcileScript => exact hjob.elim
  | request r =>
    obtain ⟨data, hr⟩ := hjob
    simp only [Answers, AnswersRequest, hr] at h
    obtain ⟨-, k, result, hk, ha, hans⟩ := h
    cases hk
    exact ⟨result, ha, hans⟩

theorem buys {p : Purchase} (h : Answers env a (.purchase (some key) p) ds job) :
    job.buys key ∧ a = .purchase p.result := by
  cases h.acts with
  | entity _ hact => cases hact
  | purchase hr _ ha => exact ⟨⟨_, hr⟩, ha⟩
  | event _ _ _ _ hact => cases hact.event

end Answers

section Runs

variable {env : Env} {d₀ : Db} {s : AppSystem} {key : String}

/-- A session under the key that publishes anything publishes its claim with a whole purchase. -/
theorem purchase_published (h₀ : Seeded env d₀) (h : Reachable (genPay env) d₀ s) {t : AppSession}
    (ht : t ∈ s.sessions) (hjob : t.job.buys key) (hne : t.published ≠ []) :
    ∃ p : Purchase, t.phase = .committed (.purchase p.result) ∧
      t.published = Action.writes (.purchase (some key) p) := by
  obtain ⟨w, hw⟩ := List.exists_mem_of_ne_nil _ hne
  obtain ⟨a, act, ha, hpub, -, hans⟩ := published_action h₀.sound h ht hw
  obtain ⟨result, rfl, ⟨rfl, -⟩ | ⟨p, rfl, rfl⟩⟩ := hans.purchase hjob
  · exact absurd hpub hne
  · exact ⟨p, ha, hpub⟩

theorem key_published {t : AppSession} {p : Purchase} (h : t.published = Action.writes (.purchase (some key) p)) :
    (Column.idempotencyKeysKey, key) ∈ (uniqueKeys env.foreignKeys).all t.published := by
  refine List.mem_flatMap.2 ⟨.insertIdempotencyKey ⟨key, none⟩, ?_, ?_⟩
  · rw [h]
    simp [Action.writes]
  · simp [uniqueKeys, Write.keys]

/-- A committed session keeps the response it has stored. -/
theorem stored_of_committed (h₀ : Seeded env d₀) (h : Reachable (genPay env) d₀ s) {t : AppSession}
    (ht : t ∈ s.sessions) {a : Response} (ha : t.phase = .committed a) :
    ∀ k ∈ (idempotencyKeyTable env.foreignKeys).insertedAll t.txn.writes, k ∈ s.db.idempotencyKeys := by
  refine Discipline.facts (D := ledger env fun _ _ => True) (fun t d =>
    ∀ k ∈ (idempotencyKeyTable env.foreignKeys).insertedAll t.txn.writes, k ∈ d.idempotencyKeys) ?_ ?_ h₀.sound h
    t ht a ha
  · intro t a d hat k hk
    obtain ⟨act, hw, hc, -⟩ := commits_of_atCommit hat
    rw [hw, ← Action.stored_eq_insertedAll] at hk
    rw [hw]
    have hafter := hc.idempotencyKeys_after
    simp only [Action.Commits.after] at hafter
    show k ∈ ((engine env.foreignKeys).view d act.writes).idempotencyKeys
    rw [hafter]
    exact List.mem_append_right _ hk
  · intro t a d d' _ hF _ hext k hk
    obtain ⟨k', hk', rfl⟩ := hext.idempotencyKeys.mem (hF k hk)
    exact hk'

/-- Every stored response is the result of a session that has executed. -/
theorem executed_of_stored (h₀ : Seeded env d₀) (h : Reachable (genPay env) d₀ s) {k : IdempotencyKey}
    (hk : k ∈ s.db.idempotencyKeys) : ∃ u ∈ s.sessions, ∃ p : Purchase, u.job.buys k.key ∧
      u.phase = .committed (.purchase p.result) ∧ u.published = Action.writes (.purchase (some k.key) p) ∧
      k = ⟨k.key, some p.result⟩ := by
  have hmem : (uniqueKeys env.foreignKeys).mem s.db (.idempotencyKeysKey, k.key) :=
    List.mem_map_of_mem (f := IdempotencyKey.key) hk
  rcases Keys.source h hmem with hold | ⟨i, u, hu, hkey⟩
  · have hnone : d₀.column .idempotencyKeysKey = [] := by
      show d₀.idempotencyKeys.map _ = []
      rw [h₀.no_ledger.2.2.2.1]
      rfl
    change k.key ∈ d₀.column .idempotencyKeysKey at hold
    rw [hnone] at hold
    cases hold
  · have hus := List.mem_of_getElem? hu
    obtain ⟨w, hw, hwk⟩ := List.mem_flatMap.1 hkey
    obtain ⟨a, act, ha, hpub, -, hans⟩ := published_action h₀.sound h hus hw
    have hclaim : ∃ r : IdempotencyKey, w = .insertIdempotencyKey r ∧ r.key = k.key := by
      cases w with
      | insertIdempotencyKey r => exact ⟨r, rfl, by simpa [uniqueKeys, Write.keys, eq_comm] using hwk⟩
      | insertAccount r => simp [uniqueKeys, Write.keys] at hwk
      | _ => simp [uniqueKeys, Write.keys] at hwk
    obtain ⟨r, rfl, hr⟩ := hclaim
    rw [hpub] at hw
    obtain ⟨p, rfl⟩ := Action.mem_insertIdempotencyKey hw
    rw [hr] at hpub hans
    obtain ⟨hbuys, rfl⟩ := hans.buys
    refine ⟨u, hus, p, hbuys, ha, hpub, ?_⟩
    -- the row that the session has stored is the one of this key
    have hrow : (⟨k.key, some p.result⟩ : IdempotencyKey) ∈ s.db.idempotencyKeys := by
      refine stored_of_committed h₀ h hus ha _ ?_
      rw [← published_of_committed ha, hpub, ← Action.stored_eq_insertedAll]
      exact List.mem_singleton.2 rfl
    exact List.inj_on_of_nodup_map ((run_sound h₀.sound h).unique .idempotencyKeysKey) hk hrow rfl

theorem purchase_answered (h₀ : Seeded env d₀) (h : Reachable (genPay env) d₀ s) {t : AppSession}
    (ht : t ∈ s.sessions) {a : Response} (hjob : t.job.buys key) (ha : t.phase = .committed a) :
    ∃ u ∈ s.sessions, ∃ p : Purchase, u.job.buys key ∧ u.phase = .committed (.purchase p.result) ∧
      u.published = Action.writes (.purchase (some key) p) ∧ a = .purchase p.result := by
  obtain ⟨act, hw, -, hans⟩ := committed_action h₀.sound h ht ha
  obtain ⟨result, rfl, ⟨rfl, d, hd, hrow⟩ | ⟨p, rfl, rfl⟩⟩ := hans.purchase hjob
  · have hext := ((Discipline.inv_run (D := ledger env fun _ _ => True) h₀.sound h).seen t ht d hd).2
    obtain ⟨k, hk, rfl⟩ := hext.idempotencyKeys.mem hrow
    obtain ⟨u, hu, p, hbuys, hphase, hpub, hkp⟩ := executed_of_stored h₀ h hk
    cases hkp
    exact ⟨u, hu, p, hbuys, hphase, hpub, rfl⟩
  · exact ⟨t, ht, p, hjob, ha, (published_of_committed ha).trans hw, rfl⟩

/-- Under any interleaving a key buys once. -/
theorem purchased_once (h₀ : Seeded env d₀) (h : Reachable (genPay env) d₀ s) : PurchasedOnce env d₀ key s where
  once i j t u ht hu htj huj htp hup := by
    obtain ⟨p, -, hp⟩ := purchase_published h₀ h (List.mem_of_getElem? ht) htj htp
    obtain ⟨q, -, hq⟩ := purchase_published h₀ h (List.mem_of_getElem? hu) huj hup
    exact Keys.published_disjoint (K := uniqueKeys env.foreignKeys) (Keys.inv_run h) ht hu (key_published hp)
      (key_published hq)
  whole t ht hjob := by
    by_cases hne : t.published = []
    · exact Or.inl hne
    · obtain ⟨p, -, hp⟩ := purchase_published h₀ h ht hjob hne
      exact Or.inr ⟨p, hp⟩
  answered _ ht _ hjob ha := purchase_answered h₀ h ht hjob ha
  stored k hk := by
    obtain ⟨result, hr, hid⟩ := (run_sound h₀.sound h).cached k hk
    obtain ⟨x, hx, hxid⟩ := List.mem_map.1 hid
    exact ⟨result, hr, x, hx, hxid⟩
  distinct := (run_sound h₀.sound h).cachedOnce
  failed i t ht _ hn := Run.erase h ht (published_of_not_committed hn)
  retry hfail := by
    refine executes_of_free fun hmem => ?_
    obtain ⟨k, hk, rfl⟩ := List.mem_map.1 hmem
    obtain ⟨u, hu, p, hbuys, -, hpub, -⟩ := executed_of_stored h₀ h hk
    have hnil := hfail u hu hbuys
    rw [hpub] at hnil
    cases hnil

end Runs

/-- Four requests under one key: the first is killed, the third claims the key while the second still holds it,
the fourth arrives when the second has committed. -/
def Sample.fourAttempts : AppSystem :=
  after (fun _ _ => true) [.start 0 (.buys "key"), .steps 0 20, .kill 0, .start 1 (.buys "key"), .steps 1 20,
    .start 2 (.buys "key"), .steps 2 2, .steps 1 15, .steps 2 3, .start 3 (.buys "key"), .steps 3 3]

theorem purchased_once_fourAttempts :
    (Sample.fourAttempts.sessions.map fun t => (t.published.length, (answer t).isSome)) =
      [(0, false), (12, true), (0, false), (0, true)] ∧
    PurchasedOnce Sample.env Sample.seeded "key" Sample.fourAttempts := by
  refine ⟨?_, purchased_once Sample.seeded_env (Sample.reachable_after _)⟩
  rw [Sample.fourAttempts, Sample.after_eq]
  decide +kernel

end GenPay
