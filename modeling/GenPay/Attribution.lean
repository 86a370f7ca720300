import GenPay.Purchases
import GenPay.Vouching

/-!
# Whose purchase a response is about

A response to a purchase request is about the request that has executed under its key: the record, the user and the
client are those of that request (`purchase_attributed`).  It need not be the request that is answered: the stored
response is selected by the key alone (`replay_of_another`).
-/

namespace GenPay

open ReadCommitted

/-- The result names an authorization of the record and the user that the request has asked for, by the client that
the request authenticates. -/
def Attributed (env : Env) (d : Db) (r : Request) (result : PurchaseResult) : Prop :=
  ∃ data key, r.route = .purchase (some data) key ∧ ∃ b ∈ d.authorizations, b.id = result.authorizationId ∧
    b.researchRecordId = data.researchRecordId ∧ b.userId = data.userId ∧
    ∃ c : ApiClient, c.Authenticated env r d ∧ b.createdByClientId = some c.id

variable {env : Env} {d₀ : Db} {s : AppSystem}

/-- The key of a request is that of one client. -/
theorem ApiClient.Authenticated.unique {d : Db} {r : Request} {c c' : ApiClient} (hd : d.Sound)
    (h : c.Authenticated env r d) (h' : c'.Authenticated env r d) : c = c' := by
  obtain ⟨hc, -, key, hkey, hhash⟩ := h
  obtain ⟨hc', -, key', hkey', hhash'⟩ := h'
  rw [hkey] at hkey'
  cases hkey'
  exact List.inj_on_of_nodup_map (hd.unique .clientsKeyHash) hc hc' (hhash.trans hhash'.symm)

/-- What a committed session has vouched for. -/
theorem committed_vouched (h₀ : Seeded env d₀) (h : Reachable (genPay env) d₀ s) {t : AppSession} {a : Response}
    (ht : t ∈ s.sessions) (ha : t.phase = .committed a) : Vouched env t.job t.txn :=
  (((Discipline.inv_run (D := vouched env fun _ _ => True) h₀.sound h).keeps t ht).committed ha).2

/-- Rows that a committed session has read or inserted are still there. -/
theorem committed_seen (h₀ : Seeded env d₀) (h : Reachable (genPay env) d₀ s) {t : AppSession} (ht : t ∈ s.sessions)
    {d : Db} (hd : d ∈ t.txn.seen) : d.Extends s.db :=
  ((Discipline.inv_run (D := ledger env fun _ _ => True) h₀.sound h).seen t ht d hd).2

theorem authorization_of_committed (h₀ : Seeded env d₀) (h : Reachable (genPay env) d₀ s) {t : AppSession}
    {a : Response} (ht : t ∈ s.sessions) (ha : t.phase = .committed a) {b : Authorization}
    (hb : .insertAuthorization b ∈ t.txn.writes) : ∃ b' ∈ s.db.authorizations, b'.core = b.core := by
  refine Discipline.facts (D := ledger env fun _ _ => True) (fun t d => ∀ b, .insertAuthorization b ∈ t.txn.writes →
    ∃ b' ∈ d.authorizations, b'.core = b.core) ?_ ?_ h₀.sound h t ht a ha b hb
  · intro t a d hat b hb
    obtain ⟨act, hw, -, -⟩ := commits_of_atCommit hat
    rw [hw] at hb
    refine ⟨b, ?_, rfl⟩
    have hmem : b ∈ (Action.Commits.after env d act).authorizations := by
      rw [Action.Commits.authorizations_after, ← Action.filterMap_authorization]
      exact List.mem_append_right _ (List.mem_filterMap.2 ⟨_, hb, rfl⟩)
    exact hw ▸ hmem
  · intro t a d d' _ hF _ hext b hb
    obtain ⟨b₁, hb₁, he⟩ := hF b hb
    obtain ⟨b₂, hb₂, hstep⟩ := hext.authorizations.mem hb₁
    exact ⟨b₂, hb₂, Eq.trans hstep he⟩

/-- The request that executes gets what it has asked for. -/
theorem attributed_of_executed (h₀ : Seeded env d₀) (h : Reachable (genPay env) d₀ s) {u : AppSession} {a : Response}
    {key : String} {p : Purchase} (hu : u ∈ s.sessions) (hbuys : u.job.buys key) (ha : u.phase = .committed a)
    (hp : u.published = Action.writes (.purchase (some key) p)) :
    ∃ r data, u.job = .request r ∧ r.route = .purchase data (some key) ∧ Attributed env s.db r p.result := by
  have hw : u.txn.writes = Action.writes (.purchase (some key) p) := (published_of_committed ha).symm.trans hp
  have hinsert : .insertAuthorization p.authorization ∈ u.txn.writes := by simp [hw, Action.writes]
  have hasked := (committed_vouched h₀ h hu ha).asked _ hinsert
  obtain ⟨b, hb, hcore⟩ := authorization_of_committed h₀ h hu ha hinsert
  have hseen : ∀ d ∈ u.txn.seen, d.Extends s.db := fun d hd => committed_seen h₀ h hu hd
  revert hbuys hasked
  generalize u.job = job
  intro hbuys hasked
  cases job with
  | seed => exact hbuys.elim
  | reconcileScript => exact hbuys.elim
  | request r =>
    obtain ⟨data, hr⟩ := hbuys
    simp only [AskedFor, hr] at hasked
    obtain ⟨data', rfl, hrecord, huser, d, hd, c, ⟨hc, hactive, hkey⟩, hclient⟩ := hasked
    refine ⟨r, _, rfl, hr, data', _, hr, b, hb, of_core Authorization.id hcore, ?_, ?_, c,
      ⟨(hseen d hd).clients.mem_of_eq hc, hactive, hkey⟩, ?_⟩
    · rw [of_core Authorization.researchRecordId hcore, hrecord]
    · rw [of_core Authorization.userId hcore, huser]
    · rw [of_core Authorization.createdByClientId hcore, hclient]

/-- Every answer to a purchase request is about a request under the same key that has executed, which is the request
itself unless it has written nothing.  The answer counts once the request has committed. -/
theorem purchase_attributed {env : Env} {d₀ : Db} {s : AppSystem} {i : Nat} {t : AppSession} {r : Request}
    {data : Option PurchaseRequest} {key : Option String} {a : Response} (h₀ : Seeded env d₀)
    (h : Reachable (genPay env) d₀ s) (ht : s.sessions[i]? = some t) (hjob : t.job = .request r)
    (hr : r.route = .purchase data key) (ha : t.phase = .committed a) :
    ∃ (j : Nat) (u : AppSession) (r' : Request) (data' : Option PurchaseRequest) (result : PurchaseResult),
      s.sessions[j]? = some u ∧ u.job = .request r' ∧ r'.route = .purchase data' key ∧
      u.phase = .committed (.purchase result) ∧ u.published ≠ [] ∧ a = .purchase result ∧
      Attributed env s.db r' result ∧ (t.published ≠ [] → j = i) := by
  have hts := List.mem_of_getElem? ht
  obtain ⟨act, -, -, hans⟩ := committed_action h₀.sound h hts ha
  rw [hjob] at hans
  simp only [Answers, AnswersRequest, hr] at hans
  obtain ⟨-, k, -, rfl, -⟩ := hans
  have hbuys : t.job.buys k := hjob ▸ ⟨data, hr⟩
  obtain ⟨u, hu, p, hbuys', hphase, hpub, rfl⟩ := purchase_answered h₀ h hts hbuys ha
  obtain ⟨j, hj⟩ := List.getElem?_of_mem hu
  obtain ⟨r', data', hjob', hr', hattr⟩ := attributed_of_executed h₀ h hu hbuys' hphase hpub
  have hexecuted : u.published ≠ [] := by simp [hpub, Action.writes]
  refine ⟨j, u, r', data', p.result, hj, hjob', hr', hphase, hexecuted, rfl, hattr, fun hne => ?_⟩
  obtain ⟨q, -, hq⟩ := purchase_published h₀ h hts hbuys hne
  exact Keys.published_disjoint (K := uniqueKeys env.foreignKeys) (Keys.inv_run h) hj ht (key_published hpub)
    (key_published hq)

/-! ### A replay of another request -/

namespace Sample

/-- A purchase of the record under the key, for the user with the id that statement `n` of the seeding has drawn. -/
def buysFor (n : Nat) : Request := keyed (.purchase (some ⟨uuid 0 20, uuid 0 n⟩) (some "key"))

/-- The researcher buys the record, then the transcriptionist under the same key. -/
def sharedKey : AppSystem :=
  scheduled Sample.env seeded (fun _ _ => true) (.start (.request (buysFor 16)) (oracle 1) :: List.replicate 35 (.exec 0) ++
    .start (.request (buysFor 12)) (oracle 2) :: List.replicate 3 (.exec 1))

theorem sharedKey_reachable : Reachable (genPay Sample.env) seeded sharedKey :=
  run_scheduled (fun _ _ _ => True.intro) _

/-- The job is a purchase under the key for the user. -/
def isFor (n : Nat) (job : Job) : Bool :=
  match job with
  | .request r =>
    match r.route with
    | .purchase (some data) (some key) => data.userId == uuid 0 n && key == "key"
    | _ => false
  | _ => false

theorem isFor_eq_true {n : Nat} {job : Job} (h : isFor n job = true) : ∃ r data, job = .request r ∧
    r.route = .purchase (some data) (some "key") ∧ data.userId = uuid 0 n := by
  unfold isFor at h
  split at h
  · rename_i r
    split at h
    · rename_i data key hr
      obtain ⟨hu, hk⟩ := Bool.and_eq_true_iff.1 h
      exact ⟨r, data, rfl, by rw [hr, show key = "key" by simpa using hk], by simpa using hu⟩
    · cases h
  · cases h

end Sample

theorem purchase_attributed_sharedKey : ∃ t a, Sample.sharedKey.sessions[1]? = some t ∧ t.phase = .committed a ∧
    t.published = [] ∧ ∃ (j : Nat) (u : AppSession) (r' : Request) (data' : Option PurchaseRequest)
      (result : PurchaseResult), Sample.sharedKey.sessions[j]? = some u ∧ u.job = .request r' ∧
      r'.route = .purchase data' (some "key") ∧ u.phase = .committed (.purchase result) ∧ u.published ≠ [] ∧
      a = .purchase result ∧ Attributed Sample.env Sample.sharedKey.db r' result ∧ (t.published ≠ [] → j = 1) := by
  obtain ⟨t, a, ht, ha, hp⟩ := committed_at (s := Sample.sharedKey) (i := 1)
    (p := fun t _ => Sample.isFor 12 t.job && t.published.isEmpty) (by decide +kernel)
  obtain ⟨hjob, hquiet⟩ := Bool.and_eq_true_iff.1 hp
  obtain ⟨r, data, hjob, hr, -⟩ := Sample.isFor_eq_true hjob
  exact ⟨t, a, ht, ha, List.isEmpty_iff.1 hquiet,
    purchase_attributed Sample.seeded_env Sample.sharedKey_reachable ht hjob hr ha⟩

/-- The second request under a key asks for a purchase by another user and is answered with the first one's. -/
theorem replay_of_another : ¬ ∀ (env : Env) (d₀ : Db) (s : AppSystem) (t : AppSession) (r : Request)
    (data : Option PurchaseRequest) (key : Option String) (result : PurchaseResult), Seeded env d₀ →
    Reachable (genPay env) d₀ s → t ∈ s.sessions → t.job = .request r → r.route = .purchase data key →
    t.phase = .committed (.purchase result) → Attributed env s.db r result := by
  intro h
  obtain ⟨t, a, ht, ha, hp⟩ := committed_at (s := Sample.sharedKey) (i := 1)
    (p := fun t a => Sample.isFor 12 t.job && match a with | .purchase _ => true | _ => false) (by decide +kernel)
  obtain ⟨hjob, hresult⟩ := Bool.and_eq_true_iff.1 hp
  obtain ⟨r, data, hjob, hr, huser⟩ := Sample.isFor_eq_true hjob
  have hall : ∀ b ∈ Sample.sharedKey.db.authorizations, b.userId = Sample.uuid 0 16 := by decide +kernel
  cases a with
  | purchase result =>
    obtain ⟨data', _, hr', b, hb, -, -, hbu, -⟩ := h _ _ _ t r (some data) (some "key") result Sample.seeded_env
      Sample.sharedKey_reachable (List.mem_of_getElem? ht) hjob hr ha
    rw [hr] at hr'
    cases hr'
    have he := (hall b hb).symm.trans (hbu.trans huser)
    exact absurd he (by decide +kernel)
  | _ => cases hresult

end GenPay
