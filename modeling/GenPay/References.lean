import GenPay.Vouching

/-!
# Referential integrity

`Db.Referential`: every reference is to an existing row.  Where the engine does not check foreign keys, it holds in
every run in which the committed requests that create archives and records name existing rows
(`references_exist`); nothing else in the code relies on the engine.  A record of an unknown archive breaks it
(`record_of_no_archive`).
-/

namespace GenPay

open ReadCommitted

structure Db.Referential (d : Db) : Prop where
  authorizationRecord : ∀ a ∈ d.authorizations, a.researchRecordId ∈ d.column .recordsId
  authorizationUser : ∀ a ∈ d.authorizations, a.userId ∈ d.column .usersId
  authorizationClient : ∀ a ∈ d.authorizations, ∀ c, a.createdByClientId = some c → c ∈ d.column .clientsId
  settlementAuthorization : ∀ x ∈ d.settlements, x.authorizationId ∈ d.column .authorizationsId
  transactionAccount : ∀ t ∈ d.transactions, t.ledgerAccountId ∈ d.column .accountsId
  transactionSettlement : ∀ t ∈ d.transactions, t.settlementId ∈ d.column .settlementsId
  accountUser : ∀ a ∈ d.accounts, ∀ u, a.ownerUserId = some u → u ∈ d.column .usersId
  accountArchive : ∀ a ∈ d.accounts, ∀ x, a.ownerArchiveId = some x → x ∈ d.column .archivesId
  recordArchive : ∀ r ∈ d.records, r.archiveId ∈ d.column .archivesId
  recordTranscriptionist : ∀ r ∈ d.records, ∀ u, r.transcriptionistUserId = some u → u ∈ d.column .usersId
  archiveOwner : ∀ a ∈ d.archives, ∀ u, a.ownerUserId = some u → u ∈ d.column .usersId

theorem Db.referential_empty : Db.empty.Referential := by
  constructor <;> intro x hx <;> cases hx

variable {env : Env} {G : AppSession → Db → Prop} {d₀ d : Db} {s : AppSystem} {t : AppSession} {a : Response}
  {act : Action} {ds : List Db}

/-! ### The rows after a commit -/

namespace Action.Commits

theorem mem_records_after {r : ResearchRecord} (hr : r ∈ (after env d act).records) :
    r ∈ d.records ∨ .insertRecord r ∈ act.writes := by
  rcases (recordTable env.foreignKeys).mem_rows_view_of_untouched (fun _ _ _ => rfl) |>.1 hr with hr | ⟨w, hw, hi⟩
  · exact Or.inl hr
  · cases w <;> cases hi
    exact Or.inr hw

theorem mem_archives_after {x : HistoricalArchive} (hx : x ∈ (after env d act).archives) :
    x ∈ d.archives ∨ .insertArchive x ∈ act.writes := by
  rcases (archiveTable env.foreignKeys).mem_rows_view_of_untouched (fun _ _ _ => rfl) |>.1 hx with hx | ⟨w, hw, hi⟩
  · exact Or.inl hx
  · cases w <;> cases hi
    exact Or.inr hw

theorem mem_users_after {u : User} (hu : u ∈ (after env d act).users) : u ∈ d.users ∨ .insertUser u ∈ act.writes := by
  rcases (userTable env.foreignKeys).mem_rows_view_of_untouched (fun _ _ _ => rfl) |>.1 hu with hu | ⟨w, hw, hi⟩
  · exact Or.inl hu
  · cases w <;> cases hi
    exact Or.inr hw

theorem mem_clients_after {c : ApiClient} (hc : c ∈ (after env d act).clients) :
    c ∈ d.clients ∨ .insertClient c ∈ act.writes := by
  rcases (clientTable env.foreignKeys).mem_rows_view_of_untouched (fun _ _ _ => rfl) |>.1 hc with hc | ⟨w, hw, hi⟩
  · exact Or.inl hc
  · cases w <;> cases hi
    exact Or.inr hw

theorem mem_authorizations_after {b : Authorization} (hb : b ∈ (after env d act).authorizations) :
    (∃ b₀ ∈ d.authorizations, b.core = b₀.core) ∨ b ∈ act.authorizations := by
  rw [authorizations_after, List.mem_append, List.mem_map] at hb
  rcases hb with ⟨b₀, hb₀, rfl⟩ | hb
  · exact Or.inl ⟨b₀, hb₀, authorization_core b₀⟩
  · exact Or.inr hb

/-- The owner of a new account is new. -/
theorem owner_inserted (h : act.Commits env ds d) {x : LedgerAccount} (hx : x ∈ act.accounts) :
    (∀ u, x.ownerUserId = some u → u ∈ (after env d act).column .usersId) ∧
    ∀ y, x.ownerArchiveId = some y → y ∈ (after env d act).column .archivesId := by
  have user : ∀ {u : User} {z : LedgerAccount}, .insertUser u ∈ act.writes → z.IsNew .user (some u.id) none →
      (∀ v, z.ownerUserId = some v → v ∈ (after env d act).column .usersId) ∧
      ∀ y, z.ownerArchiveId = some y → y ∈ (after env d act).column .archivesId := by
    intro u z hw hz
    refine ⟨fun v hv => ?_, fun y hy => ?_⟩
    · rw [hz.2.1] at hv
      cases hv
      exact inserted hw (by simp [Write.keys])
    · rw [hz.2.2.1] at hy
      cases hy
  have archive : ∀ {b : HistoricalArchive} {z : LedgerAccount}, .insertArchive b ∈ act.writes →
      z.IsNew .archive none (some b.id) →
      (∀ v, z.ownerUserId = some v → v ∈ (after env d act).column .usersId) ∧
      ∀ y, z.ownerArchiveId = some y → y ∈ (after env d act).column .archivesId := by
    intro b z hw hz
    refine ⟨fun v hv => ?_, fun y hy => ?_⟩
    · rw [hz.2.1] at hv
      cases hv
    · rw [hz.2.2.1] at hy
      cases hy
      exact inserted hw (by simp [Write.keys])
  cases act with
  | user u account =>
    cases List.mem_singleton.1 hx
    exact user (u := u) (by simp [Action.writes]) h.grounded
  | archive b account =>
    cases List.mem_singleton.1 hx
    exact archive (b := b) (by simp [Action.writes]) h.grounded
  | seeded admin processor platform b bAccount u uAccount v vAccount r =>
    obtain ⟨-, -, hplatform, hb, hu, hv⟩ := h.grounded
    simp only [Action.accounts, List.mem_cons, List.not_mem_nil, or_false] at hx
    rcases hx with rfl | rfl | rfl | rfl
    · refine ⟨fun w hw => ?_, fun y hy => ?_⟩
      · rw [hplatform.2.1] at hw
        cases hw
      · rw [hplatform.2.2.1] at hy
        cases hy
    · exact archive (b := b) (by simp [Action.writes]) hb
    · exact user (u := u) (by simp [Action.writes]) hu
    · exact user (u := v) (by simp [Action.writes]) hv
  | _ => cases hx

end Action.Commits

/-! ### The invariant -/

open Action.Commits in
/-- A commit keeps the references, if the engine checks them or the rows that the request names exist. -/
theorem CommitsVouched.referential (h : CommitsVouched env t a act d)
    (hG : env.foreignKeys = true ∨ ∀ k ∈ t.job.named, k.2 ∈ d.column k.1) (hd : d.Referential) :
    (after env d act).Referential := by
  have backed : ∀ {w : Write} {k : Column × String}, w ∈ act.writes → w.refers = true → k ∈ w.references →
      k.2 ∈ (after env d act).column k.1 :=
    fun hw hr hk => h.column_of_backed hG (h.vouched.backed _ (h.writes ▸ hw) hr _ hk)
  have new : ∀ {b : Authorization}, b ∈ act.authorizations → .insertAuthorization b ∈ act.writes :=
    fun hb => mem_authorizations hb
  have hsound := h.commits.sound_after
  exact
    { authorizationRecord := fun b hb => by
        rcases mem_authorizations_after hb with ⟨b₀, hb₀, hcore⟩ | hb
        · rw [of_core Authorization.researchRecordId hcore]
          exact column_mono (hd.authorizationRecord b₀ hb₀)
        · exact backed (k := (.recordsId, _)) (new hb) rfl (by simp [Write.references])
      authorizationUser := fun b hb => by
        rcases mem_authorizations_after hb with ⟨b₀, hb₀, hcore⟩ | hb
        · rw [of_core Authorization.userId hcore]
          exact column_mono (hd.authorizationUser b₀ hb₀)
        · exact backed (k := (.usersId, _)) (new hb) rfl (by simp [Write.references])
      authorizationClient := fun b hb c hc => by
        rcases mem_authorizations_after hb with ⟨b₀, hb₀, hcore⟩ | hb
        · rw [of_core Authorization.createdByClientId hcore] at hc
          exact column_mono (hd.authorizationClient b₀ hb₀ c hc)
        · exact backed (k := (.clientsId, c)) (new hb) rfl (by simp [Write.references, hc])
      settlementAuthorization := hsound.authorization
      transactionAccount := hsound.account
      transactionSettlement := hsound.settlement
      accountUser := fun x hx u hu => by
        rw [accounts_after, List.mem_append, List.mem_map] at hx
        rcases hx with ⟨x₀, hx₀, rfl⟩ | hx
        · rw [of_core LedgerAccount.ownerUserId (updateAll_account_core x₀)] at hu
          exact column_mono (hd.accountUser x₀ hx₀ u hu)
        · exact (h.commits.owner_inserted hx).1 u hu
      accountArchive := fun x hx y hy => by
        rw [accounts_after, List.mem_append, List.mem_map] at hx
        rcases hx with ⟨x₀, hx₀, rfl⟩ | hx
        · rw [of_core LedgerAccount.ownerArchiveId (updateAll_account_core x₀)] at hy
          exact column_mono (hd.accountArchive x₀ hx₀ y hy)
        · exact (h.commits.owner_inserted hx).2 y hy
      recordArchive := fun r hr => by
        rcases mem_records_after hr with hr | hw
        · exact column_mono (hd.recordArchive r hr)
        · exact backed (k := (.archivesId, _)) hw rfl (by simp [Write.references])
      recordTranscriptionist := fun r hr u hu => by
        rcases mem_records_after hr with hr | hw
        · exact column_mono (hd.recordTranscriptionist r hr u hu)
        · exact backed (k := (.usersId, u)) hw rfl (by simp [Write.references, hu])
      archiveOwner := fun x hx u hu => by
        rcases mem_archives_after hx with hx | hw
        · exact column_mono (hd.archiveOwner x hx u hu)
        · exact backed (k := (.usersId, u)) hw rfl (by simp [Write.references, hu]) }

theorem Seeded.referential (h : Seeded env d₀) : d₀.Referential := by
  rcases h.commits with rfl | ⟨t, a, act, hjob, hc, rfl⟩
  · exact Db.referential_empty
  · refine hc.referential (Or.inr fun k hk => ?_) Db.referential_empty
    rw [hjob] at hk
    cases hk

theorem run_referential (h₀ : Seeded env d₀)
    (hG : ∀ t d, G t d → env.foreignKeys = true ∨ ∀ k ∈ t.job.named, k.2 ∈ d.column k.1)
    (h : Run (genPay env) G (System.initial d₀) s) : s.db.Referential :=
  commit_induction h₀.referential (fun t _ _ d hc hg hd => hc.referential (hG t d hg) hd) h₀.sound h

/-- On an engine that does not check foreign keys: in every run in which the requests that create archives and
records name existing rows, every reference is to an existing row in every state. -/
theorem references_exist {env : Env} {d₀ : Db} {s : AppSystem} (h₀ : Seeded env d₀)
    (h : Run (genPay env) (fun t d => ∀ k ∈ t.job.named, k.2 ∈ d.column k.1) (System.initial d₀) s) :
    s.db.Referential :=
  run_referential h₀ (fun _ _ hg => Or.inr hg) h

/-! ### A record of no archive -/

namespace Sample

/-- The settings of the sample on SQLite. -/
def sqlite : Env := { Sample.env with foreignKeys := false }

def seededSqlite : Db := ((genPay sqlite).serve .seed (oracle 0) Db.empty).2

theorem seededSqlite_env : Seeded sqlite seededSqlite := ⟨oracle 0, rfl⟩

/-- Another record of the seeded archive, by the seeded transcriptionist. -/
def sibling : Job :=
  .request (keyed (.createRecord (some ⟨uuid 0 8, "CENSUS-1880-005", "Another page", 599, some (uuid 0 12)⟩)))

def orphan : Job :=
  .request (keyed (.createRecord (some ⟨"no-such-archive", "CENSUS-1880-005", "Another page", 599, none⟩)))

/-- Where one request to SQLite leads if its commit passes the test `g`. -/
def afterCreating (g : AppSession → Db → Bool) (job : Job) : AppSystem :=
  scheduled sqlite seededSqlite g (.start job (oracle 1) :: List.replicate 4 (.exec 0))

end Sample

theorem references_exist_sibling :
    let s := Sample.afterCreating (fun t d => t.job.named.all fun k => decide (k.2 ∈ d.column k.1)) Sample.sibling
    s.db.records.length = 2 ∧ s.db.Referential :=
  ⟨by decide +kernel, references_exist Sample.seededSqlite_env
    (Sample.run_scheduled (fun t d hg k hk => by simpa using List.all_eq_true.1 hg k hk) _)⟩

/-- The request names an archive that does not exist, and its record is committed. -/
theorem record_of_no_archive : ¬ ∀ (env : Env) (d₀ : Db) (s : AppSystem), env.foreignKeys = false → Seeded env d₀ →
    Reachable (genPay env) d₀ s → s.db.Referential := by
  intro h
  have hreferential := h Sample.sqlite Sample.seededSqlite _ rfl Sample.seededSqlite_env
    (Sample.run_scheduled (g := fun _ _ => true) (fun _ _ _ => True.intro)
      (.start Sample.orphan (Sample.oracle 1) :: List.replicate 4 (.exec 0)))
  have horphan : ∃ r ∈ (Sample.afterCreating (fun _ _ => true) Sample.orphan).db.records,
      r.archiveId ∉ (Sample.afterCreating (fun _ _ => true) Sample.orphan).db.column .archivesId := by
    decide +kernel
  obtain ⟨r, hr, hno⟩ := horphan
  exact hno (hreferential.recordArchive r hr)

end GenPay
