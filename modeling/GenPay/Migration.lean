import GenPay.Startup
import GenPay.Vouching

/-!
# Upgrading the initial schema

The second revision of `alembic/versions` adds the table of API clients and the column `created_by_client_id`.  What
is upgraded can be downgraded again (`downgrade_upgrade`).  The upgrade inserts no client, and `seed` does not seed a
database that has a platform account: in an upgraded database nobody has a key, and nobody ever will
(`upgraded_locked_out`).
-/

namespace GenPay

open ReadCommitted
open Prog (onOk wp_seq wp_imp wp_tryCatch)

/-! ### The two revisions -/

namespace InitialSchema

structure Authorization where
  id : String
  researchRecordId : String
  userId : String
  amountCents : Int
  externalReference : String
  declineReason : Option String
  status : AuthorizationStatus
  createdAt : Nat
  deriving DecidableEq, Repr

/-- The tables of revision `ed054bd95378`. -/
structure Db where
  users : List User
  archives : List HistoricalArchive
  records : List ResearchRecord
  accounts : List LedgerAccount
  authorizations : List InitialSchema.Authorization
  settlements : List Settlement
  transactions : List Transaction
  idempotencyKeys : List IdempotencyKey
  events : List ProcessedWebhookEvent

/-- The new column is null. -/
def Authorization.upgrade (a : InitialSchema.Authorization) : GenPay.Authorization :=
  ⟨a.id, a.researchRecordId, a.userId, a.amountCents, a.externalReference, a.declineReason, a.status, none, a.createdAt⟩

end InitialSchema

def Authorization.downgrade (a : Authorization) : InitialSchema.Authorization :=
  ⟨a.id, a.researchRecordId, a.userId, a.amountCents, a.externalReference, a.declineReason, a.status, a.createdAt⟩

/-- `upgrade` of revision `99434b40d6e5`. -/
def upgrade (d : InitialSchema.Db) : Db :=
  ⟨d.users, d.archives, d.records, d.accounts, [], d.authorizations.map (·.upgrade), d.settlements, d.transactions,
    d.idempotencyKeys, d.events⟩

def downgrade (d : Db) : InitialSchema.Db :=
  ⟨d.users, d.archives, d.records, d.accounts, d.authorizations.map (·.downgrade), d.settlements, d.transactions,
    d.idempotencyKeys, d.events⟩

theorem downgrade_upgrade (d : InitialSchema.Db) : downgrade (upgrade d) = d := by
  have hmap : (d.authorizations.map (·.upgrade)).map Authorization.downgrade = d.authorizations := by
    rw [List.map_map]
    exact List.map_id _
  simp only [downgrade, upgrade, hmap]

/-- What a downgrade loses are the clients, and who has created an authorization. -/
theorem upgrade_downgrade_iff {d : Db} :
    upgrade (downgrade d) = d ↔ d.clients = [] ∧ ∀ a ∈ d.authorizations, a.createdByClientId = none := by
  have hmap : (upgrade (downgrade d)).authorizations = d.authorizations.map fun a => { a with createdByClientId := none } := by
    simp only [upgrade, downgrade, List.map_map]
    rfl
  constructor
  · intro he
    refine ⟨(congrArg Db.clients he).symm, fun a ha => ?_⟩
    rw [← he, hmap] at ha
    obtain ⟨b, -, rfl⟩ := List.mem_map.1 ha
    rfl
  · rintro ⟨hclients, hnone⟩
    have hsame : d.authorizations.map (fun a => { a with createdByClientId := none }) = d.authorizations := by
      refine (List.map_congr_left fun a ha => ?_).trans (List.map_id _)
      rw [← hnone a ha]
      rfl
    have hupgrade : upgrade (downgrade d) =
        { d with clients := [], authorizations := (upgrade (downgrade d)).authorizations } := rfl
    rw [hupgrade, hmap, hsame, ← hclients]

/-! ### Outside the gate -/

/-- The write inserts nothing that only clients may, and reverses no settlement. -/
def Write.Outside : Write → Prop
  | .insertUser _ | .insertArchive _ | .insertRecord _ | .insertAccount _ | .insertClient _ | .setSettlementStatus .. => False
  | .insertAuthorization a => a.createdByClientId = none
  | .insertSettlement x => x.status = .settled
  | _ => True

/-- What has become of an upgraded database that nobody has a key to. -/
structure Db.Shut (d₀ d : Db) : Prop where
  clients : d.clients = []
  users : d.users = d₀.users
  archives : d.archives = d₀.archives
  records : d.records = d₀.records
  /-- Card authorizations and batches still move the balances. -/
  accounts : d.accounts.map LedgerAccount.core = d₀.accounts.map LedgerAccount.core
  unattributed : ∀ a ∈ d.authorizations, a.createdByClientId = none
  settlements : ∀ x ∈ d.settlements, x.status ≠ .settled → x ∈ d₀.settlements

namespace Db.Shut

variable {d₀ d : Db}

theorem apply (h : d₀.Shut d) {w : Write} (hw : w.Outside) : d₀.Shut (d.apply w) := by
  cases w with
  | insertAuthorization a =>
    refine { h with unattributed := fun b hb => ?_ }
    rcases List.mem_append.1 hb with hb | hb
    · exact h.unattributed b hb
    · rw [List.mem_singleton.1 hb]
      exact hw
  | setAuthorizationStatus id status reason =>
    refine { h with unattributed := fun b hb => ?_ }
    obtain ⟨a, ha, rfl⟩ := List.mem_map.1 hb
    split
    · exact h.unattributed a ha
    · exact h.unattributed a ha
  | insertSettlement x =>
    refine { h with settlements := fun y hy hne => ?_ }
    rcases List.mem_append.1 hy with hy | hy
    · exact h.settlements y hy hne
    · rw [List.mem_singleton.1 hy] at hne
      exact absurd hw hne
  | addBalance id delta =>
    have hcore : ((engine true).view d [.addBalance id delta]).accounts.map LedgerAccount.core =
        d.accounts.map LedgerAccount.core := view_accounts_core (by simp [Write.isEntity])
    exact { h with accounts := hcore.trans h.accounts }
  | insertTransaction | insertIdempotencyKey | insertEvent | setTransactionStatus | setResponseBody => exact { h with }
  | _ => exact hw.elim

theorem view {fk : Bool} {ws : List Write} (h : d₀.Shut d) (hws : ∀ w ∈ ws, w.Outside) : d₀.Shut ((engine fk).view d ws) := by
  induction ws generalizing d with
  | nil => exact h
  | cons w ws ih => exact ih (h.apply (hws w (List.mem_cons_self ..))) fun x hx => hws x (List.mem_cons_of_mem _ hx)

end Db.Shut

section Actions

variable {env : Env} {ds : List Db} {act : Action}

theorem Purchase.Grounded.outside {p : Purchase} (h : p.Grounded env ds) : ∀ w ∈ p.writes, w.Outside := by
  intro w hw
  rcases List.mem_cons.1 hw with rfl | hw
  · exact h.settlement.2.2
  · obtain ⟨t, -, ht⟩ := List.mem_flatMap.1 hw
    rcases List.mem_pair.1 ht with rfl | rfl <;> exact True.intro

/-- Card authorizations and events write outside the gate, but for whom their authorizations may name. -/
theorem Action.Grounded.outside (h : act.Grounded env ds) (hact : (∃ p, act = .purchase none p) ∨ act.event?.isSome = true) :
    ∀ w ∈ act.writes, w.isEntity = false ∧ (w.authorization? = none → w.Outside) := by
  intro w hw
  cases act with
  | purchase key p =>
    rcases hact with ⟨q, hq⟩ | hevent
    · cases hq
      rcases List.mem_cons.1 hw with rfl | hw
      · exact ⟨rfl, fun hno => by cases hno⟩
      · exact ⟨(Purchase.writes_kind hw).1, fun _ => Purchase.Grounded.outside h w hw⟩
    · cases hevent
  | created event b =>
    rcases List.mem_pair.1 hw with rfl | rfl
    · exact ⟨rfl, fun _ => True.intro⟩
    · exact ⟨rfl, fun hno => by cases hno⟩
  | decided event b status reason =>
    rcases List.mem_pair.1 hw with rfl | rfl <;> exact ⟨rfl, fun _ => True.intro⟩
  | batch event ps =>
    rcases List.mem_cons.1 hw with rfl | hw
    · exact ⟨rfl, fun _ => True.intro⟩
    · obtain ⟨p, hp, hw⟩ := List.mem_flatMap.1 hw
      exact ⟨(Purchase.writes_kind hw).1, fun _ => (h p hp).1.outside w hw⟩
  | _ =>
    rcases hact with ⟨q, hq⟩ | hevent
    · cases hq
    · cases hevent

end Actions

section Runs

variable {env : Env} {G : AppSession → Db → Prop} {d₀ d : Db} {s : AppSystem} {t : AppSession} {a : Response} {r : Request}

/-- Seeding writes nothing where it finds a platform account. -/
theorem seed_guarded {fk : Bool} {o : Nat → Choice} : (seed env).wp (engine fk) o
    (onOk fun _ t' => t'.writes = [] ∨ ∃ d ∈ t'.seen, ∀ x ∈ d.accounts, x.ownerType ≠ .platform) Txn.fresh := by
  unfold seed
  refine wp_seq scalar_spec ?_
  rintro platform _ ⟨d, rfl, -, hnone⟩
  cases platform with
  | some x => exact Or.inl rfl
  | none =>
    have hd : ∀ x ∈ d.accounts, x.ownerType ≠ .platform := by
      intro x hx he
      have := hnone rfl x hx
      simp [he] at this
    refine Prog.wp_mono (Prog.wp_seen _ _) fun e t' hseen => ?_
    cases e with
    | ok a => exact Or.inr ⟨d, hseen.subset (by simp), hd⟩
    | error e => exact True.intro

theorem Db.Shut.platform (h : d₀.Shut d) (hplatform : ∃ x ∈ d₀.accounts, x.ownerType = .platform) :
    ∃ x ∈ d.accounts, x.ownerType = .platform := by
  obtain ⟨x, hx, hp⟩ := hplatform
  have hmem : x.core ∈ d.accounts.map LedgerAccount.core := by
    rw [h.accounts]
    exact List.mem_map_of_mem hx
  obtain ⟨y, hy, he⟩ := List.mem_map.1 hmem
  exact ⟨y, hy, (of_core LedgerAccount.ownerType he).trans hp⟩

theorem not_mem_named {job : Job} {c : String} : (Column.clientsId, c) ∉ job.named := by
  unfold Job.named
  split
  · split <;> simp
  · simp

/-- A transaction that has seen shut databases only writes outside the gate. -/
theorem outside_of_committed {t : Txn Db Write} {job : Job} (hplatform : ∃ x ∈ d₀.accounts, x.ownerType = .platform)
    (hcommitted : Committed env job a t) (hvouched : Vouched env job t)
    (hseed : job = .seed → t.writes = [] ∨ ∃ d ∈ t.seen, ∀ x ∈ d.accounts, x.ownerType ≠ .platform)
    (hshut : ∀ d ∈ t.seen, d₀.Shut d) : ∀ w ∈ t.writes, w.Outside := by
  obtain ⟨act, hw, hgr, hans⟩ := hcommitted
  have hkey : ∀ r, ¬ ∃ d ∈ t.seen, KeyAccepted env r d := by
    rintro r ⟨d, hd, key, -, c, hc, -⟩
    rw [(hshut d hd).clients] at hc
    cases hc
  have houtside : t.writes = [] ∨ (∃ p, act = .purchase none p) ∨ act.event?.isSome = true := by
    cases hans.acts with
    | quiet => exact Or.inl hw
    | seeded =>
      rcases hseed rfl with hnil | ⟨d, hd, hno⟩
      · exact Or.inl hnil
      · obtain ⟨x, hx, hp⟩ := (hshut d hd).platform hplatform
        exact absurd hp (hno x hx)
    | entity hk _ => exact absurd hk (hkey _)
    | purchase _ hk _ => exact absurd hk (hkey _)
    | refund _ hk => exact absurd hk (hkey _)
    | card => exact Or.inr (Or.inl ⟨_, rfl⟩)
    | event _ _ _ _ hact => exact Or.inr (Or.inr (by rw [hact.event]; rfl))
  rcases houtside with hnil | hact
  · intro w hmem
    rw [hnil] at hmem
    cases hmem
  · have hkind := hw ▸ hgr.outside hact
    intro w hmem
    cases w with
    | insertAuthorization b =>
      -- a client that it names would have to be in the database
      cases hclient : b.createdByClientId with
      | none => exact hclient
      | some c =>
        have href : (Column.clientsId, c) ∈ (Write.insertAuthorization b).references := by simp [Write.references, hclient]
        rcases hvouched.backed _ hmem rfl _ href with ⟨d, hd, hcolumn⟩ | hown | ⟨-, hnamed⟩
        · rw [Db.column, (hshut d hd).clients] at hcolumn
          cases hcolumn
        · obtain ⟨w', hw', hk⟩ := List.mem_flatMap.1 hown
          have hentity : true = w'.isEntity := Write.isEntity_key hk
          rw [(hkind w' hw').1] at hentity
          cases hentity
        · exact absurd hnamed not_mem_named
    | _ => exact (hkind _ hmem).2 rfl

/-- From a shut database with a platform account, sessions commit what is outside the gate. -/
def shutRule (env : Env) (G : AppSession → Db → Prop) (d₀ : Db) (hplatform : ∃ x ∈ d₀.accounts, x.ownerType = .platform) :
    Discipline (genPay env) (uniqueKeys env.foreignKeys) G where
  inv := d₀.Shut
  evolves _ _ := True
  post := fun job a t => (Committed env job a t ∧ Vouched env job t) ∧
    (job = .seed → t.writes = [] ∨ ∃ d ∈ t.seen, ∀ x ∈ d.accounts, x.ownerType ≠ .platform)
  refl _ := True.intro
  trans _ _ := True.intro
  program := fun job o => by
    refine Prog.wp_onOk_and (Prog.wp_onOk_and (handle_spec env job o) (handle_vouched env job o)) ?_
    by_cases hjob : job = .seed
    · rw [hjob]
      exact wp_imp seed_guarded fun _ _ h _ => h
    · exact Prog.wp_mono (Prog.wp_seen _ _) fun e t' _ => by
        cases e with
        | ok a => exact fun he => absurd he hjob
        | error e => exact True.intro
  commit := fun t a d h _ hd hseen _ _ =>
    ⟨hd.view (outside_of_committed hplatform h.1.1 h.1.2 h.2 fun d' hd' => (hseen d' hd').1), True.intro⟩

/-- Nobody has a key: behind the gate nobody is answered but by 401, unless the engine ends the session. -/
structure LockedOut (d₀ : Db) (s : AppSystem) : Prop where
  shut : d₀.Shut s.db
  refused : ∀ t ∈ s.sessions, ∀ r, t.job = .request r → r.route.isGated = true →
    (∀ a, t.phase ≠ .committed a) ∧ ∀ e, t.phase = .failed e → e = unauthorized ∨ e = .operationalError

/-- An upgraded database that had been seeded stays shut, whatever is requested and however often it is seeded. -/
theorem upgraded_locked_out {old : InitialSchema.Db} (hplatform : ∃ x ∈ old.accounts, x.ownerType = .platform)
    (h : Reachable (genPay env) (upgrade old) s) : LockedOut (upgrade old) s := by
  have h₀ : (upgrade old).Shut (upgrade old) :=
    { clients := rfl, users := rfl, archives := rfl, records := rfl, accounts := rfl
      unattributed := fun a ha => by
        obtain ⟨b, -, rfl⟩ := List.mem_map.1 ha
        rfl
      settlements := fun _ hx _ => hx }
  have hinv := Discipline.inv_run (D := shutRule env (fun _ _ => True) (upgrade old) hplatform) h₀ h
  have hno : ∀ t ∈ s.sessions, ∀ r, ¬ ∃ d ∈ t.txn.seen, KeyAccepted env r d := by
    rintro t ht r ⟨d, hd, key, -, c, hc, -⟩
    have hshut : (upgrade old).Shut d := (hinv.seen t ht d hd).1
    rw [hshut.clients] at hc
    cases hc
  refine ⟨hinv.db, fun t ht r hjob hr => ⟨fun a ha => hno t ht r (shown_of_committed h ht hjob hr ha), fun e he => ?_⟩⟩
  rcases (gate_ends h ht hjob hr).failed he with rfl | ⟨ws, hshown | herror⟩
  · exact Or.inr rfl
  · exact absurd hshown (hno t ht r)
  · cases herror
    exact Or.inl rfl

end Runs

/-- An upgraded database: a start, a purchase under the key that was valid, a card authorization. -/
def Sample.upgraded : AppSystem :=
  scheduled Sample.env (upgrade (downgrade seeded)) (fun _ _ => true) (.start .seed (oracle 1) ::
    .start (Case.job (.buys "key")) (oracle 2) :: .start (Case.job .card) (oracle 3) ::
    (List.replicate 2 (.exec 0) ++ List.replicate 2 (.exec 1) ++ List.replicate 33 (.exec 2)))

theorem upgraded_locked_out_seeded :
    (Sample.upgraded.sessions.map fun t => (t.published.length, (answer t).isSome)) = [(0, true), (0, false), (10, true)] ∧
    LockedOut (upgrade (downgrade Sample.seeded)) Sample.upgraded :=
  ⟨by decide +kernel, upgraded_locked_out (by decide +kernel) (Sample.run_scheduled (fun _ _ _ => True.intro) _)⟩

end GenPay
