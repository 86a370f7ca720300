import GenPay.EndToEnd
import Mathlib.Tactic.FieldSimp

/-!
# Purchases on an undisturbed database

`purchase_record` and the two requests that call it.  Each returns exactly when the buyer exists and the sale is due,
and then leaves the rows of the sale (`serve_purchase`, `serve_cardAuthorization`).
-/

namespace GenPay

open ReadCommitted DoubleEntry
open Prog (ends_seq ends_exec)

variable {fk : Bool} {o : Nat → Choice} {d d' : Db} {t : Txn Db Write} {env : Env} {r : ResearchRecord} {u : String}

/-! ### The rows of a sale -/

/-- The buyer exists and the record can be sold for `n` cents. -/
structure Sale.Available (env : Env) (d : Db) (r : ResearchRecord) (userId : String) (n : Int) (s : Sale) : Prop where
  user : userId ∈ d.column .usersId
  due : s.Due env d r userId none
  price : s.amountCents = n

/-- An authorization of the record for the user. -/
structure Authorization.Holds (a : Authorization) (recordId userId : String) (n : Int)
    (status : AuthorizationStatus) : Prop where
  record : a.researchRecordId = recordId
  user : a.userId = userId
  amount : a.amountCents = n
  status : a.status = status
  declineReason : a.declineReason = none

/-- The rows of a sale but for their ids and times. -/
structure Sale.RowsOf (s : Sale) (a : Authorization) (x : Settlement) (ts : List Transaction) : Prop where
  booked : s.BookedAs a x ts
  currency : ∀ y ∈ ts, y.currency = "USD"

/-- The database with a sale on it. -/
def Db.sold (d : Db) (s : Sale) (x : Settlement) (ts : List Transaction) : Db :=
  { d with
    settlements := d.settlements ++ [x]
    transactions := d.transactions ++ ts
    accounts := d.accounts.map fun b => { b with balanceCents := b.balanceCents + s.contribution b.id } }

theorem view_sold {s : Sale} {x : Settlement} {ts : List Transaction} (h : Posted x.id s.entries ts) :
    (engine fk).view d (.insertSettlement x :: postings ts) = d.sold s x ts := by
  have hnet : ∀ id, accountNet id ts = s.contribution id := by
    intro id
    rw [accountNet_entries, h.rows]
    exact net_settlementEntries s id
  rw [Engine.view_cons]
  refine (view_postings _ ts).trans ?_
  simp only [hnet]
  rfl

/-! ### Which sales are due -/

private theorem exists_account {P : LedgerAccount → Prop}
    (h : d'.accounts.map LedgerAccount.core = d.accounts.map LedgerAccount.core)
    (hP : ∀ a b : LedgerAccount, b.core = a.core → P a → P b) : (∃ a ∈ d.accounts, P a) → ∃ a ∈ d'.accounts, P a := by
  rintro ⟨a, ha, hPa⟩
  have hmem : a.core ∈ d'.accounts.map LedgerAccount.core := h ▸ List.mem_map_of_mem ha
  obtain ⟨b, hb, he⟩ := List.mem_map.1 hmem
  exact ⟨b, hb, hP a b he hPa⟩

theorem userAccount_of_core (h : d'.accounts.map LedgerAccount.core = d.accounts.map LedgerAccount.core) {x id : String}
    (ha : d.userAccount x id) : d'.userAccount x id :=
  exists_account h (fun a b he ⟨ho, hid⟩ => ⟨(of_core LedgerAccount.ownerUserId he).trans ho,
    (of_core LedgerAccount.id he).trans hid⟩) ha

/-- Balances do not matter. -/
theorem Sale.Due.of_core {s : Sale} {config : Option RevenueSplitConfig} (hs : s.Due env d r u config)
    (h : d'.accounts.map LedgerAccount.core = d.accounts.map LedgerAccount.core) : s.Due env d' r u config where
  buyer := userAccount_of_core h hs.buyer
  archive := exists_account h (fun a b he ⟨ho, hid⟩ => ⟨(GenPay.of_core LedgerAccount.ownerArchiveId he).trans ho,
    (GenPay.of_core LedgerAccount.id he).trans hid⟩) hs.archive
  transcriptionist := by
    have htr := hs.transcriptionist
    revert htr
    cases s.transcriptionist with
    | some id =>
      rintro ⟨v, hv, hne, ha⟩
      exact ⟨v, hv, hne, userAccount_of_core h ha⟩
    | none =>
      intro hnone v hv hne id ha
      exact hnone v hv hne id (userAccount_of_core h.symm ha)
  platform := exists_account h (fun a b he ⟨ho, hid⟩ => ⟨(GenPay.of_core LedgerAccount.ownerType he).trans ho,
    (GenPay.of_core LedgerAccount.id he).trans hid⟩) hs.platform
  split := hs.split

/-- There is one sale of a record to a user. -/
theorem Sale.Due.unique (hd : d.Sound) {s s' : Sale} {config : Option RevenueSplitConfig} (h : s.Due env d r u config)
    (h' : s'.Due env d r u config) (hn : s.amountCents = s'.amountCents) : s = s' := by
  have hsplit : s.split = s'.split := Except.ok.inj (h.split.symm.trans (hn ▸ h'.split))
  have hbuyer := hd.userAccount_unique h.buyer h'.buyer
  have harchive := hd.archiveAccount_unique h.archive h'.archive
  have htr := hd.transcribedBy_unique h.transcriptionist h'.transcriptionist
  have hplatform := hd.platformAccount_unique h.platform h'.platform
  cases s
  cases s'
  simp_all

/-! ### Purchasing -/

/-- From the `n`th statement on, `uuid4` returns new ids, and references made of them are new. -/
structure Unused (o : Nat → Choice) (n : Nat) (d : Db) : Prop where
  ids : FreshFrom o n d
  references : ∀ i, n ≤ i →
    "sim_card_auth_" ++ AuthorizationRepository.shortHex (o i).uuid ∉ d.column .authorizationsExternalReference

/-- A statement draws no more than its own ids. -/
theorem Unused.advance {t' : Txn Db Write} {ws : List Write} (h : Unused o t.seen.length (t.view (engine fk) d))
    (hadv : Advances fk o d t t' ws) (hn : t.seen.length ≤ t'.seen.length)
    (hc : (t'.view (engine fk) d).column .authorizationsExternalReference =
      (t.view (engine fk) d).column .authorizationsExternalReference) :
    Unused o t'.seen.length (t'.view (engine fk) d) where
  ids := hadv.fresh h.ids
  references i hi := by
    rw [hc]
    exact h.references i (by omega)

theorem createAuthorization_ends {recordId : String} {n : Int} {client : Option String} :
    (AuthorizationRepository.create recordId u n client).Ends (engine fk) o d
      (fun a t' => a.Holds recordId u n .authorized ∧
        (t.view (engine fk) d).violation fk (.insertAuthorization a) = none ∧ Advances fk o d t t' [.insertAuthorization a])
      (¬ (Unused o t.seen.length (t.view (engine fk) d) ∧ recordId ∈ (t.view (engine fk) d).column .recordsId ∧
        u ∈ (t.view (engine fk) d).column .usersId ∧
        ∀ c, client = some c → c ∈ (t.view (engine fk) d).column .clientsId)) t := by
  unfold AuthorizationRepository.create
  refine ends_seq (X := False) (P := fun c t' => c = o t.seen.length ∧ t' = t.saw d) ⟨rfl, rfl⟩ False.elim ?_
  rintro _ _ ⟨rfl, rfl⟩
  refine Prog.Ends.mono (insert_ends (f := fun c => (⟨c.uuid, recordId, u, n,
    "sim_card_auth_" ++ AuthorizationRepository.shortHex (o t.seen.length).uuid, none, .authorized, client, c.now⟩ :
      Authorization)) (w := .insertAuthorization)) ?_ ?_
  · rintro a _ ⟨rfl, rfl, hv⟩
    exact ⟨⟨rfl, rfl, rfl, rfl, rfl⟩, hv, (Advances.saw t).trans (Advances.inserted (by simp [Write.keys, idColumns]))⟩
  · rintro hv ⟨hunused, hrecord, huser, hclient⟩
    refine hv (Db.violation_eq_none.2 ⟨fun k hk => ?_, fun _ k hk => ?_, rfl⟩)
    · rcases List.mem_pair.1 hk with rfl | rfl
      · exact hunused.ids.new _ (by simp) .authorizationsId (by decide)
      · exact hunused.references _ (le_refl _)
    · simp only [Write.references, List.mem_cons, Option.mem_toList, Option.map_eq_some_iff] at hk
      rcases hk with rfl | rfl | ⟨c, hc, rfl⟩
      · exact hrecord
      · exact huser
      · exact hclient c hc

/-- What there is to settle of a new authorization is the sale it was made for. -/
theorem settleable_created {n : Int} {a b : Authorization} {q : ResearchRecord} {s : Sale} (hunique : ∀ c, (d.column c).Nodup)
    (hsettled : ∀ x ∈ d.settlements, x.authorizationId ∈ d.column .authorizationsId) (hr : r ∈ d.records)
    (huser : u ∈ d.column .usersId) (ha : a.Holds r.id u n .authorized)
    (hv : d.violation fk (.insertAuthorization a) = none) :
    b.id = a.id ∧ b.Settleable env (d.apply (.insertAuthorization a)) none none q s ↔
      b = a ∧ q = r ∧ s.Available env d r u n := by
  obtain ⟨hfree, -⟩ := Db.violation_eq_none.1 hv
  have hmem : a ∈ (d.apply (.insertAuthorization a)).authorizations := List.mem_append_right _ (List.mem_singleton.2 rfl)
  constructor
  · rintro ⟨hid, hs⟩
    have hunique' : ∀ c, ((d.apply (.insertAuthorization a)).column c).Nodup :=
      (uniqueKeys fk).unique_apply _ (.insertAuthorization a) hunique hfree
    obtain rfl : b = a := List.inj_on_of_nodup_map (hunique' .authorizationsId) hs.authorization hmem hid
    obtain rfl : q = r := List.inj_on_of_nodup_map (hunique .recordsId) hs.record.1 hr (hs.record.2.trans ha.record)
    exact ⟨rfl, rfl, huser, ha.user ▸ hs.sale.of_core rfl, hs.amount.trans ha.amount⟩
  · rintro ⟨rfl, rfl, hs⟩
    refine ⟨rfl, hmem, ha.status, fun hx => ?_, ⟨hr, ha.record.symm⟩, ha.user ▸ hs.due.of_core rfl,
      hs.price.trans ha.amount.symm⟩
    obtain ⟨x, hx, hxa⟩ := List.mem_map.1 (show b.id ∈ d.settlements.map (·.authorizationId) from hx)
    exact hfree (.authorizationsId, b.id) (by simp [Write.keys]) (hxa ▸ hsettled x hx)

/-- Purchasing returns exactly when the sale is available (and ids are new), and books it. -/
theorem purchaseRecord_ends {amount : Option Int} {client : Option String}
    (hunique : ∀ c, ((t.view (engine fk) d).column c).Nodup)
    (hsettled : ∀ x ∈ (t.view (engine fk) d).settlements,
      x.authorizationId ∈ (t.view (engine fk) d).column .authorizationsId)
    (hr : r ∈ (t.view (engine fk) d).records)
    (hclient : ∀ c, client = some c → c ∈ (t.view (engine fk) d).column .clientsId) :
    (purchaseRecord env r.id u amount client).Ends (engine fk) o d
      (fun res t' => ∃ a s x ts, Sale.Available env (t.view (engine fk) d) r u (amount.getD r.priceCents) s ∧
        a.Holds r.id u (amount.getD r.priceCents) .authorized ∧ Sale.RowsOf s a x ts ∧ res = s.result a r x ts ∧
        Advances fk o d t t' (.insertAuthorization a :: .insertSettlement x :: postings ts))
      (¬ (Unused o t.seen.length (t.view (engine fk) d) ∧
        ∃ s, Sale.Available env (t.view (engine fk) d) r u (amount.getD r.priceCents) s)) t := by
  have hrecord : ∀ {q : ResearchRecord}, q ∈ (t.view (engine fk) d).records → q.id = r.id → q = r :=
    fun hq he => List.inj_on_of_nodup_map (hunique .recordsId) hq hr he
  unfold purchaseRecord
  refine ends_seq scalar_ends False.elim ?_
  rintro record _ ⟨rfl, hsome, hnone⟩
  cases record with
  | none => exact absurd (hnone rfl r hr) (by simp)
  | some q =>
  obtain rfl : q = r := hrecord (hsome q rfl).1 (by simpa using (hsome q rfl).2)
  refine ends_seq scalar_ends False.elim ?_
  rintro user _ ⟨rfl, huser, hnouser⟩
  rw [Txn.view_saw] at huser hnouser
  cases user with
  | none =>
    rintro ⟨-, s, hs⟩
    obtain ⟨v, hv, hid⟩ := List.mem_map.1 hs.user
    simpa [hid] using hnouser rfl v hv
  | some v =>
  have huser : u ∈ (t.view (engine fk) d).column .usersId :=
    List.mem_map.2 ⟨v, (huser v rfl).1, by simpa using (huser v rfl).2⟩
  have hg : Advances fk o d t ((t.saw d).saw d) [] := (Advances.saw t).trans (Advances.saw _)
  refine ends_seq createAuthorization_ends ?_ ?_
  · rintro hno ⟨h, -⟩
    exact hno ⟨h.advance hg (by simp) rfl, List.mem_map_of_mem (f := ResearchRecord.id) hr, huser, hclient⟩
  rintro a t₃ ⟨ha, hv, hinsert⟩
  have hadv := hg.trans hinsert
  have hview : t₃.view (engine fk) d = (t.view (engine fk) d).apply (.insertAuthorization a) := hadv.view
  obtain ⟨hfree, -⟩ := Db.violation_eq_none.1 hv
  have hunique₃ : ∀ c, ((t₃.view (engine fk) d).column c).Nodup := by
    rw [hview]
    exact (uniqueKeys fk).unique_apply _ (.insertAuthorization a) hunique hfree
  have hmem : a ∈ (t₃.view (engine fk) d).authorizations := by
    rw [hview]
    exact List.mem_append_right _ (List.mem_singleton.2 rfl)
  have hsettle := @settleAuthorization_ends fk o d t₃ env (some a) a.id none none hunique₃
    fun b hb => Option.some.inj hb ▸ hmem
  rw [hview] at hsettle
  refine hsettle.mono ?_ ?_
  · rintro res t' ⟨b, q', s, x, ts, hid, hs, hbook, rfl, hsettled', hcurrency⟩
    obtain ⟨rfl, rfl, hs⟩ := (settleable_created hunique hsettled hr huser ha hv).1 ⟨hid, hs⟩
    exact ⟨b, s, x, ts, hs, ha, ⟨hbook, hcurrency⟩, rfl, hadv.trans hsettled'⟩
  · rintro hno ⟨h, s, hs⟩
    obtain ⟨hid, hs⟩ := (settleable_created hunique hsettled hr huser ha hv).2 ⟨rfl, rfl, hs⟩
    exact hno ⟨hview ▸ hadv.fresh h.ids, a, q, s, hid, hs⟩

/-! ### `POST /purchase` -/

theorem requireApiKey_ends {q : Request} (hunique : ((t.view (engine fk) d).column .clientsKeyHash).Nodup) :
    (requireApiKey env q.xApiKey).Ends (engine fk) o d
      (fun c t' => t' = t.saw d ∧ c ∈ (t.view (engine fk) d).clients)
      (¬ KeyAccepted env q (t.view (engine fk) d)) t := by
  unfold requireApiKey
  cases hq : q.xApiKey with
  | none =>
    rintro ⟨key, hkey, -⟩
    rw [hq] at hkey
    cases hkey
  | some key =>
  refine ends_seq scalar_ends False.elim ?_
  rintro client _ ⟨rfl, hsome, hnone⟩
  have haccepted : ∀ {c : ApiClient}, c ∈ (t.view (engine fk) d).clients → c.apiKeyHash = env.sha256 key →
      KeyAccepted env q (t.view (engine fk) d) → c.isActive = true := by
    rintro c hc hhash ⟨key', hkey', c', hc', hhash', hactive⟩
    rw [hq] at hkey'
    cases hkey'
    rwa [List.inj_on_of_nodup_map hunique hc hc' (hhash.trans hhash'.symm)]
  cases client with
  | none =>
    rintro ⟨key', hkey', c, hc, hhash, -⟩
    rw [hq] at hkey'
    cases hkey'
    simpa [hhash, ApiClientRepository.hashKey] using hnone rfl c hc
  | some c =>
    obtain ⟨hc, hhash⟩ := hsome c rfl
    have hhash : c.apiKeyHash = env.sha256 key := by simpa [ApiClientRepository.hashKey] using hhash
    show Prog.Ends _ _ _ (if c.isActive then _ else _) _ _ _
    split
    · exact ⟨rfl, hc⟩
    · rename_i hinactive
      exact fun h => hinactive (haccepted hc hhash h)

theorem Sale.Available.congr {s : Sale} {n : Int} (hs : s.Available env d r u n)
    (hu : d'.column .usersId = d.column .usersId)
    (h : d'.accounts.map LedgerAccount.core = d.accounts.map LedgerAccount.core) : s.Available env d' r u n :=
  ⟨hu ▸ hs.user, hs.due.of_core h, hs.price⟩

/-- What a purchase of the record leaves, the sale being booked on `d` with its authorization and the keys. -/
structure Bought (d d' : Db) (r : ResearchRecord) (userId : String) (s : Sale)
    (keys : PurchaseResult → List IdempotencyKey) (a : Authorization) (x : Settlement) (ts : List Transaction) :
    Prop where
  holds : a.Holds r.id userId s.amountCents .authorized
  rows : s.RowsOf a x ts
  db : d' = ({ d with
    authorizations := d.authorizations ++ [a]
    idempotencyKeys := d.idempotencyKeys ++ keys (s.result a r x ts) } : Db).sold s x ts

theorem storeResult_ends {key : String} {res : PurchaseResult} :
    (IdempotencyKeyRepository.storeResult key res).Ends (engine fk) o d
      (fun _ t' => t'.view (engine fk) d = (t.view (engine fk) d).apply (.setResponseBody key res))
      (key ∉ (t.view (engine fk) d).column .idempotencyKeysKey) t := by
  unfold IdempotencyKeyRepository.storeResult
  refine ends_seq scalar_ends False.elim ?_
  rintro stored _ ⟨rfl, hsome, hnone⟩
  cases stored with
  | none =>
    intro hmem
    obtain ⟨k, hk, rfl⟩ := List.mem_map.1 hmem
    simpa using hnone rfl k hk
  | some k =>
    have hk : k.key = key := by simpa using (hsome k rfl).2
    refine (ends_exec _).mono ?_ fun hv => absurd ?_ hv
    · rintro _ _ ⟨rfl, -⟩
      rw [Txn.view_wrote, Txn.view_saw, hk]
      rfl
    · exact Db.violation_eq_none.2 ⟨by simp [Write.keys], by simp [Write.references], rfl⟩

/-- The request once its key is claimed on the rows `b`. -/
theorem purchaseClaimed_ends {b : Db} {key : String} {client : ApiClient} (hb : b.Sound) (hr : r ∈ b.records)
    (hclient : client ∈ b.clients) (hkey : key ∉ b.column .idempotencyKeysKey)
    (hview : t.view (engine fk) d = b.apply (.insertIdempotencyKey ⟨key, none⟩)) :
    (purchaseClaimed env ⟨r.id, u⟩ key client).Ends (engine fk) o d
      (fun res t' => ∃ s a x ts, Sale.Available env b r u r.priceCents s ∧ res = s.result a r x ts ∧
        Bought b (t'.view (engine fk) d) r u s (fun res => [⟨key, some res⟩]) a x ts)
      (¬ (Unused o t.seen.length (t.view (engine fk) d) ∧ ∃ s, Sale.Available env b r u r.priceCents s)) t := by
  have hunique : ∀ c, ((t.view (engine fk) d).column c).Nodup := by
    rw [hview]
    refine (uniqueKeys fk).unique_apply _ (.insertIdempotencyKey ⟨key, none⟩) hb.unique fun k hk => ?_
    rw [List.mem_singleton.1 hk]
    exact hkey
  have hpurchase := @purchaseRecord_ends fk o d t env r u none (some client.id) hunique
    (by rw [hview]; exact hb.authorization) (by rw [hview]; exact hr) (by
      rw [hview]
      rintro _ ⟨⟩
      exact List.mem_map_of_mem (f := ApiClient.id) hclient)
  rw [hview] at hpurchase ⊢
  unfold purchaseClaimed exceptValueError
  refine ends_seq (Prog.ends_tryCatch hpurchase fun e => ?_) ?_ ?_
  · cases he : e.asValueError <;> exact ⟨_, rfl⟩
  · rintro hno ⟨hunused, s, hs⟩
    exact hno ⟨hunused, s, hs.congr rfl rfl⟩
  rintro res t₂ ⟨a, s, x, ts, hs, ha, hrows, rfl, hadv⟩
  have hview₂ : t₂.view (engine fk) d = ({ b with
      authorizations := b.authorizations ++ [a]
      idempotencyKeys := b.idempotencyKeys ++ [⟨key, none⟩] } : Db).sold s x ts := by
    rw [hadv.view, hview, Engine.view_cons, view_sold hrows.booked.posted]
    rfl
  refine ends_seq storeResult_ends ?_ ?_
  · intro hno
    refine absurd ?_ hno
    rw [hview₂]
    simp [Db.sold, Db.column]
  rintro _ t₃ hview₃
  refine ⟨s, a, x, ts, hs.congr rfl rfl, rfl, hs.price ▸ ha, hrows, ?_⟩
  have hold : ∀ k ∈ b.idempotencyKeys, k.key ≠ key := fun k hk he =>
    hkey (List.mem_map.2 ⟨k, hk, he⟩)
  have hstored : updateWhere (·.key == key) (fun k => { k with responseBody := some (s.result a r x ts) })
      (b.idempotencyKeys ++ [⟨key, none⟩]) = b.idempotencyKeys ++ [⟨key, some (s.result a r x ts)⟩] := by
    unfold updateWhere
    rw [List.map_append, List.map_congr_left fun k hk => if_neg (by simpa using hold k hk), List.map_id']
    simp
  rw [hview₃, hview₂]
  simp only [Db.apply, Db.sold, hstored]

/-- The response under a key that is not taken. -/
theorem purchase_ends {key : String} {client : ApiClient} (hd : (t.view (engine fk) d).Sound)
    (hr : r ∈ (t.view (engine fk) d).records) (hclient : client ∈ (t.view (engine fk) d).clients)
    (hkey : key ∉ (t.view (engine fk) d).column .idempotencyKeysKey) :
    (purchase env ⟨r.id, u⟩ key client).Ends (engine fk) o d
      (fun res t' => ∃ s a x ts, Sale.Available env (t.view (engine fk) d) r u r.priceCents s ∧
        res = s.result a r x ts ∧
        Bought (t.view (engine fk) d) (t'.view (engine fk) d) r u s (fun res => [⟨key, some res⟩]) a x ts)
      (¬ (Unused o t.seen.length (t.view (engine fk) d) ∧
        ∃ s, Sale.Available env (t.view (engine fk) d) r u r.priceCents s)) t := by
  have hget : (IdempotencyKeyRepository.get key).Ends (engine fk) o d (fun res t' => res = none ∧ t' = t.saw d)
      False t := by
    refine ends_seq scalar_ends False.elim ?_
    rintro stored _ ⟨rfl, hsome, -⟩
    cases stored with
    | none => exact ⟨rfl, rfl⟩
    | some k =>
      obtain ⟨hk, he⟩ := hsome k rfl
      exact absurd (List.mem_map.2 ⟨k, hk, by simpa using he⟩) hkey
  unfold purchase
  refine ends_seq hget False.elim ?_
  rintro _ _ ⟨rfl, rfl⟩
  let w : Write := .insertIdempotencyKey ⟨key, none⟩
  have hclaim : (engine fk).violation ((t.saw d).view (engine fk) d) w = none :=
    Db.violation_eq_none.2 ⟨by simpa [w, Write.keys] using hkey, by simp [w, Write.references], rfl⟩
  refine ends_seq (P := fun b t' => b = true ∧ t' = (t.saw d).wrote d w) (X := False)
    (Prog.ends_write hclaim ⟨rfl, rfl⟩) False.elim ?_
  rintro _ _ ⟨rfl, rfl⟩
  have hadv : Advances fk o d t ((t.saw d).wrote d w) [w] :=
    (Advances.saw t).trans (Advances.wrote (by simp [w, Write.keys, idColumns]))
  refine (purchaseClaimed_ends hd hr hclient hkey hadv.view).mono (fun _ _ h => h) ?_
  rintro hno ⟨hunused, hs⟩
  refine hno ⟨hunused.advance hadv (by simp) ?_, hs⟩
  rw [hadv.view]
  rfl

/-- The answer to the request is a sale of the record to the user, whose rows it leaves. -/
def Request.Sells (env : Env) (q : Request) (o : Nat → Choice) (d : Db) (r : ResearchRecord) (userId : String)
    (keys : PurchaseResult → List IdempotencyKey) (s : Sale) : Prop :=
  ∃ a x ts d', (genPay env).serve (.request q) o d = (.ok (.purchase (s.result a r x ts)), d') ∧
    Bought d d' r userId s keys a x ts

/-- The answer to the request is an error, which leaves the rows as they are. -/
def Request.Fails (env : Env) (q : Request) (o : Nat → Choice) (d : Db) : Prop :=
  ∃ e, (genPay env).serve (.request q) o d = (.error e, d)

theorem sells_or_fails {q : Request} {keys : PurchaseResult → List IdempotencyKey}
    (hends : ((genPay env).handle (.request q)).Ends (genPay env).toEngine o d
      (fun a t' => ∃ s b x ts, Sale.Available env d r u r.priceCents s ∧ a = .purchase (s.result b r x ts) ∧
        Bought d (t'.view (genPay env).toEngine d) r u s keys b x ts)
      (¬ ∃ s, Sale.Available env d r u r.priceCents s) Txn.fresh) :
    (∃ s, s.Available env d r u r.priceCents ∧ q.Sells env o d r u keys s) ∨
      (¬ ∃ s, Sale.Available env d r u r.priceCents s) ∧ q.Fails env o d := by
  rcases Service.serve_ends hends with ⟨a, t, hserve, s, b, x, ts, hs, rfl, hbought⟩ | ⟨hfails, hno⟩
  · exact Or.inl ⟨s, hs, b, x, ts, _, hserve, hbought⟩
  · exact Or.inr ⟨hno, hfails⟩

theorem serve_purchase {q : Request} {key : String} (hd : d.Sound) (hr : r ∈ d.records)
    (hroute : q.route = .purchase (some ⟨r.id, u⟩) (some key)) (haccepted : KeyAccepted env q d)
    (hkey : key ∉ d.column .idempotencyKeysKey) (hunused : Unused o 0 d) :
    (∃ s, s.Available env d r u r.priceCents ∧ q.Sells env o d r u (fun res => [⟨key, some res⟩]) s) ∨
      (¬ ∃ s, Sale.Available env d r u r.priceCents s) ∧ q.Fails env o d := by
  have hhandle : ((genPay env).handle (.request q)) =
      requireApiKey env q.xApiKey >>= fun client => respond .purchase (purchase env ⟨r.id, u⟩ key client) := by
    show route env q = _
    unfold route
    rw [hroute]
    rfl
  refine sells_or_fails ?_
  rw [hhandle]
  refine ends_seq (requireApiKey_ends (t := Txn.fresh) (hd.unique .clientsKeyHash)) (fun hno => absurd haccepted hno) ?_
  rintro client _ ⟨rfl, hclient⟩
  refine ends_seq (purchase_ends (t := Txn.fresh.saw d) hd hr hclient hkey) ?_ ?_
  · exact fun hno hs => hno ⟨hunused.advance (Advances.saw Txn.fresh) (by simp) rfl, hs⟩
  · rintro res t' ⟨s, b, x, ts, hs, rfl, hbought⟩
    exact ⟨s, b, x, ts, hs, rfl, hbought⟩

/-! ### `POST /webhooks/card-auth` -/

theorem roundHalfEven_exact (n : Int) (k : Nat) : roundHalfEven (n * 10 ^ k) k = n := by
  have hpos : (0 : Int) < 10 ^ k := by positivity
  unfold roundHalfEven
  simp only [Int.mul_ediv_cancel n hpos.ne', Int.mul_emod_left, mul_zero]
  rw [if_pos (Or.inl hpos)]

/-- `round(amount * 100)` of an exact amount. -/
theorem centsOf_exact {amount : Decimal} {n : Int}
    (hn : (amount.coefficient : ℚ) * 10 ^ amount.exponent = n / 100)
    (hexact : Decimal.inContext ⟨amount.coefficient * 100, amount.exponent⟩ =
      .ok ⟨amount.coefficient * 100, amount.exponent⟩) : centsOf amount = .ok n := by
  unfold centsOf
  rw [hexact]
  refine congrArg Except.ok ?_
  unfold Decimal.round
  dsimp only
  split
  · rename_i he
    obtain ⟨k, hk⟩ := Int.eq_ofNat_of_zero_le he
    rw [hk, zpow_natCast] at hn
    rw [hk, Int.toNat_natCast]
    have : ((amount.coefficient * 100 * 10 ^ k : Int) : ℚ) = (n : ℚ) := by
      push_cast
      linarith
    exact_mod_cast this
  · rename_i he
    obtain ⟨k, hk⟩ := Int.eq_ofNat_of_zero_le (a := -amount.exponent) (by omega)
    have hcoefficient : amount.coefficient * 100 = n * 10 ^ k := by
      have hten : (10 : ℚ) ^ k ≠ 0 := by positivity
      rw [show amount.exponent = -(k : Int) by omega, zpow_neg, zpow_natCast] at hn
      have : ((amount.coefficient * 100 : Int) : ℚ) = ((n * 10 ^ k : Int) : ℚ) := by
        push_cast
        field_simp at hn
        linarith
      exact_mod_cast this
    rw [hk, Int.toNat_natCast, hcoefficient]
    exact roundHalfEven_exact n k

/-- The event asks for the record, for this user and for exactly its price. -/
structure CardAuthorizationEvent.Buys (event : CardAuthorizationEvent) (r : ResearchRecord) (userId : String) :
    Prop where
  type : event.eventType = "card_authorization"
  record : event.recordId = r.recordReference
  user : event.userId = some userId
  amount : (event.amount.coefficient : ℚ) * 10 ^ event.amount.exponent = r.priceCents / 100
  /-- The product with 100 is not rounded. -/
  exact : Decimal.inContext ⟨event.amount.coefficient * 100, event.amount.exponent⟩ =
    .ok ⟨event.amount.coefficient * 100, event.amount.exponent⟩

theorem handleCardAuthorization_ends {event : CardAuthorizationEvent} (hd : (t.view (engine fk) d).Sound)
    (hr : r ∈ (t.view (engine fk) d).records) (he : event.Buys r u) :
    (handleCardAuthorization env event).Ends (engine fk) o d
      (fun res t' => ∃ s a x ts, Sale.Available env (t.view (engine fk) d) r u r.priceCents s ∧
        res = s.result a r x ts ∧
        Bought (t.view (engine fk) d) (t'.view (engine fk) d) r u s (fun _ => []) a x ts)
      (¬ (Unused o t.seen.length (t.view (engine fk) d) ∧
        ∃ s, Sale.Available env (t.view (engine fk) d) r u r.priceCents s)) t := by
  unfold handleCardAuthorization
  rw [if_neg (not_not.2 he.type)]
  refine ends_seq scalar_ends False.elim ?_
  rintro record _ ⟨rfl, hsome, hnone⟩
  cases record with
  | none => exact absurd (hnone rfl r hr) (by simp [he.record])
  | some q =>
  obtain ⟨hq, hreference⟩ := hsome q rfl
  obtain rfl : q = r := List.inj_on_of_nodup_map (hd.unique .recordsReference) hq hr
    ((beq_iff_eq.1 hreference).trans he.record)
  have huser : settlingUser event = Prog.ret u := by
    unfold settlingUser
    rw [he.user]
    rfl
  rw [huser]
  refine ends_seq (X := False) (P := fun x t' => x = u ∧ t' = t.saw d) ⟨rfl, rfl⟩ False.elim ?_
  rintro _ _ ⟨rfl, rfl⟩
  refine ends_seq scalar_ends False.elim ?_
  rintro client _ ⟨rfl, hclient, -⟩
  rw [centsOf_exact he.amount he.exact]
  have hadv : Advances fk o d t ((t.saw d).saw d) [] := (Advances.saw t).trans (Advances.saw _)
  refine (purchaseRecord_ends (t := (t.saw d).saw d) hd.unique hd.authorization hq ?_).mono ?_ ?_
  · intro c hc
    obtain ⟨x, rfl, rfl⟩ := Option.map_eq_some_iff.1 hc
    exact List.mem_map_of_mem (f := ApiClient.id) (hclient x rfl).1
  · rintro res t' ⟨a, s, x, ts, hs, ha, hrows, rfl, hadv'⟩
    refine ⟨s, a, x, ts, hs, rfl, hs.price ▸ ha, hrows, ?_⟩
    rw [hadv'.view, Engine.view_cons, view_sold hrows.booked.posted, List.append_nil]
    rfl
  · exact fun hno h => hno ⟨h.1.advance hadv (by simp) rfl, h.2⟩

theorem serve_cardAuthorization {q : Request} {event : CardAuthorizationEvent} (hd : d.Sound) (hr : r ∈ d.records)
    (hroute : q.route = .cardAuthorization) (hparse : env.parseCardAuthorization q.rawBody = .ok event)
    (he : event.Buys r u) (hunused : Unused o 0 d) :
    (∃ s, s.Available env d r u r.priceCents ∧ q.Sells env o d r u (fun _ => []) s) ∨
      (¬ ∃ s, Sale.Available env d r u r.priceCents s) ∧ q.Fails env o d := by
  have hhandle : ((genPay env).handle (.request q)) =
      respond .purchase (exceptValueError (handleCardAuthorization env event) (httpError 400)) := by
    show route env q = _
    unfold route
    rw [hroute]
    show respond .purchase (cardAuthorization env q.rawBody) = _
    unfold cardAuthorization
    rw [hparse]
  refine sells_or_fails ?_
  rw [hhandle]
  refine ends_seq (Prog.ends_tryCatch (handleCardAuthorization_ends (t := Txn.fresh) hd hr he) fun e => ?_) ?_ ?_
  · cases hvalue : e.asValueError <;> exact ⟨_, rfl⟩
  · exact fun hno hs => hno ⟨hunused, hs⟩
  · rintro res t' ⟨s, b, x, ts, hs, rfl, hbought⟩
    exact ⟨s, b, x, ts, hs, rfl, hbought⟩

end GenPay
