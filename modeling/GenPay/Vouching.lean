import GenPay.Runs

/-!
# What the code checks of the rows it refers to

The references of an authorization are to rows that its transaction has read, and its columns are those the request
asks for.  The references of an archive or a record that a request creates are checked by the engine or by nobody.
`Vouched` says so of a transaction, and `vouched` is the discipline of the service with this knowledge.
-/

namespace GenPay

open ReadCommitted
open Prog (onOk wp_seq wp_imp wp_tryCatch)

/-- The rows that a request names and the code does not look for. -/
def Job.named : Job → List (Column × String)
  | .request r => match r.route with
    | .createArchive (some data) => (data.ownerUserId.map fun u => (Column.usersId, u)).toList
    | .createRecord (some data) =>
      (.archivesId, data.archiveId) :: (data.transcriptionistUserId.map fun u => (Column.usersId, u)).toList
    | _ => []
  | _ => []

/-- A reference to a row that the transaction has seen or inserts itself, or, where the engine does not check foreign
keys, to one that the request names. -/
def Backed (env : Env) (job : Job) (t : Txn Db Write) (k : Column × String) : Prop :=
  (∃ d ∈ t.seen, k.2 ∈ d.column k.1) ∨ k ∈ (uniqueKeys env.foreignKeys).all t.writes ∨
    (env.foreignKeys = false ∧ k ∈ job.named)

/-- The active client whose key the request shows. -/
def ApiClient.Authenticated (env : Env) (r : Request) (d : Db) (c : ApiClient) : Prop :=
  c ∈ d.clients ∧ c.isActive = true ∧ ∃ key, r.xApiKey = some key ∧ c.apiKeyHash = env.sha256 key

/-- What the request has said of the authorization that it inserts. -/
def AskedFor (env : Env) (ds : List Db) (a : Authorization) : Job → Prop
  | .request r => match r.route with
    | .purchase data _ => ∃ data', data = some data' ∧ a.researchRecordId = data'.researchRecordId ∧
        a.userId = data'.userId ∧ ∃ d ∈ ds, ∃ c : ApiClient, c.Authenticated env r d ∧
          a.createdByClientId = some c.id
    | .processorEvents => ∃ envelope data, env.parseEnvelope r.rawBody = .ok envelope ∧
        envelope.eventType = .authorizationCreated ∧ env.validateCreated envelope.data = .ok data ∧
        a.amountCents = data.amountCents
    | _ => True
  | _ => True

/-- The inserts whose references the code has to check. -/
def Write.refers : Write → Bool
  | .insertAuthorization _ | .insertArchive _ | .insertRecord _ => true
  | _ => false

structure Vouched (env : Env) (job : Job) (t : Txn Db Write) : Prop where
  backed : ∀ w ∈ t.writes, w.refers = true → ∀ k ∈ w.references, Backed env job t k
  asked : ∀ a, .insertAuthorization a ∈ t.writes → AskedFor env t.seen a job

variable {fk : Bool} {o : Nat → Choice} {t t' : Txn Db Write} {env : Env} {job : Job}

theorem vouched_of_not_refers (h : ∀ w ∈ t.writes, w.refers = false) : Vouched env job t where
  backed w hw hr := by
    rw [h w hw] at hr
    cases hr
  asked a ha := by
    have := h _ ha
    cases this

/-! ### The references of an insert -/

theorem view_users {d : Db} {ws : List Write} (h : ∀ w ∈ ws, w.isEntity = false) :
    ((engine fk).view d ws).users = d.users := by
  have hv : ((engine fk).view d ws).users = d.users ++ ws.filterMap Write.user? :=
    (userTable fk).rows_view_of_untouched (fun _ _ _ => rfl) d
  have hnone : ws.filterMap Write.user? = [] := List.filterMap_eq_nil_iff.2 fun w hw => by
    have := h w hw
    cases w <;> first | rfl | simp [Write.isEntity] at this
  rw [hv, hnone, List.append_nil]

theorem view_clients {d : Db} {ws : List Write} (h : ∀ w ∈ ws, w.isEntity = false) :
    ((engine fk).view d ws).clients = d.clients := by
  have hv : ((engine fk).view d ws).clients = d.clients ++ ws.filterMap Write.client? :=
    (clientTable fk).rows_view_of_untouched (fun _ _ _ => rfl) d
  have hnone : ws.filterMap Write.client? = [] := List.filterMap_eq_nil_iff.2 fun w hw => by
    have := h w hw
    cases w <;> first | rfl | simp [Write.isEntity] at this
  rw [hv, hnone, List.append_nil]

/-- An engine that checks foreign keys backs every reference. -/
theorem exec_backed (job : Job) {w : Write} : (Prog.exec w : Tx Unit).wp (engine env.foreignKeys) o (onOk fun _ t' =>
    ∃ d, t' = t.wrote d w ∧ ∀ k ∈ w.references, k ∈ job.named → Backed env job t' k) t := by
  refine Prog.wp_exec fun d hv => ⟨d, rfl, fun k hk hn => ?_⟩
  cases hfk : env.foreignKeys with
  | false => exact Or.inr (Or.inr ⟨hfk, hn⟩)
  | true =>
    have hmem : k.2 ∈ ((engine env.foreignKeys).view d t.writes).column k.1 :=
      (Db.violation_eq_none.1 hv).2.1 hfk k hk
    rcases (uniqueKeys env.foreignKeys).mem_view.1 hmem with hold | hnew
    · exact Or.inl ⟨d, by simp, hold⟩
    · refine Or.inr (Or.inl ?_)
      rw [Txn.wrote_writes, Keys.all_append]
      exact List.mem_append_left _ hnew

theorem Backed.grow {k : Column × String} {ws : List Write} (h : Backed env job t k) (hg : t.Grew t' ws) :
    Backed env job t' k := by
  rcases h with h | h | h
  · exact Or.inl (hg.exists_mem h)
  · refine Or.inr (Or.inl ?_)
    rw [hg.writes, Keys.all_append]
    exact List.mem_append_left _ h
  · exact Or.inr (Or.inr h)

/-! ### Authorizations -/

/-- An authorization with these columns, whose references have been read in the databases `ds`. -/
structure Authorization.Named (ds : List Db) (recordId userId : String) (client : Option String) (a : Authorization) :
    Prop where
  columns : a.researchRecordId = recordId ∧ a.userId = userId ∧ a.createdByClientId = client
  record : ∃ d ∈ ds, recordId ∈ d.column .recordsId
  user : ∃ d ∈ ds, userId ∈ d.column .usersId

theorem Authorization.Named.backed {recordId userId : String} {client : Option String} {a : Authorization}
    (h : a.Named t.seen recordId userId client) (hc : ∀ c, client = some c → ∃ d ∈ t.seen, c ∈ d.column .clientsId) :
    ∀ k ∈ (Write.insertAuthorization a).references, Backed env job t k := by
  intro k hk
  obtain ⟨rfl, rfl, rfl⟩ := h.columns
  simp only [Write.references, List.mem_cons, Option.mem_toList, Option.map_eq_some_iff] at hk
  rcases hk with rfl | rfl | ⟨c, hc', rfl⟩
  · exact Or.inl h.record
  · exact Or.inl h.user
  · exact Or.inl (hc c hc')

theorem Authorization.Named.mono {ds ds' : List Db} {recordId userId : String} {client : Option String}
    {a : Authorization} (h : a.Named ds recordId userId client) (hs : ∀ d ∈ ds, d ∈ ds') :
    a.Named ds' recordId userId client where
  columns := h.columns
  record := h.record.imp fun d hd => ⟨hs d hd.1, hd.2⟩
  user := h.user.imp fun d hd => ⟨hs d hd.1, hd.2⟩

theorem create_names {r u : String} {amount : Int} {client : Option String} :
    (AuthorizationRepository.create r u amount client).wp (engine fk) o (onOk fun a t' =>
      t.Grew t' [.insertAuthorization a] ∧ a.researchRecordId = r ∧ a.userId = u ∧ a.createdByClientId = client) t := by
  refine wp_seq draw_spec ?_
  rintro c _ ⟨d, rfl⟩
  refine wp_imp insert_spec ?_
  rintro _ t' ⟨hg, c, rfl⟩
  exact ⟨(Txn.Grew.saw t d).trans hg, rfl, rfl, rfl⟩

theorem createPending_names {r u reference : String} {amount : Int} {client : Option String} :
    (AuthorizationRepository.createPending r u amount reference client).wp (engine fk) o (onOk fun a t' =>
      t.Grew t' [.insertAuthorization a] ∧ a.amountCents = amount ∧
        a.researchRecordId = r ∧ a.userId = u ∧ a.createdByClientId = client) t := by
  refine wp_imp insert_spec ?_
  rintro _ t' ⟨hg, c, rfl⟩
  exact ⟨hg, rfl, rfl, rfl, rfl⟩

theorem purchaseRecord_names {recordId userId : String} {amount : Option Int} {client : Option String}
    (h : ∀ w ∈ t.writes, w.isEntity = false) :
    (purchaseRecord env recordId userId amount client).wp (engine fk) o (onOk fun res t' => ∃ a ws,
      t.Grew t' (.insertAuthorization a :: ws) ∧ (∀ w ∈ ws, w.refers = false) ∧ res.authorizationId = a.id ∧
      a.Named t'.seen recordId userId client) t := by
  unfold purchaseRecord
  refine wp_seq scalar_spec ?_
  rintro r _ ⟨d₁, rfl, hr, -⟩
  cases r with
  | none => exact True.intro
  | some r =>
    refine wp_seq scalar_spec ?_
    rintro u _ ⟨d₂, rfl, hu, -⟩
    cases u with
    | none => exact True.intro
    | some u =>
      obtain ⟨hr, hrid⟩ := hr r rfl
      obtain ⟨hu, huid⟩ := hu u rfl
      rw [view_records h] at hr
      rw [Txn.saw_writes, view_users h] at hu
      refine wp_seq create_names ?_
      rintro a t₃ ⟨hg₃, hcolumns⟩
      have h₃ : ∀ w ∈ t₃.writes, w.isEntity = false := by
        intro w hw
        rw [hg₃.writes] at hw
        rcases List.mem_append.1 hw with hw | hw
        · exact h w hw
        · rw [List.mem_singleton.1 hw]; rfl
      refine wp_imp (settleAuthorization_spec h₃) ?_
      rintro res t₄ ⟨p, rfl, rfl, hg₄, -⟩
      have hg := ((Txn.Grew.saw t d₁).trans (Txn.Grew.saw _ d₂)).trans (hg₃.trans hg₄)
      refine ⟨p.authorization, p.writes, hg, fun w hw => ?_, rfl, hcolumns, ?_, ?_⟩
      · have := Purchase.writes_kind hw
        cases w <;> first | rfl | simp [Write.isEntity, Write.isAuthorization] at this
      · refine (hg₃.trans hg₄).exists_mem ⟨d₁, by simp, ?_⟩
        exact List.mem_map.2 ⟨r, hr, by simpa using hrid⟩
      · refine (hg₃.trans hg₄).exists_mem ⟨d₂, by simp, ?_⟩
        exact List.mem_map.2 ⟨u, hu, by simpa using huid⟩

/-- A transaction that has inserted one authorization and referred to nothing else. -/
theorem vouched_of_authorization (a : Authorization) (ws ws' : List Write)
    (hw : t.writes = ws ++ .insertAuthorization a :: ws') (hws : ∀ w ∈ ws, w.refers = false)
    (hws' : ∀ w ∈ ws', w.refers = false) (hb : ∀ k ∈ (Write.insertAuthorization a).references, Backed env job t k)
    (ha : AskedFor env t.seen a job) : Vouched env job t := by
  have hone : ∀ w ∈ t.writes, w.refers = true → w = .insertAuthorization a := by
    intro w hmem hr
    rw [hw, List.mem_append, List.mem_cons] at hmem
    rcases hmem with hmem | rfl | hmem
    · rw [hws w hmem] at hr
      cases hr
    · rfl
    · rw [hws' w hmem] at hr
      cases hr
  refine ⟨fun w hmem hr => ?_, fun b hmem => ?_⟩
  · rw [hone w hmem hr]
    exact hb
  · cases hone _ hmem rfl
    exact ha

/-! ### Requests -/

section Requests

variable {r : Request}

theorem requireApiKey_client :
    (requireApiKey env r.xApiKey).wp (engine fk) o (onOk fun c t' => ∃ d, t' = t.saw d ∧
      c.Authenticated env r ((engine fk).view d t.writes)) t := by
  unfold requireApiKey
  split
  · exact True.intro
  · rename_i key hkey
    refine wp_seq scalar_spec ?_
    rintro client _ ⟨d, rfl, hc, -⟩
    cases client with
    | none => exact True.intro
    | some client =>
      obtain ⟨hmem, hhash⟩ := hc client rfl
      show Prog.wp _ _ (if client.isActive = true then _ else _) _ _
      split
      · rename_i hactive
        exact ⟨d, rfl, hmem, hactive, key, hkey, by simpa [ApiClientRepository.hashKey] using hhash⟩
      · exact True.intro

theorem withApiKey_client {β : Type} {p : ApiClient → Tx β} {Q : β → Txn Db Write → Prop} (h : t.writes = [])
    (hp : ∀ client d, client.Authenticated env r d → (p client).wp (engine fk) o (onOk Q) (t.saw d)) :
    (withApiKey env r p).wp (engine fk) o (onOk Q) t := by
  refine wp_seq requireApiKey_client ?_
  rintro client _ ⟨d, rfl, hk⟩
  rw [h, Engine.view_nil] at hk
  exact hp client d hk

theorem purchase_vouched {data : PurchaseRequest} {key : String} {client : ApiClient} {d : Db} {x : Option String}
    (hr : r.route = .purchase (some data) x) (hw : t.writes = []) (hd : d ∈ t.seen)
    (hc : client.Authenticated env r d) : (purchase env data key client).wp (engine env.foreignKeys) o
      (onOk fun _ t' => Vouched env (.request r) t') t := by
  unfold purchase
  refine wp_seq idempotencyKeyGet_spec ?_
  rintro cached _ ⟨d₁, rfl, -⟩
  cases cached with
  | some cached => exact vouched_of_not_refers (by simp [hw])
  | none =>
    refine wp_seq tryClaim_spec ?_
    rintro b t₂ (⟨rfl, d₂, rfl⟩ | ⟨rfl, -⟩)
    · show Prog.wp _ _ (if true = true then _ else _) _ _
      rw [if_pos rfl]
      unfold purchaseClaimed
      refine wp_seq (exceptValueError_spec (purchaseRecord_names (by simp [hw, Write.isEntity]))) ?_
      rintro result t₃ ⟨a, ws, hg₃, hws, -, ha⟩
      refine wp_seq storeResult_spec ?_
      rintro _ t₄ hg₄
      have hg := (((Txn.Grew.saw t d₁).trans (Txn.Grew.wrote _ d₂ _)).trans hg₃).trans hg₄
      have hnamed := ha.mono fun d hd => hg₄.mem hd
      have hclient : d ∈ t₄.seen := hg.mem hd
      refine vouched_of_authorization a [.insertIdempotencyKey ⟨key, none⟩]
        (ws ++ [.setResponseBody key result]) ?_ ?_ ?_ (hnamed.backed ?_) ?_
      · rw [hg.writes, hw]
        simp
      · simp [Write.refers]
      · intro w hmem
        rcases List.mem_append.1 hmem with hmem | hmem
        · exact hws w hmem
        · rw [List.mem_singleton.1 hmem]; rfl
      · intro c he
        cases he
        exact ⟨d, hclient, List.mem_map_of_mem (f := ApiClient.id) hc.1⟩
      · simp only [AskedFor, hr]
        exact ⟨data, rfl, hnamed.columns.1, hnamed.columns.2.1, d, hclient, client, hc, hnamed.columns.2.2⟩
    · exact True.intro

theorem getByName_spec {name : String} : (ApiClientRepository.getByName name).wp (engine fk) o
    (onOk fun c t' => ∃ d, t' = t.saw d ∧ ∀ x, c.map (·.id) = some x →
      x ∈ ((engine fk).view d t.writes).column .clientsId) t := by
  refine wp_imp scalar_spec ?_
  rintro c _ ⟨d, rfl, hc, -⟩
  refine ⟨d, rfl, fun x hx => ?_⟩
  obtain ⟨c, rfl, rfl⟩ := Option.map_eq_some_iff.1 hx
  exact List.mem_map_of_mem (f := ApiClient.id) (hc c rfl).1

theorem cardAuthorization_vouched (hr : r.route = .cardAuthorization) :
    (cardAuthorization env r.rawBody).wp (engine env.foreignKeys) o (onOk fun _ t' => Vouched env (.request r) t')
      Txn.fresh := by
  unfold cardAuthorization
  split
  · exact True.intro
  · refine exceptValueError_spec ?_
    unfold handleCardAuthorization
    split
    · exact True.intro
    · refine wp_seq scalar_read ?_
      intro record t₁ hg₁
      cases record with
      | none => exact True.intro
      | some record =>
        refine wp_seq settlingUser_read ?_
        intro userId t₂ hg₂
        refine wp_seq getByName_spec ?_
        rintro client _ ⟨d, rfl, hc⟩
        refine wp_seq ofExcept_read ?_
        intro amount t₄ hg₄
        have hw₂ : t₂.writes = [] := by
          rw [hg₂.writes, hg₁.writes]
          rfl
        have hw : t₄.writes = [] := by
          rw [hg₄.writes, Txn.saw_writes, hw₂]
          rfl
        rw [hw₂, Engine.view_nil] at hc
        refine wp_imp (purchaseRecord_names (by simp [hw])) ?_
        rintro result t₅ ⟨a, ws, hg₅, hws, -, ha⟩
        refine vouched_of_authorization a [] ws ?_ (by simp) hws (ha.backed ?_) ?_
        · rw [hg₅.writes, hw]
        · exact fun c he => ⟨d, (hg₄.trans hg₅).mem (by simp), hc c he⟩
        · simp only [AskedFor, hr]

theorem handleAuthorizationCreated_vouched {envelope : ProcessorEventEnvelope} (hr : r.route = .processorEvents)
    (hparse : env.parseEnvelope r.rawBody = .ok envelope) (he : envelope.eventType = .authorizationCreated)
    (h : t.writes = [.insertEvent envelope.event]) : (handleAuthorizationCreated env envelope.data).wp
      (engine env.foreignKeys) o (onOk fun _ t' => Vouched env (.request r) t') t := by
  have hE : ∀ w ∈ t.writes, w.isEntity = false := by simp [h, Write.isEntity]
  unfold handleAuthorizationCreated
  refine wp_seq modelValidate_spec ?_
  rintro data t ⟨rfl, hdata⟩
  refine wp_seq scalar_read ?_
  intro existing t₁ hg₁
  have hw₁ : t₁.writes = t.writes := by simpa using hg₁.writes
  cases existing with
  | some a => exact True.intro
  | none =>
    refine wp_seq scalar_spec ?_
    rintro record _ ⟨d₂, rfl, hrecord, -⟩
    cases record with
    | none => exact True.intro
    | some record =>
      refine wp_seq scalar_spec ?_
      rintro u _ ⟨d₃, rfl, hu, -⟩
      cases u with
      | none => exact True.intro
      | some u =>
        refine wp_seq getByName_spec ?_
        rintro client _ ⟨d₄, rfl, hc⟩
        refine wp_seq createPending_names ?_
        rintro a t₅ ⟨hg₅, hamount, hcolumns⟩
        obtain ⟨hrecord, hrid⟩ := hrecord record rfl
        obtain ⟨hu, huid⟩ := hu u rfl
        simp only [Txn.saw_writes, hw₁, view_records hE, view_users hE] at hrecord hu
        simp only [Txn.saw_writes, hw₁, Db.column, view_clients hE] at hc
        have hnamed : a.Named t₅.seen data.merchantReference.researchRecordId data.merchantReference.userId
            (client.map (·.id)) :=
          { columns := hcolumns
            record := ⟨d₂, hg₅.mem (by simp), List.mem_map.2 ⟨record, hrecord, by simpa using hrid⟩⟩
            user := ⟨d₃, hg₅.mem (by simp), List.mem_map.2 ⟨u, hu, by simpa using huid⟩⟩ }
        refine vouched_of_authorization a [.insertEvent envelope.event] [] ?_
          (by simp [Write.refers]) (by simp) (hnamed.backed fun c hc' => ⟨d₄, hg₅.mem (by simp), hc c hc'⟩) ?_
        · rw [hg₅.writes]
          simp [hw₁, h]
        · simp only [AskedFor, hr]
          exact ⟨envelope, data, hparse, he, hdata, hamount⟩

theorem refers_of_event {envelope : ProcessorEventEnvelope} {act : Action} (h : AnswersEvent env envelope act)
    (he : envelope.eventType ≠ .authorizationCreated) : ∀ w ∈ act.writes, w.refers = false := by
  unfold AnswersEvent at h
  split at h
  · rename_i htype
    exact absurd htype he
  · obtain ⟨data, a, -, -, rfl⟩ := h
    simp [Action.writes, Write.refers]
  · obtain ⟨data, a, -, -, rfl⟩ := h
    simp [Action.writes, Write.refers]
  · obtain ⟨data, ps, -, -, rfl⟩ := h
    intro w hw
    rcases List.mem_cons.1 hw with rfl | hw
    · rfl
    · obtain ⟨p, -, hw⟩ := List.mem_flatMap.1 hw
      have := Purchase.writes_kind hw
      cases w <;> first | rfl | simp [Write.isEntity, Write.isAuthorization] at this

theorem handleEvent_vouched {envelope : ProcessorEventEnvelope} (hr : r.route = .processorEvents)
    (hparse : env.parseEnvelope r.rawBody = .ok envelope) (hw : t.writes = [.insertEvent envelope.event]) :
    (handleEvent env envelope).wp (engine env.foreignKeys) o (onOk fun _ t' => Vouched env (.request r) t') t := by
  unfold handleEvent
  refine wp_tryCatch ?_ fun e t' => by cases e <;> exact True.intro
  cases he : envelope.eventType with
  | authorizationCreated => exact handleAuthorizationCreated_vouched hr hparse he hw
  | authorizationApproved =>
    refine wp_imp (handleAuthorizationApproved_spec he hw) ?_
    rintro _ t' ⟨act, hact, -, hans⟩
    exact vouched_of_not_refers (hact ▸ refers_of_event hans (by simp [he]))
  | authorizationDeclined =>
    refine wp_imp (handleAuthorizationDeclined_spec he hw) ?_
    rintro _ t' ⟨act, hact, -, hans⟩
    exact vouched_of_not_refers (hact ▸ refers_of_event hans (by simp [he]))
  | settlementCompleted =>
    refine wp_imp (handleSettlementCompleted_spec he hw) ?_
    rintro _ t' ⟨act, hact, -, hans⟩
    exact vouched_of_not_refers (hact ▸ refers_of_event hans (by simp [he]))

theorem processorEvents_vouched (hr : r.route = .processorEvents) :
    (processorEvents env r.rawBody).wp (engine env.foreignKeys) o (onOk fun _ t' => Vouched env (.request r) t')
      Txn.fresh := by
  unfold processorEvents
  split
  · exact True.intro
  · rename_i envelope hparse
    unfold processEnvelope
    refine wp_seq tryClaim_spec ?_
    rintro b t₁ (⟨rfl, d, rfl⟩ | ⟨rfl, d, d', rfl, -⟩)
    · show Prog.wp _ _ (if true = true then _ else _) _ _
      rw [if_pos rfl]
      unfold processClaimed
      exact wp_seq (exceptValueError_spec (handleEvent_vouched hr hparse rfl)) fun _ _ h => h
    · show Prog.wp _ _ (if false = true then _ else _) _ _
      rw [if_neg (by decide)]
      exact vouched_of_not_refers (by simp)

theorem createUser_vouched {data : UserCreate} (h : t.writes = []) : (createUser data).wp (engine fk) o
    (onOk fun _ t' => Vouched env job t') t := by
  refine wp_seq UserRepository.create_spec ?_
  intro u t₁ hg₁
  refine wp_seq LedgerAccountRepository.createAccount_spec ?_
  rintro x t₂ ⟨hg₂, -⟩
  refine vouched_of_not_refers ?_
  rw [hg₂.writes, hg₁.writes, h]
  simp [Write.refers]

/-- A created archive or record: the only references of the transaction are those that the request names. -/
theorem vouched_of_named {w₀ : Write} (ws : List Write) (hw : t.writes = w₀ :: ws) (hws : ∀ w ∈ ws, w.refers = false)
    (hnot : ∀ a, w₀ ≠ .insertAuthorization a) (hb : ∀ k ∈ w₀.references, Backed env job t k) : Vouched env job t where
  backed w hmem hr := by
    rw [hw, List.mem_cons] at hmem
    rcases hmem with rfl | hmem
    · exact hb
    · rw [hws w hmem] at hr
      cases hr
  asked a ha := by
    rw [hw, List.mem_cons] at ha
    rcases ha with he | ha
    · exact absurd he.symm (hnot a)
    · have := hws _ ha
      cases this

theorem createArchive_vouched {data : HistoricalArchiveCreate} (hr : r.route = .createArchive (some data))
    (h : t.writes = []) : (createArchive data).wp (engine env.foreignKeys) o
      (onOk fun _ t' => Vouched env (.request r) t') t := by
  refine wp_seq (P := fun a t' => t.Grew t' [.insertArchive a] ∧ a.ownerUserId = data.ownerUserId ∧
    ∀ k ∈ (Write.insertArchive a).references, Backed env (.request r) t' k) ?_ ?_
  · refine wp_seq draw_spec ?_
    rintro c _ ⟨d, rfl⟩
    refine wp_seq (exec_backed (.request r)) ?_
    rintro _ _ ⟨d', rfl, hb⟩
    refine ⟨(Txn.Grew.saw t d).trans (Txn.Grew.wrote _ d' _), rfl, fun k hk => hb k hk ?_⟩
    simp only [Job.named, hr]
    exact hk
  · rintro a t₁ ⟨hg₁, -, hb⟩
    refine wp_seq LedgerAccountRepository.createAccount_spec ?_
    rintro x t₂ ⟨hg₂, -⟩
    refine vouched_of_named [.insertAccount x] ?_ (by simp [Write.refers]) (fun _ => by simp)
      fun k hk => (hb k hk).grow hg₂
    rw [hg₂.writes, hg₁.writes, h]
    rfl

theorem createRecord_vouched {data : ResearchRecordCreate} (hr : r.route = .createRecord (some data))
    (h : t.writes = []) : (createRecord data).wp (engine env.foreignKeys) o
      (onOk fun _ t' => Vouched env (.request r) t') t := by
  refine wp_seq draw_spec ?_
  rintro c _ ⟨d, rfl⟩
  refine wp_seq (exec_backed (.request r)) ?_
  rintro _ _ ⟨d', rfl, hb⟩
  refine vouched_of_named [] (by simp [h]) (by simp) (fun _ => by simp) fun k hk => hb k hk ?_
  simp only [Job.named, hr]
  exact hk

end Requests

/-! ### All jobs -/

/-- The seeded record refers to the archive and the transcriptionist seeded with it. -/
theorem seedRows_vouched (h : t.writes = []) :
    (seedRows env).wp (engine fk) o (onOk fun _ t' => Vouched env .seed t') t := by
  unfold seedRows
  refine wp_seq ApiClientRepository.create_spec ?_
  rintro admin t₁ ⟨hg₁, -⟩
  refine wp_seq draw_spec ?_
  rintro key _ ⟨d, rfl⟩
  refine wp_seq ApiClientRepository.create_spec ?_
  rintro processor t₂ ⟨hg₂, -⟩
  refine wp_seq LedgerAccountRepository.createAccount_spec ?_
  rintro platform t₃ ⟨hg₃, -⟩
  refine wp_seq (P := fun a t' => ∃ x, t₃.Grew t' [.insertArchive a, .insertAccount x] ∧ a.ownerUserId = none) ?_ ?_
  · refine wp_seq insert_spec ?_
    rintro _ t' ⟨hg, c, rfl⟩
    refine wp_seq LedgerAccountRepository.createAccount_spec ?_
    rintro x t'' ⟨hg', -⟩
    exact ⟨x, hg.trans hg', rfl⟩
  rintro a t₄ ⟨aAccount, hg₄, howner⟩
  have user : ∀ data t, (createUser data).wp (engine fk) o (onOk fun u t' => ∃ x,
      t.Grew t' [.insertUser u, .insertAccount x]) t := by
    intro data t
    refine wp_seq UserRepository.create_spec fun u t' hg => ?_
    refine wp_seq LedgerAccountRepository.createAccount_spec ?_
    rintro x t'' ⟨hg', -⟩
    exact ⟨x, hg.trans hg'⟩
  refine wp_seq (user _ _) ?_
  rintro u t₅ ⟨uAccount, hg₅⟩
  refine wp_seq (user _ _) ?_
  rintro v t₆ ⟨vAccount, hg₆⟩
  refine wp_seq insert_spec ?_
  rintro _ t₇ ⟨hg₇, c, rfl⟩
  have hg := ((((((hg₁.trans (Txn.Grew.saw _ d)).trans hg₂).trans hg₃).trans hg₄).trans hg₅).trans hg₆).trans hg₇
  have hw := hg.writes
  rw [h] at hw
  refine ⟨fun w hmem hr k hk => ?_, fun b hmem => ?_⟩
  · have hinserted : ∀ {x : Column × String} {v : Write}, v ∈ t₇.writes → x ∈ v.keys → Backed env .seed t₇ x :=
      fun hv hx => Or.inr (Or.inl (List.mem_flatMap.2 ⟨_, hv, hx⟩))
    rw [hw] at hmem
    simp only [List.nil_append, List.cons_append, List.mem_cons, List.not_mem_nil, or_false] at hmem
    rcases hmem with rfl | rfl | rfl | rfl | rfl | rfl | rfl | rfl | rfl | rfl
    all_goals cases hr
    · simp [Write.references, howner] at hk
    · simp only [Write.references, Option.map_some, Option.toList_some, List.mem_cons, List.not_mem_nil,
        or_false] at hk
      rcases hk with rfl | rfl
      · exact hinserted (v := .insertArchive a) (by simp [hw]) (by simp [Write.keys])
      · exact hinserted (v := .insertUser u) (by simp [hw]) (by simp [Write.keys])
  · rw [hw] at hmem
    simp at hmem

theorem handle_vouched (env : Env) (job : Job) (o : Nat → Choice) :
    ((genPay env).handle job).wp (genPay env).toEngine o (onOk fun _ t => Vouched env job t) Txn.fresh := by
  have quiet : (∀ a act ds, Answers env a act ds job → ∀ w ∈ act.writes, w.refers = false) →
      ((genPay env).handle job).wp (genPay env).toEngine o (onOk fun _ t => Vouched env job t) Txn.fresh := by
    intro hact
    refine wp_imp (handle_spec env job o) ?_
    rintro a t ⟨act, hw, -, hans⟩
    exact vouched_of_not_refers (hw ▸ hact a act _ hans)
  cases job with
  | seed =>
    show (seed env).wp _ _ _ _
    unfold seed
    refine wp_seq scalar_read ?_
    intro platform t₁ hg₁
    cases platform with
    | some a => exact vouched_of_not_refers (by simp [hg₁.writes])
    | none =>
      refine wp_tryCatch (seedRows_vouched hg₁.writes) fun e t' => ?_
      cases e with
      | integrityError => exact fun d => vouched_of_not_refers (by simp)
      | _ => exact True.intro
  | reconcileScript =>
    refine quiet ?_
    rintro a _ ds ⟨rfl, -⟩
    simp [Action.writes]
  | request r =>
    cases he : r.route with
    | createUser data =>
      show (route env r).wp _ _ _ _
      unfold route
      rw [he]
      exact withApiKey_client rfl fun c d _ => respond_spec (validated_spec fun _ _ => createUser_vouched rfl)
    | createArchive data =>
      show (route env r).wp _ _ _ _
      unfold route
      rw [he]
      exact withApiKey_client rfl fun c d _ => respond_spec (validated_spec fun data hdata =>
        createArchive_vouched (hdata ▸ he) rfl)
    | createRecord data =>
      show (route env r).wp _ _ _ _
      unfold route
      rw [he]
      exact withApiKey_client rfl fun c d _ => respond_spec (validated_spec fun data hdata =>
        createRecord_vouched (hdata ▸ he) rfl)
    | purchase data key =>
      show (route env r).wp _ _ _ _
      unfold route
      rw [he]
      exact withApiKey_client rfl fun c d hc => respond_spec (validated_spec fun data hdata =>
        validated_spec fun key _ => purchase_vouched (hdata ▸ he) rfl (by simp) hc)
    | cardAuthorization =>
      show (route env r).wp _ _ _ _
      unfold route
      rw [he]
      exact respond_spec (cardAuthorization_vouched he)
    | processorEvents =>
      show (route env r).wp _ _ _ _
      unfold route
      rw [he]
      refine wp_seq ofExcept_spec ?_
      rintro rawBody _ ⟨rfl, hverify⟩
      obtain ⟨rfl, -⟩ := verify_ok hverify
      exact processorEvents_vouched he
    | refundPurchase authorizationId data =>
      refine quiet fun a act ds hans => ?_
      simp only [Answers, AnswersRequest, he] at hans
      obtain ⟨-, s, originals, reversals, -, rfl⟩ := hans
      intro w hw
      simp only [Action.writes, List.mem_append, List.mem_singleton] at hw
      rcases hw with (hw | hw) | rfl
      · obtain ⟨x, -, hx⟩ := List.mem_flatMap.1 hw
        rcases List.mem_pair.1 hx with rfl | rfl <;> rfl
      · obtain ⟨x, -, -, rfl⟩ := mem_marks.1 hw
        rfl
      · rfl
    | getReconciliationReport =>
      refine quiet fun a act ds hans => ?_
      simp only [Answers, AnswersRequest, he] at hans
      obtain ⟨rfl, -⟩ := hans
      simp [Action.writes]
    | _ =>
      refine quiet fun a act ds hans => ?_
      simp only [Answers, AnswersRequest, he] at hans
      subst hans
      simp [Action.writes]

/-! ### The discipline -/

/-- The ledger's discipline with what is vouched for. -/
def vouched (env : Env) (G : AppSession → Db → Prop) : Discipline (genPay env) (uniqueKeys env.foreignKeys) G where
  inv := Db.Sound
  evolves := Db.Extends
  post := fun job a t => Committed env job a t ∧ Vouched env job t
  refl := Db.Extends.refl
  trans := Db.Extends.trans
  program := fun job o => Prog.wp_onOk_and (handle_spec env job o) (handle_vouched env job o)
  commit := fun t a d h hG hd hseen hord hfree => (ledger env G).commit t a d h.1 hG hd hseen hord hfree

/-- What is known of session `t` when it commits the action `act` on `d`. -/
structure CommitsVouched (env : Env) (t : AppSession) (a : Response) (act : Action) (d : Db) : Prop where
  commits : act.Commits env t.txn.seen d
  answers : Answers env a act t.txn.seen t.job
  writes : t.txn.writes = act.writes
  vouched : Vouched env t.job t.txn

variable {G : AppSession → Db → Prop} {d₀ : Db} {s : AppSystem}

/-- The invariant rule for properties that every commit keeps. -/
theorem commit_induction {I : Db → Prop} (hI : I d₀)
    (hcommit : ∀ t a act d, CommitsVouched env t a act d → G t d → I d → I (Action.Commits.after env d act))
    (h₀ : d₀.Sound) (h : Run (genPay env) G (System.initial d₀) s) : I s.db := by
  induction h with
  | refl => exact hI
  | tail l hr hstep hG ih =>
    rcases (System.step_cases hstep).db with he | ⟨i, t, a, rfl, ht, hp, he⟩
    · rw [he]
      exact ih
    · have hguard := hG t (System.committing_exec ht hp)
      have hat := (Discipline.inv_run (D := vouched env G) h₀ hr).atCommit (Keys.inv_run hr)
        (List.mem_of_getElem? ht) hp hguard
      obtain ⟨act, hw, hc, hans⟩ := Committed.commits hat.post.1 hat.inv hat.seen hat.ordered hat.free
      have := hcommit t a act _ ⟨hc, hans, hw, hat.post.2⟩ hguard ih
      rw [he, hw]
      exact this

/-- A reference that is backed is to a row that is there after the commit. -/
theorem CommitsVouched.column_of_backed {t : AppSession} {a : Response} {act : Action} {d : Db}
    (h : CommitsVouched env t a act d)
    (hG : env.foreignKeys = true ∨ ∀ k ∈ t.job.named, k.2 ∈ d.column k.1) {k : Column × String}
    (hk : Backed env t.job t.txn k) : k.2 ∈ (Action.Commits.after env d act).column k.1 := by
  rcases hk with ⟨d', hd', hmem⟩ | hnew | ⟨hfk, hnamed⟩
  · exact Action.Commits.column_mono (h.commits.seen_column hd' hmem)
  · exact Action.Commits.column_after.2 (Or.inr (h.writes ▸ hnew))
  · rcases hG with hfk' | hG
    · rw [hfk] at hfk'
      cases hfk'
    · exact Action.Commits.column_mono (hG k hnamed)

/-- Seeding is a commit on empty tables, or has failed. -/
theorem Seeded.commits (h : Seeded env d₀) : d₀ = Db.empty ∨ ∃ t a act, t.job = .seed ∧
    CommitsVouched env t a act Db.empty ∧ d₀ = Action.Commits.after env Db.empty act := by
  obtain ⟨o, rfl⟩ := h
  rcases hs : (genPay env).serve .seed o Db.empty with ⟨e | a, d⟩
  · exact Or.inl (Service.serve_error hs)
  · obtain ⟨t, hat, -, rfl⟩ := Discipline.serve_ok (D := vouched env fun _ _ => True) (fun _ _ => True.intro)
      Db.sound_empty hs
    obtain ⟨act, hw, hc, hans⟩ := Committed.commits hat.post.1 hat.inv hat.seen hat.ordered hat.free
    change t.writes = act.writes at hw
    exact Or.inr ⟨_, a, act, rfl, ⟨hc, hans, hw, hat.post.2⟩, by rw [hw]; rfl⟩

end GenPay
