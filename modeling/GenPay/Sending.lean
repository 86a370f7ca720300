import GenPay.Actions
import GenPay.Api
import GenPay.ReadCommitted.Sends

/-!
# What the jobs send

For an assertion that the small writes are quiet for, it is enough to look at the places where the others are sent:
the creators of users, archives, records, clients and accounts in the jobs that found something, the checked
settlement in those that settle, the refund in those that refund (`handle_within`).
-/

namespace GenPay

open ReadCommitted
open Prog (Within)

/-- The write is about an authorization, a key, an event or a status. -/
def Write.isQuiet : Write → Bool
  | .insertAuthorization _ | .insertIdempotencyKey _ | .insertEvent _ | .setAuthorizationStatus .. => true
  | .setSettlementStatus .. | .setTransactionStatus .. | .setResponseBody .. => true
  | _ => false

def LeavesQuiet (A : Assertion Db Write) : Prop := ∀ w : Write, w.isQuiet = true → A.Quiet w

def Write.isFounding : Write → Bool
  | .insertUser _ | .insertArchive _ | .insertRecord _ | .insertClient _ => true
  | _ => false

variable {fk : Bool} {o : Nat → Choice} {A : Assertion Db Write} {env : Env}

/-! ### Statements -/

theorem valueError_within {β : Type} (msg : String) : (valueError msg : Tx β).Within (engine fk) o A := Within.raise _

theorem ofExcept_within {β : Type} (r : Except Exc β) : (ofExcept r).Within (engine fk) o A := by
  cases r with
  | ok a => exact Within.ret a
  | error e => exact Within.raise e

theorem modelValidate_within {β : Type} (r : Except String β) : (modelValidate r).Within (engine fk) o A := by
  cases r with
  | ok a => exact Within.ret a
  | error msg => exact Within.raise _

theorem exceptValueError_withinAt {β : Type} {p : Tx β} {h : String → Exc} {t : Txn Db Write}
    (hp : p.WithinAt (engine fk) o A t) : (exceptValueError p h).WithinAt (engine fk) o A t := by
  refine hp.tryCatch fun e => ?_
  cases e.asValueError with
  | some msg => exact Within.raise _
  | none => exact Within.raise _

theorem exceptValueError_within {β : Type} {p : Tx β} {h : String → Exc} (hp : p.Within (engine fk) o A) :
    (exceptValueError p h).Within (engine fk) o A := Within.of_at fun _ ht => exceptValueError_withinAt (hp.withinAt ht)

theorem scalar_within {β : Type} {table : Db → List β} {p : β → Bool} : (scalar table p).Within (engine fk) o A :=
  Within.query

theorem scalars_within {β : Type} {table : Db → List β} {p : β → Bool} : (scalars table p).Within (engine fk) o A :=
  Within.query

theorem page_within {β : Type} {table : Db → List β} {createdAt : β → Nat} {p : β → Bool} {limit offset : Nat} :
    (page table createdAt p limit offset).Within (engine fk) o A := Within.query

/-- The shape of all creators. -/
theorem insert_within {β : Type} {row : Choice → β} {w : β → Write} (hw : ∀ c, A.Quiet (w (row c))) :
    (do let c ← draw; Prog.exec (w (row c)); return row c : Tx β).Within (engine fk) o A :=
  Within.query.bind fun c => (Within.exec (hw c)).bind fun _ => Within.ret _

theorem getAuthorization_within {loaded : Option Authorization} {id : String} :
    (AuthorizationRepository.get loaded id).Within (engine fk) o A := by
  unfold AuthorizationRepository.get
  split
  · exact Within.ret _
  · exact scalar_within

theorem transcriptionistAccount_within (r : ResearchRecord) : (transcriptionistAccount r).Within (engine fk) o A := by
  unfold transcriptionistAccount
  split
  · exact scalar_within
  · exact Within.ret _

/-! ### Requests -/

theorem requireApiKey_within (key : Option String) : (requireApiKey env key).Within (engine fk) o A := by
  unfold requireApiKey
  cases key with
  | none => exact Within.raise _
  | some key =>
    refine scalar_within.bind fun client => ?_
    cases client with
    | none => exact Within.raise _
    | some client =>
      dsimp only
      split
      · exact Within.ret _
      · exact Within.raise _

theorem withApiKey_within {β : Type} {r : Request} {p : ApiClient → Tx β} (hp : ∀ c, (p c).Within (engine fk) o A) :
    (withApiKey env r p).Within (engine fk) o A := (requireApiKey_within _).bind hp

theorem respond_within {β : Type} {f : β → Response} {p : Tx β} (hp : p.Within (engine fk) o A) :
    (respond f p).Within (engine fk) o A := hp.bind fun _ => Within.ret _

theorem validated_within {β : Type} (a : Option β) : (validated a).Within (engine fk) o A := by
  cases a with
  | some a => exact Within.ret a
  | none => exact Within.raise _

theorem found_within {β : Type} (what : String) (a : Option β) : (found what a).Within (engine fk) o A := by
  cases a with
  | some a => exact Within.ret a
  | none => exact Within.raise _

/-- A paged listing. -/
theorem paged_within {β : Type} {limit offset : Int} {p : Nat × Nat → Tx β}
    (hp : ∀ l k, (p (l, k)).Within (engine fk) o A) : (paging limit offset >>= p).Within (engine fk) o A := by
  refine Within.bind ?_ fun x => hp x.1 x.2
  unfold paging
  split
  · exact Within.ret _
  · exact Within.raise _

theorem listTransactions_within {accountId : Option String} {limit offset : Nat} :
    (TransactionRepository.listAll accountId limit offset).Within (engine fk) o A := by
  unfold TransactionRepository.listAll
  split
  · exact page_within
  · exact page_within

theorem reconcileAll_within : reconcileAll.Within (engine fk) o A := by
  have heach : ∀ accounts, (reconcileEach accounts).Within (engine fk) o A := by
    intro accounts
    induction accounts with
    | nil => exact Within.ret _
    | cons a accounts ih =>
      exact (scalars_within.bind fun _ => Within.ret _).bind fun _ => ih.bind fun _ => Within.ret _
  exact scalars_within.bind fun accounts => (heach accounts).bind fun _ => Within.ret _

/-! ### Events -/

theorem requireAuthorization_within (reference : String) : (requireAuthorization reference).Within (engine fk) o A := by
  refine scalar_within.bind fun a => ?_
  cases a with
  | some a => exact Within.ret a
  | none => exact valueError_within _

theorem requirePending_within (verb reference : String) : (requirePending verb reference).Within (engine fk) o A := by
  refine (requireAuthorization_within _).bind fun a => ?_
  split
  · exact valueError_within _
  · exact Within.ret _

/-! ### Writes -/

section Quiet

variable (hA : LeavesQuiet A)
include hA

theorem createAuthorization_within {r u : String} {amount : Int} {client : Option String} :
    (AuthorizationRepository.create r u amount client).Within (engine fk) o A := by
  refine Within.query.bind fun reference => ?_
  exact Within.query.bind fun c => (Within.exec (hA _ rfl)).bind fun _ => Within.ret _

theorem handleAuthorizationCreated_within (data : List (String × Value)) :
    (handleAuthorizationCreated env data).Within (engine fk) o A := by
  unfold handleAuthorizationCreated
  refine (modelValidate_within _).bind fun payload => scalar_within.bind fun existing => ?_
  cases existing with
  | some _ => exact valueError_within _
  | none =>
    refine scalar_within.bind fun record => ?_
    cases record with
    | none => exact valueError_within _
    | some _ =>
      refine scalar_within.bind fun user => ?_
      cases user with
      | none => exact valueError_within _
      | some _ =>
        refine scalar_within.bind fun client => ?_
        exact (insert_within (w := .insertAuthorization) fun c => hA _ rfl).bind fun _ => Within.ret _

theorem claimKey_within (key : String) : (IdempotencyKeyRepository.tryClaim key).Within (engine fk) o A := by
  refine Within.write (hA _ rfl) fun r => ?_
  cases r with
  | none => exact Within.ret _
  | some e => cases e <;> first | exact Within.raise _ | exact Within.rollback (Within.ret _)

theorem claimEvent_within (event type : String) :
    (ProcessedWebhookEventRepository.tryClaim event type).Within (engine fk) o A := by
  refine Within.write (hA _ rfl) fun r => ?_
  cases r with
  | none => exact Within.ret _
  | some e => cases e <;> first | exact Within.raise _ | exact Within.rollback (Within.ret _)

theorem markEachReversed_within (txns : List Transaction) : (markEachReversed txns).Within (engine fk) o A := by
  induction txns with
  | nil => exact Within.ret _
  | cons txn txns ih =>
    refine Within.bind ?_ fun _ => ih
    unfold TransactionRepository.markReversed
    dsimp only
    split
    · exact (Within.exec (hA _ rfl)).bind fun _ => Within.ret _
    · exact Within.ret _

end Quiet

/-! ### Postings -/

/-- A row with its change of balance, whatever the session sees in between. -/
theorem postEntry_withinAt {good : Db → Prop} {I Q : List Write → Prop} {hnil : I []} {sid : String} {e : LedgerEntry}
    {t : Txn Db Write} (ht : (Assertion.traces good I Q hnil).holds t) (hQ : ∀ ws, I ws → Q ws)
    (hpost : (∀ d ∈ t.seen, good d) → I t.writes → ∀ y : Transaction, y.entry = e →
      Q (t.writes ++ [.insertTransaction y]) ∧
        I (t.writes ++ [.insertTransaction y] ++ [.addBalance y.ledgerAccountId y.delta])) :
    (postEntry sid e).WithinAt (engine fk) o (Assertion.traces good I Q hnil) t := by
  let y : Transaction := ⟨(o t.seen.length).uuid, e.ledgerAccountId, sid, e.type, e.amountCents, "USD", .posted,
    (o t.seen.length).now⟩
  have hseen : ∀ xs : List Db, (∀ d ∈ t.seen ++ xs, good d) → ∀ d ∈ t.seen, good d := fun _ hgood d hd =>
    hgood d (List.mem_append_left _ hd)
  have hy : (∀ d ∈ t.seen, good d) → Q (t.writes ++ [.insertTransaction y]) ∧
      I (t.writes ++ [.insertTransaction y] ++ [.addBalance y.ledgerAccountId y.delta]) := fun hgood =>
    hpost hgood (ht hgood) y rfl
  -- the refresh after the change
  obtain ⟨refresh, hadjust, hrefresh⟩ : ∃ refresh : Tx LedgerAccount,
      LedgerAccountRepository.adjustBalance e.ledgerAccountId e.delta =
        (Prog.exec (.addBalance e.ledgerAccountId e.delta) >>= fun _ => refresh) ∧
      refresh.Within (engine fk) o (Assertion.traces good I Q hnil) := by
    refine ⟨_, rfl, scalar_within.bind fun a => ?_⟩
    cases a with
    | some a => exact Within.ret a
    | none => exact Within.raise _
  have hrest := hrefresh.bind fun _ => Within.ret (E := engine fk) (o := o) y
  have hlast : ∀ d₁ d₂ d₃, (Assertion.traces good I Q hnil).holds
      (((t.saw d₁).wrote d₂ (.insertTransaction y)).wrote d₃ (.addBalance y.ledgerAccountId y.delta)) :=
    fun d₁ d₂ d₃ hgood => (hy (hseen [d₁, d₂, d₃] (by simpa using hgood))).2
  unfold postEntry
  rw [hadjust]
  constructor
  · intro d₁
    refine ⟨fun hgood => (hy (hseen [d₁] hgood)).1, fun d₂ => ?_⟩
    cases (engine fk).violation ((engine fk).view d₂ (t.saw d₁).writes) (.insertTransaction y) with
    | some e => exact True.intro
    | none =>
      refine ⟨fun hgood => hQ _ (hy (hseen [d₁, d₂] (by simpa using hgood))).2, fun d₃ => ?_⟩
      cases (engine fk).violation ((engine fk).view d₃ ((t.saw d₁).wrote d₂ (.insertTransaction y)).writes)
        (.addBalance e.ledgerAccountId e.delta) with
      | some e => exact True.intro
      | none => exact hrest.sends _ (hlast d₁ d₂ d₃)
  · intro d₁ d₂
    cases (engine fk).violation ((engine fk).view d₂ (t.saw d₁).writes) (.insertTransaction y) with
    | some e => exact fun hgood => ht (hseen [d₁, d₂] (by simpa using hgood))
    | none =>
      intro d₃
      cases hv : (engine fk).violation ((engine fk).view d₃ ((t.saw d₁).wrote d₂ (.insertTransaction y)).writes)
        (.addBalance e.ledgerAccountId e.delta) with
      | some e => exact absurd hv (by simp [engine, Db.violation, Write.keys, Write.references, Write.checked])
      | none => exact hrest.ends _ (hlast d₁ d₂ d₃)

/-! ### Users, archives, records -/

/-- The assertion holds where rows are created that others refer to, and accounts opened. -/
structure FoundsWithin (fk : Bool) (o : Nat → Choice) (A : Assertion Db Write) : Prop where
  quiet : ∀ w : Write, w.isFounding = true → A.Quiet w
  account : ∀ type u a, (LedgerAccountRepository.createAccount type u a).Within (engine fk) o A

section Founds

variable (hA : FoundsWithin fk o A)
include hA

theorem createUser_within (data : UserCreate) : (createUser data).Within (engine fk) o A :=
  (insert_within (w := .insertUser) fun _ => hA.quiet _ rfl).bind fun _ => (hA.account _ _ _).bind fun _ => Within.ret _

theorem createArchive_within (data : HistoricalArchiveCreate) : (createArchive data).Within (engine fk) o A :=
  (insert_within (w := .insertArchive) fun _ => hA.quiet _ rfl).bind fun _ => (hA.account _ _ _).bind fun _ => Within.ret _

theorem createRecord_within (data : ResearchRecordCreate) : (createRecord data).Within (engine fk) o A :=
  insert_within (w := .insertRecord) fun _ => hA.quiet _ rfl

theorem createClient_within (name key : String) : (ApiClientRepository.create env name key).Within (engine fk) o A :=
  insert_within (w := .insertClient) fun _ => hA.quiet _ rfl

theorem seed_within : (seed env).Within (engine fk) o A := by
  unfold seed
  refine scalar_within.bind fun platform => ?_
  cases platform with
  | some _ => exact Within.ret _
  | none =>
    refine Within.tryCatch ?_ fun e => ?_
    · unfold seedRows
      refine (createClient_within hA _ _).bind fun _ => Within.query.bind fun _ => ?_
      refine (createClient_within hA _ _).bind fun _ => (hA.account _ _ _).bind fun _ => ?_
      refine (createArchive_within hA _).bind fun _ => (createUser_within hA _).bind fun _ => ?_
      exact (createUser_within hA _).bind fun _ => (createRecord_within hA _).bind fun _ => Within.ret _
    · cases e <;> first | exact Within.raise _ | exact Within.rollback (Within.ret _)

end Founds

/-! ### Settlements -/

/-- The assertion holds where a settlement is checked and booked. -/
def SettlesWithin (env : Env) (fk : Bool) (o : Nat → Choice) (A : Assertion Db Write) : Prop :=
  ∀ authorization record total config, (settleChecked env authorization record total config).Within (engine fk) o A

section Settles

variable (hA : LeavesQuiet A) (hsettles : SettlesWithin env fk o A)

section

include hsettles

theorem settleAuthorization_within (loaded : Option Authorization) (id : String) (amount : Option Int)
    (config : Option RevenueSplitConfig) : (settleAuthorization env loaded id amount config).Within (engine fk) o A := by
  unfold settleAuthorization
  refine getAuthorization_within.bind fun a => ?_
  cases a with
  | none => exact valueError_within _
  | some a =>
    dsimp only
    split
    · exact valueError_within _
    · refine scalar_within.bind fun x => ?_
      cases x with
      | some _ => exact valueError_within _
      | none =>
        refine scalar_within.bind fun r => ?_
        cases r with
        | none => exact valueError_within _
        | some r => exact hsettles a r _ _

theorem settleEach_within (references : List String) : (settleEach env references).Within (engine fk) o A := by
  induction references with
  | nil => exact Within.ret _
  | cons reference references ih =>
    refine (requireAuthorization_within _).bind fun a => ?_
    exact (settleAuthorization_within hsettles _ _ _ _).bind fun _ => ih.bind fun _ => Within.ret _

end

include hA hsettles

theorem purchaseRecord_within (recordId userId : String) (amount : Option Int) (client : Option String) :
    (purchaseRecord env recordId userId amount client).Within (engine fk) o A := by
  unfold purchaseRecord
  refine scalar_within.bind fun r => ?_
  cases r with
  | none => exact valueError_within _
  | some r =>
    refine scalar_within.bind fun u => ?_
    cases u with
    | none => exact valueError_within _
    | some _ =>
      exact (createAuthorization_within hA).bind fun a => settleAuthorization_within hsettles _ _ _ _

theorem purchase_within (data : PurchaseRequest) (key : String) (client : ApiClient) :
    (purchase env data key client).Within (engine fk) o A := by
  unfold purchase
  have hget : (IdempotencyKeyRepository.get key).Within (engine fk) o A := by
    refine scalar_within.bind fun k => ?_
    cases k with
    | some _ => exact Within.ret _
    | none => exact Within.ret _
  refine hget.bind fun cached => ?_
  cases cached with
  | some _ => exact Within.ret _
  | none =>
    refine (claimKey_within hA key).bind fun claimed => ?_
    cases claimed with
    | false => exact Within.raise _
    | true =>
      refine (exceptValueError_within (purchaseRecord_within hA hsettles _ _ _ _)).bind fun result => ?_
      refine Within.bind ?_ fun _ => Within.ret _
      refine scalar_within.bind fun k => ?_
      cases k with
      | some _ => exact Within.exec (hA _ rfl)
      | none => exact Within.raise _

theorem cardAuthorization_within (body : ByteArray) : (cardAuthorization env body).Within (engine fk) o A := by
  unfold cardAuthorization
  split
  · exact Within.raise _
  · rename_i event _
    refine exceptValueError_within ?_
    unfold handleCardAuthorization
    split
    · exact valueError_within _
    · refine scalar_within.bind fun r => ?_
      cases r with
      | none => exact valueError_within _
      | some r =>
        refine Within.bind ?_ fun u => scalar_within.bind fun client => (ofExcept_within _).bind fun amount =>
          purchaseRecord_within hA hsettles _ _ _ _
        unfold settlingUser
        split
        · exact Within.ret _
        · refine page_within.bind fun users => ?_
          split
          · exact Within.ret _
          · exact valueError_within _

theorem handler_within (type : ProcessorEventType) (data : List (String × Value)) :
    (handler env type data).Within (engine fk) o A := by
  cases type with
  | authorizationCreated => exact handleAuthorizationCreated_within hA data
  | authorizationApproved =>
    refine (modelValidate_within _).bind fun payload => (requirePending_within _ _).bind fun a => ?_
    exact ((Within.exec (hA _ rfl)).bind fun _ => Within.ret _).bind fun _ => Within.ret _
  | authorizationDeclined =>
    refine (modelValidate_within _).bind fun payload => (requirePending_within _ _).bind fun a => ?_
    exact ((Within.exec (hA _ rfl)).bind fun _ => Within.ret _).bind fun _ => Within.ret _
  | settlementCompleted =>
    exact (modelValidate_within _).bind fun payload => (settleEach_within hsettles _).bind fun _ => Within.ret _

theorem processorEvents_within (body : ByteArray) : (processorEvents env body).Within (engine fk) o A := by
  unfold processorEvents
  split
  · exact Within.raise _
  · rename_i envelope _
    refine (claimEvent_within hA _ _).bind fun claimed => ?_
    cases claimed with
    | false => exact Within.ret _
    | true =>
      refine (exceptValueError_within ?_).bind fun _ => Within.ret _
      refine (handler_within hA hsettles _ _).tryCatch fun e => ?_
      cases e <;> exact Within.raise _

end Settles

/-! ### Jobs -/

/-- The assertion holds where a settlement is refunded. -/
def RefundsWithin (fk : Bool) (o : Nat → Choice) (A : Assertion Db Write) : Prop :=
  ∀ id reason, (refundSettlement id reason).Within (engine fk) o A

def Route.isFounding : Route → Bool
  | .createUser _ | .createArchive _ | .createRecord _ => true
  | _ => false

def Route.isSettling : Route → Bool
  | .purchase .. | .cardAuthorization | .processorEvents => true
  | _ => false

def Route.isRefunding : Route → Bool
  | .refundPurchase .. => true
  | _ => false

/-- The job creates rows that others refer to. -/
def Job.isFounding : Job → Bool
  | .request r => r.route.isFounding
  | .seed => true
  | .reconcileScript => false

/-- The job may settle authorizations. -/
def Job.isSettling : Job → Bool
  | .request r => r.route.isSettling
  | _ => false

/-- The job may refund a settlement. -/
def Job.isRefunding : Job → Bool
  | .request r => r.route.isRefunding
  | _ => false

theorem not_isSettling_of_isFounding {job : Job} (h : job.isFounding = true) : job.isSettling = false ∧ job.isRefunding = false := by
  cases job with
  | request r =>
    change r.route.isFounding = true at h
    show r.route.isSettling = false ∧ r.route.isRefunding = false
    cases hroute : r.route <;> rw [hroute] at h <;> first | exact ⟨rfl, rfl⟩ | cases h
  | _ => exact ⟨rfl, rfl⟩

/-- A job is within an assertion that holds where it founds, settles or refunds. -/
theorem handle_within {job : Job} (hA : LeavesQuiet A) (hfounds : job.isFounding = true → FoundsWithin fk o A)
    (hsettles : job.isSettling = true → SettlesWithin env fk o A) (hrefunds : job.isRefunding = true → RefundsWithin fk o A) :
    (handle env job).Within (engine fk) o A := by
  cases job with
  | seed => exact seed_within (hfounds rfl)
  | reconcileScript => exact reconcileAll_within.bind fun _ => Within.ret _
  | request r =>
    change r.route.isFounding = true → FoundsWithin fk o A at hfounds
    change r.route.isSettling = true → SettlesWithin env fk o A at hsettles
    change r.route.isRefunding = true → RefundsWithin fk o A at hrefunds
    show (route env r).Within (engine fk) o A
    unfold route
    cases hroute : r.route with
    | createUser data =>
      rw [hroute] at hfounds
      exact withApiKey_within fun _ => respond_within
        ((validated_within _).bind fun _ => createUser_within (hfounds rfl) _)
    | createArchive data =>
      rw [hroute] at hfounds
      exact withApiKey_within fun _ => respond_within
        ((validated_within _).bind fun _ => createArchive_within (hfounds rfl) _)
    | createRecord data =>
      rw [hroute] at hfounds
      exact withApiKey_within fun _ => respond_within
        ((validated_within _).bind fun _ => createRecord_within (hfounds rfl) _)
    | purchase data key =>
      rw [hroute] at hsettles
      exact withApiKey_within fun client => respond_within
        ((validated_within _).bind fun _ => (validated_within _).bind fun _ => purchase_within hA (hsettles rfl) _ _ client)
    | refundPurchase id data =>
      rw [hroute] at hrefunds
      exact withApiKey_within fun _ => respond_within
        ((validated_within _).bind fun _ => exceptValueError_within (hrefunds rfl _ _))
    | cardAuthorization =>
      rw [hroute] at hsettles
      exact respond_within (cardAuthorization_within hA (hsettles rfl) _)
    | processorEvents =>
      rw [hroute] at hsettles
      exact (ofExcept_within _).bind fun _ => processorEvents_within hA (hsettles rfl) _
    | viewLedger id limit offset =>
      exact withApiKey_within fun _ => respond_within (paged_within fun _ _ => listTransactions_within)
    | getPurchase id =>
      exact withApiKey_within fun _ => respond_within (getAuthorization_within.bind fun _ => found_within _ _)
    | listUsers limit offset | listAccounts limit offset =>
      exact withApiKey_within fun _ => respond_within (paged_within fun _ _ => page_within)
    | listArchives limit offset | listRecords limit offset =>
      exact respond_within (paged_within fun _ _ => page_within)
    | getUser id | getAccount id =>
      exact withApiKey_within fun _ => respond_within (scalar_within.bind fun _ => found_within _ _)
    | getArchive id | getRecord id => exact respond_within (scalar_within.bind fun _ => found_within _ _)
    | getReconciliationReport => exact withApiKey_within fun _ => respond_within reconcileAll_within
    | health => exact Within.ret _

/-- The write posts a row or changes a balance. -/
def Write.posts : Write → Bool
  | .insertTransaction _ | .addBalance _ _ => true
  | _ => false

/-- Jobs that found something do not post. -/
theorem handle_within_of_founding {job : Job} (hA : ∀ w : Write, w.posts = false → A.Quiet w)
    (hjob : job.isFounding = true) : (handle env job).Within (engine fk) o A := by
  have hquiet : ∀ w : Write, w.isQuiet = true ∨ w.isFounding = true → A.Quiet w := by
    intro w hw
    refine hA w ?_
    cases w <;> first | rfl | simp [Write.isQuiet, Write.isFounding] at hw
  have hfounds : FoundsWithin fk o A := ⟨fun w hw => hquiet w (Or.inr hw),
    fun _ _ _ => insert_within (w := .insertAccount) fun _ => hA _ rfl⟩
  obtain ⟨hsettling, hrefunding⟩ := not_isSettling_of_isFounding hjob
  exact handle_within (fun w hw => hquiet w (Or.inl hw)) (fun _ => hfounds) (by simp [hsettling]) (by simp [hrefunding])

end GenPay
