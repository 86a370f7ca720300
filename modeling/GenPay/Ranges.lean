import GenPay.Api
import GenPay.ReadCommitted.Refusing

/-!
# Numbers out of range

On PostgreSQL a number that does not fit into its column is an error of the statement.  No handler of the code takes
this error for another one (`handle_passes`), so the request fails and its transaction is rolled back, as if the
engine had ended it: the runs of `bounded` reach no other databases than those of `genPay` (`bounded_run`).
-/

namespace GenPay

open ReadCommitted
open Prog (Straight Passes straight_ret straight_raise straight_query straight_exec)

/-- The service on an engine with `INTEGER` columns of 32 bits: PostgreSQL, if it checks foreign keys. -/
def bounded (env : Env) : Service Db Write Exc Choice Job Response := (genPay env).refusing Write.fits .dataError

variable {env : Env}

/-! ### Straight programs -/

theorem valueError_straight {β : Type} (msg : String) : (valueError msg : Tx β).Straight := straight_raise _

theorem ofExcept_straight {β : Type} (r : Except Exc β) : (ofExcept r).Straight := by
  cases r with
  | ok a => exact straight_ret a
  | error e => exact straight_raise e

theorem modelValidate_straight {β : Type} (r : Except String β) : (modelValidate r).Straight := by
  cases r with
  | ok a => exact straight_ret a
  | error msg => exact straight_raise _

theorem scalar_straight {β : Type} {table : Db → List β} {p : β → Bool} : (scalar table p).Straight := straight_query

theorem scalars_straight {β : Type} {table : Db → List β} {p : β → Bool} : (scalars table p).Straight := straight_query

theorem page_straight {β : Type} {table : Db → List β} {createdAt : β → Nat} {p : β → Bool} {limit offset : Nat} :
    (page table createdAt p limit offset).Straight := straight_query

/-- The creators, the updates and the other statements whose result the code makes up. -/
theorem exec_straight {β : Type} {w : Write} {a : β} : (do Prog.exec w; return a : Tx β).Straight :=
  straight_exec.bind fun _ => straight_ret _

theorem insert_straight {β : Type} {row : Choice → β} {w : β → Write} :
    (do let c ← draw; Prog.exec (w (row c)); return row c : Tx β).Straight :=
  straight_query.bind fun _ => exec_straight

/-- A row that has to be there. -/
theorem row_straight {β γ : Type} {q : Tx (Option β)} {k : Option β → Tx γ} (hq : q.Straight)
    (hnone : (k none).Straight) (hsome : ∀ a, (k (some a)).Straight) : (q >>= k).Straight := by
  refine hq.bind fun a => ?_
  cases a with
  | none => exact hnone
  | some a => exact hsome a

/-! ### Postings and settlements -/

theorem postEach_straight (id : String) (es : List LedgerEntry) : (postEach id es).Straight := by
  induction es with
  | nil => exact straight_ret _
  | cons e es ih =>
    have hadjust : (LedgerAccountRepository.adjustBalance e.ledgerAccountId e.delta).Straight :=
      straight_exec.bind fun _ => row_straight scalar_straight (straight_raise _) fun _ => straight_ret _
    have hentry : (postEntry id e).Straight :=
      (insert_straight (w := .insertTransaction)).bind fun _ => hadjust.bind fun _ => straight_ret _
    exact hentry.bind fun _ => ih.bind fun _ => straight_ret _

theorem postEntries_straight (id : String) (es : List LedgerEntry) : (postEntries id es).Straight := by
  unfold postEntries
  split
  · exact valueError_straight _
  · exact postEach_straight id es

theorem getAuthorization_straight {loaded : Option Authorization} {id : String} :
    (AuthorizationRepository.get loaded id).Straight := by
  unfold AuthorizationRepository.get
  split
  · exact straight_ret _
  · exact scalar_straight

theorem transcriptionistAccount_straight (r : ResearchRecord) : (transcriptionistAccount r).Straight := by
  unfold transcriptionistAccount
  split
  · exact scalar_straight
  · exact straight_ret _

theorem settleChecked_straight (a : Authorization) (r : ResearchRecord) (total : Int)
    (config : Option RevenueSplitConfig) : (settleChecked env a r total config).Straight := by
  unfold settleChecked
  refine (ofExcept_straight _).bind fun split => scalar_straight.bind fun researcher => scalar_straight.bind fun archive =>
    scalar_straight.bind fun platform => ?_
  split
  · refine (transcriptionistAccount_straight r).bind fun transcriptionist => ?_
    refine (insert_straight (w := .insertSettlement)).bind fun settlement => ?_
    exact (postEntries_straight _ _).bind fun _ => straight_ret _
  · exact valueError_straight _

theorem settleAuthorization_straight (loaded : Option Authorization) (id : String) (amount : Option Int)
    (config : Option RevenueSplitConfig) : (settleAuthorization env loaded id amount config).Straight := by
  unfold settleAuthorization
  refine row_straight getAuthorization_straight (valueError_straight _) fun a => ?_
  dsimp only
  split
  · exact valueError_straight _
  · refine row_straight scalar_straight ?_ fun _ => valueError_straight _
    exact row_straight scalar_straight (valueError_straight _) fun r => settleChecked_straight a r _ _

theorem purchaseRecord_straight (recordId userId : String) (amount : Option Int) (client : Option String) :
    (purchaseRecord env recordId userId amount client).Straight := by
  unfold purchaseRecord
  refine row_straight scalar_straight (valueError_straight _) fun r => ?_
  refine row_straight scalar_straight (valueError_straight _) fun u => ?_
  refine Straight.bind ?_ fun a => settleAuthorization_straight _ _ _ _
  exact straight_query.bind fun _ => straight_query.bind fun _ => exec_straight

theorem refundSettlement_straight (id : String) (reason : Option String) : (refundSettlement id reason).Straight := by
  have hmark : ∀ txns, (markEachReversed txns).Straight := by
    intro txns
    induction txns with
    | nil => exact straight_ret _
    | cons txn txns ih =>
      refine Straight.bind ?_ fun _ => ih
      unfold TransactionRepository.markReversed
      dsimp only
      split
      · exact exec_straight
      · exact straight_ret _
  unfold refundSettlement
  refine row_straight getAuthorization_straight (valueError_straight _) fun a => ?_
  refine row_straight scalar_straight (valueError_straight _) fun x => ?_
  dsimp only
  split
  · exact valueError_straight _
  · refine scalars_straight.bind fun txns => (postEntries_straight _ _).bind fun _ => (hmark txns).bind fun _ => ?_
    exact exec_straight.bind fun _ => straight_ret _

/-! ### Events -/

theorem handleCardAuthorization_straight (event : CardAuthorizationEvent) :
    (handleCardAuthorization env event).Straight := by
  unfold handleCardAuthorization
  split
  · exact valueError_straight _
  · refine row_straight scalar_straight (valueError_straight _) fun r => ?_
    refine Straight.bind ?_ fun u => scalar_straight.bind fun client => (ofExcept_straight _).bind fun amount =>
      purchaseRecord_straight _ _ _ _
    unfold settlingUser
    split
    · exact straight_ret _
    · refine page_straight.bind fun users => ?_
      split
      · exact straight_ret _
      · exact valueError_straight _

theorem requireAuthorization_straight (reference : String) : (requireAuthorization reference).Straight :=
  row_straight scalar_straight (valueError_straight _) fun _ => straight_ret _

theorem requirePending_straight (verb reference : String) : (requirePending verb reference).Straight := by
  refine (requireAuthorization_straight _).bind fun a => ?_
  split
  · exact valueError_straight _
  · exact straight_ret _

theorem settleEach_straight (references : List String) : (settleEach env references).Straight := by
  induction references with
  | nil => exact straight_ret _
  | cons reference references ih =>
    refine (requireAuthorization_straight _).bind fun a => ?_
    exact (settleAuthorization_straight _ _ _ _).bind fun _ => ih.bind fun _ => straight_ret _

theorem handler_straight (type : ProcessorEventType) (data : List (String × Value)) :
    (handler env type data).Straight := by
  cases type with
  | authorizationCreated =>
    refine (modelValidate_straight _).bind fun payload => ?_
    refine row_straight scalar_straight ?_ fun _ => valueError_straight _
    refine row_straight scalar_straight (valueError_straight _) fun _ => ?_
    refine row_straight scalar_straight (valueError_straight _) fun _ => scalar_straight.bind fun client => ?_
    exact (insert_straight (w := .insertAuthorization)).bind fun _ => straight_ret _
  | authorizationApproved =>
    refine (modelValidate_straight _).bind fun payload => (requirePending_straight _ _).bind fun a => ?_
    exact exec_straight.bind fun _ => straight_ret _
  | authorizationDeclined =>
    refine (modelValidate_straight _).bind fun payload => (requirePending_straight _ _).bind fun a => ?_
    exact exec_straight.bind fun _ => straight_ret _
  | settlementCompleted =>
    exact (modelValidate_straight _).bind fun payload => (settleEach_straight _).bind fun _ => straight_ret _

/-! ### Other programs -/

theorem reconcileAll_straight : reconcileAll.Straight := by
  have heach : ∀ accounts, (reconcileEach accounts).Straight := by
    intro accounts
    induction accounts with
    | nil => exact straight_ret _
    | cons a accounts ih =>
      exact (scalars_straight.bind fun _ => straight_ret _).bind fun _ => ih.bind fun _ => straight_ret _
  exact scalars_straight.bind fun accounts => (heach accounts).bind fun _ => straight_ret _

theorem requireApiKey_straight (key : Option String) : (requireApiKey env key).Straight := by
  unfold requireApiKey
  cases key with
  | none => exact straight_raise _
  | some key =>
    refine row_straight scalar_straight (straight_raise _) fun client => ?_
    dsimp only
    split
    · exact straight_ret _
    · exact straight_raise _

theorem validated_straight {β : Type} (a : Option β) : (validated a).Straight := by
  cases a with
  | some a => exact straight_ret a
  | none => exact straight_raise _

theorem found_straight {β : Type} (what : String) (a : Option β) : (found what a).Straight := by
  cases a with
  | some a => exact straight_ret a
  | none => exact straight_raise _

theorem paged_straight {β : Type} {limit offset : Int} {p : Nat × Nat → Tx β} (hp : ∀ l k, (p (l, k)).Straight) :
    (paging limit offset >>= p).Straight := by
  refine Straight.bind ?_ fun x => hp x.1 x.2
  unfold paging
  split
  · exact straight_ret _
  · exact straight_raise _

theorem listTransactions_straight {accountId : Option String} {limit offset : Nat} :
    (TransactionRepository.listAll accountId limit offset).Straight := by
  unfold TransactionRepository.listAll
  split
  · exact page_straight
  · exact page_straight

theorem createUser_straight (data : UserCreate) : (createUser data).Straight :=
  (insert_straight (w := .insertUser)).bind fun _ =>
    (insert_straight (w := .insertAccount)).bind fun _ => straight_ret _

theorem createArchive_straight (data : HistoricalArchiveCreate) : (createArchive data).Straight :=
  (insert_straight (w := .insertArchive)).bind fun _ =>
    (insert_straight (w := .insertAccount)).bind fun _ => straight_ret _

theorem seedRows_straight : (seedRows env).Straight := by
  unfold seedRows
  refine (insert_straight (w := .insertClient)).bind fun _ => straight_query.bind fun _ => ?_
  refine (insert_straight (w := .insertClient)).bind fun _ => (insert_straight (w := .insertAccount)).bind fun _ => ?_
  refine (createArchive_straight _).bind fun _ => (createUser_straight _).bind fun _ => ?_
  refine (createUser_straight _).bind fun _ => ?_
  exact (insert_straight (w := .insertRecord)).bind fun _ => straight_ret _

/-! ### Handlers of errors -/

theorem exceptValueError_passes {β : Type} {p : Tx β} {h : String → Exc} (hp : p.Passes .dataError) :
    (exceptValueError p h).Passes .dataError := by
  refine hp.tryCatch rfl fun e => ?_
  cases e.asValueError with
  | some msg => exact True.intro
  | none => exact True.intro

theorem claimKey_passes (key : String) : (IdempotencyKeyRepository.tryClaim key).Passes .dataError := by
  refine ⟨rfl, fun r => ?_⟩
  cases r with
  | none => exact True.intro
  | some e => cases e <;> exact True.intro

theorem claimEvent_passes (event type : String) :
    (ProcessedWebhookEventRepository.tryClaim event type).Passes .dataError := by
  refine ⟨rfl, fun r => ?_⟩
  cases r with
  | none => exact True.intro
  | some e => cases e <;> exact True.intro

theorem purchase_passes (data : PurchaseRequest) (key : String) (client : ApiClient) :
    (purchase env data key client).Passes .dataError := by
  have hget : (IdempotencyKeyRepository.get key).Straight :=
    row_straight scalar_straight (straight_ret _) fun _ => straight_ret _
  unfold purchase
  refine hget.passes.bind fun cached => ?_
  cases cached with
  | some _ => exact True.intro
  | none =>
    refine (claimKey_passes key).bind fun claimed => ?_
    cases claimed with
    | false => exact True.intro
    | true =>
      refine (exceptValueError_passes (purchaseRecord_straight _ _ _ _).passes).bind fun result => ?_
      refine Passes.bind (Straight.passes ?_) fun _ => True.intro
      exact row_straight scalar_straight (straight_raise _) fun _ => straight_exec

theorem processorEvents_passes (body : ByteArray) : (processorEvents env body).Passes .dataError := by
  unfold processorEvents
  split
  · exact True.intro
  · refine (claimEvent_passes _ _).bind fun claimed => ?_
    cases claimed with
    | false => exact True.intro
    | true =>
      refine (exceptValueError_passes ?_).bind fun _ => True.intro
      refine (handler_straight _ _).passes.tryCatch rfl fun e => ?_
      cases e <;> exact True.intro

theorem seed_passes : (seed env).Passes .dataError := by
  unfold seed
  refine scalar_straight.passes.bind fun platform => ?_
  cases platform with
  | some _ => exact True.intro
  | none =>
    refine seedRows_straight.passes.tryCatch rfl fun e => ?_
    cases e <;> exact True.intro

/-! ### Jobs -/

theorem respond_passes {β : Type} {f : β → Response} {p : Tx β} (hp : p.Passes .dataError) :
    (respond f p).Passes .dataError := hp.bind fun _ => True.intro

theorem withApiKey_passes {β : Type} {r : Request} {p : ApiClient → Tx β} (hp : ∀ c, (p c).Passes .dataError) :
    (withApiKey env r p).Passes .dataError := (requireApiKey_straight _).passes.bind hp

/-- No handler of the code catches the error of a number that is out of range. -/
theorem handle_passes (job : Job) : (handle env job).Passes .dataError := by
  cases job with
  | seed => exact seed_passes
  | reconcileScript => exact (reconcileAll_straight.bind fun _ => straight_ret _).passes
  | request r =>
    show (route env r).Passes .dataError
    unfold route
    cases r.route with
    | createUser data =>
      exact withApiKey_passes fun _ => respond_passes
        ((validated_straight _).bind fun _ => createUser_straight _).passes
    | createArchive data =>
      exact withApiKey_passes fun _ => respond_passes
        ((validated_straight _).bind fun _ => createArchive_straight _).passes
    | createRecord data =>
      exact withApiKey_passes fun _ => respond_passes
        ((validated_straight _).bind fun _ => insert_straight (w := .insertRecord)).passes
    | purchase data key =>
      exact withApiKey_passes fun client => respond_passes ((validated_straight _).passes.bind fun _ =>
        (validated_straight _).passes.bind fun _ => purchase_passes _ _ client)
    | refundPurchase id data =>
      exact withApiKey_passes fun _ => respond_passes ((validated_straight _).passes.bind fun _ =>
        exceptValueError_passes (refundSettlement_straight _ _).passes)
    | cardAuthorization =>
      refine respond_passes ?_
      unfold cardAuthorization
      split
      · exact True.intro
      · exact exceptValueError_passes (handleCardAuthorization_straight _).passes
    | processorEvents => exact (ofExcept_straight _).passes.bind fun _ => processorEvents_passes _
    | viewLedger id limit offset =>
      exact withApiKey_passes fun _ => respond_passes (paged_straight fun _ _ => listTransactions_straight).passes
    | getPurchase id =>
      exact withApiKey_passes fun _ => respond_passes
        (getAuthorization_straight.bind fun _ => found_straight _ _).passes
    | listUsers limit offset | listAccounts limit offset =>
      exact withApiKey_passes fun _ => respond_passes (paged_straight fun _ _ => page_straight).passes
    | listArchives limit offset | listRecords limit offset =>
      exact respond_passes (paged_straight fun _ _ => page_straight).passes
    | getUser id | getAccount id =>
      exact withApiKey_passes fun _ => respond_passes (scalar_straight.bind fun _ => found_straight _ _).passes
    | getArchive id | getRecord id => exact respond_passes (scalar_straight.bind fun _ => found_straight _ _).passes
    | getReconciliationReport => exact withApiKey_passes fun _ => respond_passes reconcileAll_straight.passes
    | health => exact True.intro

/-- What holds of the database in every run of `genPay` holds where columns have a range. -/
theorem bounded_run {G : Session Db Write Exc Choice Job Response → Db → Prop} {d₀ : Db}
    {s : System Db Write Exc Choice Job Response} (h : Run (bounded env) G (System.initial d₀) s) :
    ∃ s', Run (genPay env) G (System.initial d₀) s' ∧ s'.db = s.db := by
  obtain ⟨s', hrun, hmirrors⟩ := Run.of_refusing (S := genPay env) handle_passes h
  exact ⟨s', hrun, hmirrors.db⟩

end GenPay
