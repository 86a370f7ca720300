import GenPay.Vouching

/-!
# What a request asks for

A request that has an authorization inserted asks for it: a purchase by a client at the price of the record, a card
event with its own amount, a processor event under its signature (`handle_requested`).
-/

namespace GenPay

open ReadCommitted
open Prog (onOk wp_seq wp_imp wp_tryCatch)

/-- An authorization of the record by the user, for the amount or else for the price of the record in one of the
databases `ds`. -/
structure Authorization.IsFor (ds : List Db) (recordId userId : String) (amount : Option Int) (b : Authorization) :
    Prop where
  record : b.researchRecordId = recordId
  user : b.userId = userId
  priced : ∃ d ∈ ds, ∃ x ∈ d.records, x.id = recordId ∧ b.amountCents = amount.getD x.priceCents

/-- The user that a card event names, or a researcher if it names none. -/
def CardAuthorizationEvent.Names (ds : List Db) (userId : String) (event : CardAuthorizationEvent) : Prop :=
  match event.userId with
  | some u => userId = u
  | none => ∃ d ∈ ds, ∃ u ∈ d.users, u.role = .researcher ∧ u.id = userId

/-- What a request asks for when an authorization is inserted for it; the rows are from the databases `ds`. -/
inductive Request.Orders (env : Env) (ds : List Db) (r : Request) (b : Authorization) : Prop
  | purchase {data : PurchaseRequest} {key : Option String} {c : ApiClient} {d : Db}
      (route : r.route = .purchase (some data) key) (isFor : b.IsFor ds data.researchRecordId data.userId none)
      (seen : d ∈ ds) (authenticated : c.Authenticated env r d) (client : b.createdByClientId = some c.id)
  | cardAuthorization {event : CardAuthorizationEvent} {x : ResearchRecord} {d : Db} {amount : Int}
      (route : r.route = .cardAuthorization) (parsed : env.parseCardAuthorization r.rawBody = .ok event)
      (type : event.eventType = "card_authorization") (rounded : centsOf event.amount = .ok amount)
      (isFor : b.IsFor ds x.id b.userId (some amount)) (seen : d ∈ ds) (record : x ∈ d.records)
      (reference : x.recordReference = event.recordId) (buyer : event.Names ds b.userId)
  | authorizationCreated {envelope : ProcessorEventEnvelope} {data : AuthorizationCreatedData}
      (route : r.route = .processorEvents)
      (signed : Verifies env env.settings.webhookSigningSecret r.clock r.xGenPaySignature r.rawBody)
      (parsed : env.parseEnvelope r.rawBody = .ok envelope) (type : envelope.eventType = .authorizationCreated)
      (validated : env.validateCreated envelope.data = .ok data)
      (isFor : b.IsFor ds data.merchantReference.researchRecordId data.merchantReference.userId (some data.amountCents))
      (reference : b.externalReference = data.authorizationId)

/-- A request whose transaction inserts an authorization has asked for it. -/
def Requested (env : Env) (job : Job) (t : Txn Db Write) : Prop :=
  ∀ b, .insertAuthorization b ∈ t.writes → ∃ r, job = .request r ∧ r.Orders env t.seen b

variable {fk : Bool} {o : Nat → Choice} {t : Txn Db Write} {env : Env} {r : Request}

theorem Authorization.IsFor.mono {ds ds' : List Db} {recordId userId : String} {amount : Option Int} {b : Authorization}
    (h : b.IsFor ds recordId userId amount) (hs : ∀ d ∈ ds, d ∈ ds') : b.IsFor ds' recordId userId amount where
  record := h.record
  user := h.user
  priced := h.priced.imp fun d hd => ⟨hs d hd.1, hd.2⟩

theorem CardAuthorizationEvent.Names.mono {ds ds' : List Db} {userId : String} {event : CardAuthorizationEvent}
    (h : event.Names ds userId) (hs : ∀ d ∈ ds, ∃ d' ∈ ds', ∀ u ∈ d.users, u ∈ d'.users) : event.Names ds' userId := by
  unfold CardAuthorizationEvent.Names at *
  split
  · rename_i u hu
    rwa [hu] at h
  · rename_i hnone
    rw [hnone] at h
    obtain ⟨d, hd, u, hu, hrole, hid⟩ := h
    obtain ⟨d', hd', hu'⟩ := hs d hd
    exact ⟨d', hd', u, hu' u hu, hrole, hid⟩

/-! ### What the services insert -/

theorem create_isFor {recordId userId : String} {amount : Int} {client : Option String} :
    (AuthorizationRepository.create recordId userId amount client).wp (engine fk) o (onOk fun b t' =>
      t.Grew t' [.insertAuthorization b] ∧ b.researchRecordId = recordId ∧ b.userId = userId ∧
        b.amountCents = amount ∧ b.createdByClientId = client) t := by
  refine wp_seq draw_spec ?_
  rintro c _ ⟨d, rfl⟩
  refine wp_imp insert_spec ?_
  rintro _ t' ⟨hg, c, rfl⟩
  exact ⟨(Txn.Grew.saw t d).trans hg, rfl, rfl, rfl, rfl⟩

theorem purchaseRecord_isFor {recordId userId : String} {amount : Option Int} {client : Option String}
    (h : ∀ w ∈ t.writes, w.isEntity = false) :
    (purchaseRecord env recordId userId amount client).wp (engine fk) o (onOk fun _ t' => ∃ b ws,
      t.Grew t' (.insertAuthorization b :: ws) ∧ (∀ w ∈ ws, w.isAuthorization = false) ∧
      b.IsFor t'.seen recordId userId amount ∧ b.createdByClientId = client) t := by
  unfold purchaseRecord
  refine wp_seq scalar_spec ?_
  rintro x _ ⟨d₁, rfl, hx, -⟩
  cases x with
  | none => exact True.intro
  | some x =>
    obtain ⟨hx, hid⟩ := hx x rfl
    rw [view_records h] at hx
    refine wp_seq scalar_read ?_
    intro u t₂ hg₂
    cases u with
    | none => exact True.intro
    | some u =>
      refine wp_seq create_isFor ?_
      rintro b t₃ ⟨hg₃, hrecord, huser, hamount, hclient⟩
      have h₃ : ∀ w ∈ t₃.writes, w.isEntity = false := by
        intro w hw
        rw [hg₃.writes, hg₂.writes, List.append_nil] at hw
        rcases List.mem_append.1 hw with hw | hw
        · exact h w hw
        · rw [List.mem_singleton.1 hw]
          rfl
      refine wp_imp (settleAuthorization_spec h₃) ?_
      rintro res t₄ ⟨p, rfl, rfl, hg₄, -⟩
      have hg := ((Txn.Grew.saw t d₁).trans hg₂).trans (hg₃.trans hg₄)
      have hd₁ : d₁ ∈ t₄.seen := (hg₂.trans (hg₃.trans hg₄)).mem (by simp)
      exact ⟨p.authorization, p.writes, hg, fun w hw => (Purchase.writes_kind hw).2,
        ⟨hrecord, huser, d₁, hd₁, x, hx, by simpa using hid, hamount⟩, hclient⟩

theorem createPending_isFor {recordId userId reference : String} {amount : Int} {client : Option String} :
    (AuthorizationRepository.createPending recordId userId amount reference client).wp (engine fk) o (onOk fun b t' =>
      t.Grew t' [.insertAuthorization b] ∧ b.researchRecordId = recordId ∧ b.userId = userId ∧
        b.amountCents = amount ∧ b.externalReference = reference) t := by
  refine wp_imp insert_spec ?_
  rintro _ t' ⟨hg, c, rfl⟩
  exact ⟨hg, rfl, rfl, rfl, rfl⟩

theorem page_mem {β : Type} {table : Db → List β} {createdAt : β → Nat} {p : β → Bool} {limit offset : Nat} :
    (page table createdAt p limit offset).wp (engine fk) o (onOk fun xs t' => ∃ d, t' = t.saw d ∧
      ∀ x ∈ xs, x ∈ table ((engine fk).view d t.writes)) t := by
  refine fun d => ⟨d, rfl, fun x hx => ?_⟩
  have hx := (List.mem_insertionSort _).1 (List.mem_of_mem_drop (List.mem_of_mem_take hx))
  exact (List.mem_filter.1 (Choice.mem_arrange.1 hx)).1

theorem settlingUser_names {event : CardAuthorizationEvent} (h : t.writes = []) :
    (settlingUser event).wp (engine fk) o (onOk fun u t' => t.Grew t' [] ∧ event.Names t'.seen u) t := by
  unfold settlingUser
  split
  · rename_i u hu
    refine ⟨Txn.Grew.refl t, ?_⟩
    rw [CardAuthorizationEvent.Names, hu]
  · rename_i hnone
    refine wp_seq page_mem ?_
    rintro us _ ⟨d, rfl, hus⟩
    rw [h, Engine.view_nil] at hus
    split
    · rename_i u hu
      obtain ⟨hmem, hrole⟩ := List.mem_filter.1 (List.mem_of_mem_head? hu)
      refine ⟨Txn.Grew.saw t d, ?_⟩
      rw [CardAuthorizationEvent.Names, hnone]
      exact ⟨d, by simp, u, hus u hmem, by simpa using hrole, rfl⟩
    · exact True.intro

/-! ### What the requests ask for -/

/-- A transaction with one authorization among its inserts. -/
theorem requested_of_insert (b : Authorization) (ws ws' : List Write)
    (hw : t.writes = ws ++ .insertAuthorization b :: ws') (hws : ∀ w ∈ ws, w.isAuthorization = false)
    (hws' : ∀ w ∈ ws', w.isAuthorization = false) (hb : r.Orders env t.seen b) : Requested env (.request r) t := by
  intro b' hb'
  rw [hw, List.mem_append, List.mem_cons] at hb'
  rcases hb' with hb' | he | hb'
  · cases hws _ hb'
  · cases he
    exact ⟨r, rfl, hb⟩
  · cases hws' _ hb'

theorem requested_of_not_authorization {job : Job} (h : ∀ b, .insertAuthorization b ∉ t.writes) : Requested env job t :=
  fun b hb => absurd hb (h b)

theorem purchase_requested {data : PurchaseRequest} {key : String} {client : ApiClient} {d : Db} {x : Option String}
    (hr : r.route = .purchase (some data) x) (hw : t.writes = []) (hd : d ∈ t.seen)
    (hc : client.Authenticated env r d) : (purchase env data key client).wp (engine fk) o
      (onOk fun _ t' => Requested env (.request r) t') t := by
  unfold purchase
  refine wp_seq idempotencyKeyGet_spec ?_
  rintro cached _ ⟨d₁, rfl, -⟩
  cases cached with
  | some cached => exact requested_of_not_authorization (by simp [hw])
  | none =>
    refine wp_seq tryClaim_spec ?_
    rintro b t₂ (⟨rfl, d₂, rfl⟩ | ⟨rfl, -⟩)
    · show Prog.wp _ _ (if true = true then _ else _) _ _
      rw [if_pos rfl]
      unfold purchaseClaimed
      refine wp_seq (exceptValueError_spec (purchaseRecord_isFor (by simp [hw, Write.isEntity]))) ?_
      rintro result t₃ ⟨a, ws, hg₃, hws, hfor, hclient⟩
      refine wp_seq storeResult_spec ?_
      rintro _ t₄ hg₄
      have hg := (((Txn.Grew.saw t d₁).trans (Txn.Grew.wrote _ d₂ _)).trans hg₃).trans hg₄
      refine requested_of_insert a [.insertIdempotencyKey ⟨key, none⟩] (ws ++ [.setResponseBody key result]) ?_
        (by simp [Write.isAuthorization]) ?_
        (.purchase hr (hfor.mono fun d hd => hg₄.mem hd) (hg.mem hd) hc hclient)
      · rw [hg.writes, hw]
        simp
      · intro w hmem
        rcases List.mem_append.1 hmem with hmem | hmem
        · exact hws w hmem
        · rw [List.mem_singleton.1 hmem]
          rfl
    · exact True.intro

theorem cardAuthorization_requested (hr : r.route = .cardAuthorization) :
    (cardAuthorization env r.rawBody).wp (engine fk) o (onOk fun _ t' => Requested env (.request r) t') Txn.fresh := by
  unfold cardAuthorization
  split
  · exact True.intro
  · rename_i event hparse
    refine exceptValueError_spec ?_
    unfold handleCardAuthorization
    split
    · exact True.intro
    · rename_i htype
      refine wp_seq scalar_spec ?_
      rintro x _ ⟨d, rfl, hx, -⟩
      cases x with
      | none => exact True.intro
      | some x =>
        obtain ⟨hx, hreference⟩ := hx x rfl
        rw [show (Txn.fresh : Txn Db Write).writes = [] from rfl, Engine.view_nil] at hx
        refine wp_seq (settlingUser_names rfl) ?_
        rintro userId t₂ ⟨hg₂, hnames⟩
        refine wp_seq scalar_read ?_
        intro client t₃ hg₃
        refine wp_seq ofExcept_spec ?_
        rintro amount t₃ ⟨rfl, hamount⟩
        have hw : t₃.writes = [] := by
          rw [hg₃.writes, hg₂.writes]
          rfl
        refine wp_imp (purchaseRecord_isFor (by simp [hw])) ?_
        rintro result t₄ ⟨b, ws, hg₄, hws, hfor, -⟩
        have huser := hfor.user
        subst huser
        refine requested_of_insert b [] ws ?_ (by simp) hws
          (.cardAuthorization hr hparse (by simpa using htype) hamount hfor ?_ hx (by simpa using hreference) ?_)
        · rw [hg₄.writes, hw]
        · exact (hg₂.trans (hg₃.trans hg₄)).mem (by simp)
        · exact hnames.mono fun d hd => ⟨d, (hg₃.trans hg₄).mem hd, fun _ hu => hu⟩

theorem handleAuthorizationCreated_requested {envelope : ProcessorEventEnvelope} (hr : r.route = .processorEvents)
    (hsig : Verifies env env.settings.webhookSigningSecret r.clock r.xGenPaySignature r.rawBody)
    (hparse : env.parseEnvelope r.rawBody = .ok envelope) (he : envelope.eventType = .authorizationCreated)
    (h : t.writes = [.insertEvent envelope.event]) : (handleAuthorizationCreated env envelope.data).wp (engine fk) o
      (onOk fun _ t' => Requested env (.request r) t') t := by
  have hE : ∀ w ∈ t.writes, w.isEntity = false := by simp [h, Write.isEntity]
  unfold handleAuthorizationCreated
  refine wp_seq modelValidate_spec ?_
  rintro data t ⟨rfl, hdata⟩
  refine wp_seq scalar_read ?_
  intro existing t₁ hg₁
  have hw₁ : t₁.writes = t.writes := by simpa using hg₁.writes
  cases existing with
  | some a => exact True.intro
  | none =>
    refine wp_seq scalar_spec ?_
    rintro x _ ⟨d, rfl, hx, -⟩
    cases x with
    | none => exact True.intro
    | some x =>
      obtain ⟨hx, hid⟩ := hx x rfl
      rw [hw₁, view_records hE] at hx
      refine wp_seq scalar_read ?_
      intro u t₂ hg₂
      cases u with
      | none => exact True.intro
      | some u =>
        refine wp_seq scalar_read ?_
        intro client t₃ hg₃
        refine wp_seq createPending_isFor ?_
        rintro b t₄ ⟨hg₄, hrecord, huser, hamount, hreference⟩
        have hg := hg₂.trans (hg₃.trans hg₄)
        refine requested_of_insert b [.insertEvent envelope.event] [] ?_ (by simp [Write.isAuthorization]) (by simp)
          (.authorizationCreated hr hsig hparse he hdata ?_ hreference)
        · rw [hg.writes]
          simp [hw₁, h]
        · exact ⟨hrecord, huser, d, hg.mem (by simp), x, hx, by simpa using hid, hamount⟩

theorem handleEvent_requested {envelope : ProcessorEventEnvelope} (hr : r.route = .processorEvents)
    (hsig : Verifies env env.settings.webhookSigningSecret r.clock r.xGenPaySignature r.rawBody)
    (hparse : env.parseEnvelope r.rawBody = .ok envelope) (hw : t.writes = [.insertEvent envelope.event]) :
    (handleEvent env envelope).wp (engine fk) o (onOk fun _ t' => Requested env (.request r) t') t := by
  -- the other handlers insert no authorization
  have other : ∀ {t' : Txn Db Write} {act : Action}, t'.writes = act.writes → AnswersEvent env envelope act →
      envelope.eventType ≠ .authorizationCreated → Requested env (.request r) t' := fun hact hans hne =>
    requested_of_not_authorization fun b hb => by
      have := refers_of_event hans hne _ (hact ▸ hb)
      cases this
  unfold handleEvent
  refine wp_tryCatch ?_ fun e t' => by cases e <;> exact True.intro
  cases he : envelope.eventType with
  | authorizationCreated => exact handleAuthorizationCreated_requested hr hsig hparse he hw
  | authorizationApproved =>
    refine wp_imp (handleAuthorizationApproved_spec he hw) ?_
    rintro _ t' ⟨act, hact, -, hans⟩
    exact other hact hans (by simp [he])
  | authorizationDeclined =>
    refine wp_imp (handleAuthorizationDeclined_spec he hw) ?_
    rintro _ t' ⟨act, hact, -, hans⟩
    exact other hact hans (by simp [he])
  | settlementCompleted =>
    refine wp_imp (handleSettlementCompleted_spec he hw) ?_
    rintro _ t' ⟨act, hact, -, hans⟩
    exact other hact hans (by simp [he])

theorem processorEvents_requested (hr : r.route = .processorEvents)
    (hsig : Verifies env env.settings.webhookSigningSecret r.clock r.xGenPaySignature r.rawBody) :
    (processorEvents env r.rawBody).wp (engine fk) o (onOk fun _ t' => Requested env (.request r) t') Txn.fresh := by
  unfold processorEvents
  split
  · exact True.intro
  · rename_i envelope hparse
    unfold processEnvelope
    refine wp_seq tryClaim_spec ?_
    rintro b t₁ (⟨rfl, d, rfl⟩ | ⟨rfl, d, d', rfl, -⟩)
    · show Prog.wp _ _ (if true = true then _ else _) _ _
      rw [if_pos rfl]
      unfold processClaimed
      exact wp_seq (exceptValueError_spec (handleEvent_requested hr hsig hparse rfl)) fun _ _ h => h
    · show Prog.wp _ _ (if false = true then _ else _) _ _
      rw [if_neg (by decide)]
      exact requested_of_not_authorization (by simp)

/-- The routes whose transactions may insert an authorization. -/
def Route.authorizes : Route → Bool
  | .purchase .. | .cardAuthorization | .processorEvents => true
  | _ => false

theorem Acts.authorizes {a : Response} {act : Action} {ds : List Db} {job : Job} (h : Acts env a ds job act)
    {b : Authorization} (hb : .insertAuthorization b ∈ act.writes) :
    ∃ r, job = .request r ∧ r.route.authorizes = true := by
  cases h with
  | quiet => cases hb
  | seeded => simp [Action.writes] at hb
  | entity _ hact => cases act <;> simp [Action.writes, Action.isEntity] at hact hb
  | purchase hr => exact ⟨_, rfl, by rw [hr]; rfl⟩
  | refund => simp [Action.writes, mem_postings, mem_marks] at hb
  | card hr => exact ⟨_, rfl, by rw [hr]; rfl⟩
  | event hr => exact ⟨_, rfl, by rw [hr]; rfl⟩

/-- Whatever job it is: for each authorization that it inserts it has been asked. -/
theorem handle_requested (env : Env) (job : Job) (o : Nat → Choice) :
    ((genPay env).handle job).wp (genPay env).toEngine o (onOk fun _ t => Requested env job t) Txn.fresh := by
  by_cases hjob : ∃ r, job = .request r ∧ r.route.authorizes = true
  · obtain ⟨r, rfl, hauth⟩ := hjob
    show (route env r).wp _ _ _ _
    unfold route
    cases hr : r.route with
    | purchase data key =>
      exact withApiKey_client rfl fun c d hc => respond_spec (validated_spec fun data hdata =>
        validated_spec fun key _ => purchase_requested (hdata ▸ hr) rfl (by simp) hc)
    | cardAuthorization => exact respond_spec (cardAuthorization_requested hr)
    | processorEvents =>
      refine wp_seq ofExcept_spec ?_
      rintro rawBody _ ⟨rfl, hverify⟩
      obtain ⟨rfl, hsig⟩ := verify_ok hverify
      exact processorEvents_requested hr hsig
    | _ => simp [hr, Route.authorizes] at hauth
  · refine wp_imp (handle_spec env job o) ?_
    rintro a t ⟨act, hw, -, hans⟩
    exact requested_of_not_authorization fun b hb => hjob (hans.acts.authorizes (hw ▸ hb))

end GenPay
