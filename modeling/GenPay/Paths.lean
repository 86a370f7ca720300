import GenPay.Elsewhere
import GenPay.Processing

/-!
# Either path lands in the same place

A record is bought by `POST /purchase`, by a card authorization over its price, or by the events of the processor in
three deliveries, between which any jobs about other authorizations may run.  The three paths book the same sale or
none of them books any (`paths_agree`).
-/

namespace GenPay

open ReadCommitted

variable {env : Env} {d d' d₀ : Db} {s : AppSystem} {r : ResearchRecord} {u : String}

/-! ### The paths -/

/-- A request to buy the record, by an active client and under a new key. -/
structure DirectPath (env : Env) (d : Db) (r : ResearchRecord) (userId : String) (q : Request) (o : Nat → Choice)
    (key : String) : Prop where
  route : q.route = .purchase (some ⟨r.id, userId⟩) (some key)
  accepted : KeyAccepted env q d
  newKey : key ∉ d.column .idempotencyKeysKey
  unused : Unused o 0 d

/-- A card authorization over the price of the record. -/
structure CardPath (env : Env) (d : Db) (r : ResearchRecord) (userId : String) (q : Request) (o : Nat → Choice)
    (event : CardAuthorizationEvent) : Prop where
  route : q.route = .cardAuthorization
  parsed : env.parseCardAuthorization q.rawBody = .ok event
  buys : event.Buys r userId
  unused : Unused o 0 d

structure Delivery where
  request : Request
  event : ProcessorEventEnvelope
  drawn : Nat → Choice

/-- The answer to the delivery, and the rows it leaves. -/
def Delivery.serve (env : Env) (x : Delivery) (d : Db) : Except Exc Response × Db :=
  (genPay env).serve (.request x.request) x.drawn d

theorem Delivery.grows (env : Env) (x : Delivery) (hd : d.Sound) :
    (x.serve env d).2.Sound ∧ d.Extends (x.serve env d).2 :=
  ⟨serve_sound hd _ _, serve_extends hd _ _⟩

/-- The three deliveries about one reference, and the states in which the second and the third arrive. -/
structure Deliveries where
  reference : String
  created : Delivery
  between : AppSystem
  approved : Delivery
  later : AppSystem
  settled : Delivery

def Deliveries.events (p : Deliveries) : List String :=
  [p.created.event.eventId, p.approved.event.eventId, p.settled.event.eventId]

/-- The rows that a record names exist. -/
structure ResearchRecord.Refers (r : ResearchRecord) (d : Db) : Prop where
  archive : r.archiveId ∈ d.column .archivesId
  transcriptionist : ∀ v, r.transcriptionistUserId = some v → v ≠ "" → v ∈ d.column .usersId

/-- The record names a row that does not exist, which only an engine without foreign keys lets happen. -/
def ResearchRecord.Dangling (r : ResearchRecord) (env : Env) (d : Db) : Prop := env.foreignKeys = false ∧ ¬ r.Refers d

/-- New events that create an authorization of the record, approve it and settle it, while all other jobs that commit
are about other authorizations. -/
structure ProcessorPath (env : Env) (d : Db) (r : ResearchRecord) (userId : String) (p : Deliveries) : Prop where
  delivers : ∀ x ∈ [p.created, p.approved, p.settled], x.request.Delivers env x.event
  newEvents : ∀ x ∈ p.events, x ∉ d.column .eventsEventId
  distinct : p.events.Nodup
  newReference : p.reference ∉ d.column .authorizationsExternalReference
  created : p.created.event.eventType = .authorizationCreated ∧
    ∃ payload, env.validateCreated p.created.event.data = .ok payload ∧ payload.authorizationId = p.reference ∧
      payload.merchantReference = ⟨r.id, userId⟩ ∧ payload.amountCents = r.priceCents
  createdIds : FreshFrom p.created.drawn 0 d
  between : Run (genPay env) (fun t _ => t.job.Elsewhere env (r.Dangling env d) p.reference p.events)
    (System.initial (p.created.serve env d).2) p.between
  approved : p.approved.event.eventType = .authorizationApproved ∧
    ∃ payload, env.validateApproved p.approved.event.data = .ok payload ∧ payload.authorizationId = p.reference
  later : Run (genPay env) (fun t _ => t.job.Elsewhere env (r.Dangling env d) p.reference p.events)
    (System.initial (p.approved.serve env p.between.db).2) p.later
  settled : p.settled.event.eventType = .settlementCompleted ∧
    ∃ payload, env.validateSettlement p.settled.event.data = .ok payload ∧ payload.authorizationIds = [p.reference]
  settledIds : FreshFrom p.settled.drawn 0 p.later.db

/-! ### Where they land -/

/-- The settlements, the transactions and all accounts are the same. -/
def Db.SameLedger (d d' : Db) : Prop :=
  d'.settlements = d.settlements ∧ d'.transactions = d.transactions ∧ d'.accounts = d.accounts

/-- All deliveries are processed; the first two leave the ledger, the last one books the sale. -/
def Deliveries.Sells (env : Env) (d : Db) (r : ResearchRecord) (userId : String) (p : Deliveries) (s : Sale) : Prop :=
  ∃ a x ts batch, a.Holds r.id userId s.amountCents .authorized ∧ s.RowsOf a x ts ∧
    a ∈ p.later.db.authorizations ∧
    p.created.serve env d = (.ok (.processed p.created.event.eventId (.authorization a.id .pending)),
      { d.claimed p.created.event with authorizations := d.authorizations ++ [{ a with status := .pending }] }) ∧
    p.approved.serve env p.between.db = (.ok (.processed p.approved.event.eventId (.authorization a.id .authorized)),
      (p.between.db.claimed p.approved.event).approved a.id) ∧
    p.settled.serve env p.later.db =
      (.ok (.processed p.settled.event.eventId (.settlements batch [s.result a r x ts])),
        (p.later.db.claimed p.settled.event).sold s x ts)

/-- No delivery changes the ledger, and the last one is refused. -/
def Deliveries.Fails (env : Env) (d : Db) (p : Deliveries) : Prop :=
  d.SameLedger (p.created.serve env d).2 ∧ p.between.db.SameLedger (p.approved.serve env p.between.db).2 ∧
    p.settled.request.Fails env p.settled.drawn p.later.db

/-! ### The three deliveries -/

/-- The claim of an event leaves another event free. -/
theorem free_claimed {e : ProcessorEventEnvelope} {x : String} (hx : x ∉ d.column .eventsEventId) (hne : e.eventId ≠ x) :
    x ∉ (d.claimed e).column .eventsEventId := by
  intro hmem
  obtain ⟨y, hy, rfl⟩ := List.mem_map.1 hmem
  rcases List.mem_append.1 hy with hy | hy
  · exact hx (List.mem_map_of_mem (f := ProcessedWebhookEvent.eventId) hy)
  · exact hne (congrArg ProcessedWebhookEvent.eventId (List.mem_singleton.1 hy)).symm

/-- What the last delivery finds on `d'` when the first one has come on `d`. -/
structure Arrives (env : Env) (d d' : Db) (r : ResearchRecord) (p : Deliveries) : Prop where
  sound : d'.Sound
  grown : d.Extends d'
  accounts : r.Dangling env d → d'.accounts.map LedgerAccount.core = d.accounts.map LedgerAccount.core
  new : p.settled.event.eventId ∉ d'.column .eventsEventId

/-- Where every owner has an account, a sale is due whose price has a split. -/
theorem exists_due {n : Int} {split : RevenueSplitResult} (hcomplete : d.Complete) (hrefers : r.Refers d)
    (hr : r ∈ d.records) (hu : u ∈ d.column .usersId) (hsplit : splitAmount env.settings n none = .ok split) :
    ∃ s, Sale.Due env d r u none s ∧ s.amountCents = n := by
  obtain ⟨v, hv, rfl⟩ := List.mem_map.1 hu
  obtain ⟨x, hx, hxid⟩ := List.mem_map.1 hrefers.archive
  obtain ⟨buyer, hbuyer⟩ := hcomplete.user v hv
  obtain ⟨archive, harchive⟩ := hcomplete.archive x hx
  obtain ⟨platform, hplatform⟩ := hcomplete.record (List.ne_nil_of_mem hr)
  obtain ⟨transcriptionist, htranscriptionist⟩ := exists_transcribedBy r d
  exact ⟨⟨buyer, archive, transcriptionist, platform, n, split⟩,
    ⟨hbuyer, hxid ▸ harchive, htranscriptionist, hplatform, hsplit⟩, rfl⟩

/-- The users that a record names had their accounts before, so others do not matter. -/
theorem Sale.Due.extends {s : Sale} (h : s.Due env d r u none) (hcomplete : d.Complete) (hrefers : r.Refers d)
    (hgrown : d.Extends d') : s.Due env d' r u none where
  buyer := hgrown.userAccount h.buyer
  archive := hgrown.archiveAccount h.archive
  transcriptionist := by
    have htranscriptionist := h.transcriptionist
    revert htranscriptionist
    cases s.transcriptionist with
    | some id =>
      rintro ⟨v, hv, hne, ha⟩
      exact ⟨v, hv, hne, hgrown.userAccount ha⟩
    | none =>
      intro hnone v hv hne
      obtain ⟨w, hw, rfl⟩ := List.mem_map.1 (hrefers.transcriptionist v hv hne)
      obtain ⟨id, hid⟩ := hcomplete.user w hw
      exact absurd hid (hnone w.id hv hne id)
  platform := hgrown.platformAccount h.platform
  split := h.split

namespace Arrives

variable {p : Deliveries}

theorem record (h : Arrives env d d' r p) (hr : r ∈ d.records) : r ∈ d'.records := by
  obtain ⟨q, hq, rfl⟩ := h.grown.records.mem hr
  exact hq

/-- When the last delivery comes, the same sales are due as when the first one came. -/
theorem due_iff {s : Sale} (h : Arrives env d d' r p) (hcomplete : d.Complete)
    (hrefers : env.foreignKeys = true → r.Refers d) (hr : r ∈ d.records) (hu : u ∈ d.column .usersId) :
    s.Due env d' r u none ↔ s.Due env d r u none := by
  by_cases hdangling : r.Dangling env d
  · exact ⟨fun hs => hs.of_core (h.accounts hdangling).symm, fun hs => hs.of_core (h.accounts hdangling)⟩
  have hrefers : r.Refers d := by
    by_contra hno
    cases hfk : env.foreignKeys with
    | true => exact hno (hrefers hfk)
    | false => exact hdangling ⟨hfk, hno⟩
  refine ⟨fun hs => ?_, fun hs => hs.extends hcomplete hrefers h.grown⟩
  obtain ⟨s₀, hs₀, hamount⟩ := exists_due hcomplete hrefers hr hu hs.split
  rwa [hs.unique h.sound (hs₀.extends hcomplete hrefers h.grown) hamount.symm]

end Arrives

namespace ProcessorPath

variable {p : Deliveries}

theorem distinct_ids (h : ProcessorPath env d r u p) : p.created.event.eventId ≠ p.approved.event.eventId ∧
    p.created.event.eventId ≠ p.settled.event.eventId ∧ p.approved.event.eventId ≠ p.settled.event.eventId := by
  have := h.distinct
  simp only [Deliveries.events, List.nodup_cons, List.mem_cons, List.not_mem_nil, or_false, not_or] at this
  tauto

/-- The authorization of an existing user is there when it is settled. -/
theorem held (h : ProcessorPath env d r u p) (hd : d.Sound) (hr : r ∈ d.records) (hu : u ∈ d.column .usersId) :
    Arrives env d p.later.db r p ∧ ∃ a : Authorization, a.Holds r.id u r.priceCents .authorized ∧
      a.externalReference = p.reference ∧ a ∈ p.later.db.authorizations ∧
      a.id ∉ p.later.db.column .settlementsAuthorization ∧
      p.created.serve env d = (.ok (.processed p.created.event.eventId (.authorization a.id .pending)),
        { d.claimed p.created.event with authorizations := d.authorizations ++ [{ a with status := .pending }] }) ∧
      p.approved.serve env p.between.db = (.ok (.processed p.approved.event.eventId (.authorization a.id .authorized)),
        (p.between.db.claimed p.approved.event).approved a.id) := by
  obtain ⟨hne₁₂, hne₁₃, hne₂₃⟩ := h.distinct_ids
  obtain ⟨htype₁, payload₁, hdata₁, href₁, hmerchant, hamount⟩ := h.created
  obtain ⟨htype₂, payload₂, hdata₂, href₂⟩ := h.approved
  have hnew : ∀ {x}, x ∈ p.events → x ∉ d.column .eventsEventId := fun hx => h.newEvents _ hx
  rcases serve_created (h.delivers p.created (by simp)) (hnew (by simp [Deliveries.events])) htype₁ hdata₁ hr
    (href₁ ▸ h.newReference) hmerchant h.createdIds with ⟨-, a, ha, haref, hid, hserve₁⟩ | ⟨hno, -⟩
  swap
  · exact absurd hu hno
  have haref : a.externalReference = p.reference := haref.trans href₁
  -- the first delivery and what runs until the second
  let d₁ : Db := { d.claimed p.created.event with authorizations := d.authorizations ++ [a] }
  have hserve₁ : p.created.serve env d = (.ok (.processed p.created.event.eventId (.authorization a.id .pending)), d₁) :=
    hserve₁
  obtain ⟨hd₁, hgrown₁⟩ : d₁.Sound ∧ d.Extends d₁ := by
    have hgrows := p.created.grows env hd
    rwa [hserve₁] at hgrows
  have hrun₁ := h.between
  rw [hserve₁] at hrun₁
  have hbetween := Undisturbed.run hd₁ hrun₁
  have hunsettled : a.id ∉ d₁.column .settlementsAuthorization := by
    intro hmem
    obtain ⟨x, hx, hxa⟩ := List.mem_map.1 hmem
    exact hid (hxa ▸ hd.authorization x hx)
  obtain ⟨ha₁, hunsettled₁⟩ := hbetween.held a (List.mem_append_right _ (List.mem_singleton.2 rfl)) haref hunsettled
  -- the second delivery and what runs until the third
  have hserve₂ := serve_approved (o := p.approved.drawn) hbetween.sound (h.delivers p.approved (by simp))
    (hbetween.events _ (by simp [Deliveries.events]) (free_claimed (hnew (by simp [Deliveries.events])) hne₁₂)) htype₂
    hdata₂ ha₁ (haref.trans href₂.symm) ha.status
  have hserve₂ : p.approved.serve env p.between.db = _ := hserve₂
  obtain ⟨hd₂, hgrown₂⟩ : ((p.between.db.claimed p.approved.event).approved a.id).Sound ∧
      p.between.db.Extends ((p.between.db.claimed p.approved.event).approved a.id) := by
    have hgrows := p.approved.grows env hbetween.sound
    rwa [hserve₂] at hgrows
  have hrun₂ := h.later
  rw [hserve₂] at hrun₂
  have hlater := Undisturbed.run hd₂ hrun₂
  obtain ⟨ha₂, hunsettled₂⟩ := hlater.held { a with status := .authorized }
    (List.mem_map.2 ⟨a, ha₁, by simp⟩) haref hunsettled₁
  have hnew₃ : p.settled.event.eventId ∉ p.between.db.column .eventsEventId :=
    hbetween.events _ (by simp [Deliveries.events]) (free_claimed (hnew (by simp [Deliveries.events])) hne₁₃)
  refine ⟨⟨hlater.sound, ((hgrown₁.trans hbetween.grown).trans hgrown₂).trans hlater.grown,
    fun hdangling => (hlater.accounts hdangling).trans (hbetween.accounts hdangling),
    hlater.events _ (by simp [Deliveries.events]) (free_claimed hnew₃ hne₂₃)⟩, { a with status := .authorized },
    ⟨ha.record, ha.user, ha.amount.trans hamount, rfl, ha.declineReason⟩, haref, ha₂, hunsettled₂, ?_, hserve₂⟩
  rw [hserve₁]
  have ha' : ({ a with status := .pending } : Authorization) = a := by rw [← ha.status]
  simp only [ha']
  rfl

/-- An event that settles nothing leaves the ledger and every reference vacant that is. -/
theorem decides (h : ProcessorPath env d r u p) (hd : d'.Sound) : d'.SameLedger (p.approved.serve env d').2 ∧
    (p.settled.event.eventId ∉ d'.column .eventsEventId →
      p.settled.event.eventId ∉ (p.approved.serve env d').2.column .eventsEventId) ∧
    (d'.Vacant p.reference → (p.approved.serve env d').2.Vacant p.reference) := by
  have hq := h.delivers p.approved (by simp)
  unfold Delivery.serve
  rcases hserve : (genPay env).serve (.request p.approved.request) p.approved.drawn d' with ⟨e | a, d₂⟩
  · rw [Service.serve_error hserve]
    exact ⟨⟨rfl, rfl, rfl⟩, fun hx => hx, fun hx => hx⟩
  · obtain ⟨act, ds, hc, hans, -, rfl⟩ := serve_commits hd hserve
    have hnames : ¬ (Job.request p.approved.request).Names env (.eventsEventId, p.settled.event.eventId) := by
      generalize hk : (Column.eventsEventId, p.settled.event.eventId) = k
      intro hn
      cases hn with
      | event _ hparse =>
        rw [hq.parsed] at hparse
        cases hparse
        exact h.distinct_ids.2.2 (congrArg Prod.snd hk).symm
      | _ => cases hk
    have hact : act = .quiet ∨ ∃ e b, act = .decided e b .authorized none := by
      have hdelivery := hans
      simp only [Answers, AnswersRequest, hq.route] at hdelivery
      obtain ⟨-, e, hparse, ⟨rfl, -⟩ | ⟨-, hevent⟩⟩ := hdelivery
      · exact Or.inl rfl
      · rw [hq.parsed] at hparse
        cases hparse
        simp only [AnswersEvent, h.approved.1] at hevent
        obtain ⟨data, b, -, -, rfl⟩ := hevent
        exact Or.inr ⟨_, b, rfl⟩
    refine ⟨?_, event_free_after hans hnames, vacant_after hc fun e b he => ?_⟩
    · rcases hact with rfl | ⟨e, b, rfl⟩ <;> exact ⟨rfl, rfl, rfl⟩
    · rcases hact with rfl | ⟨e', b', rfl⟩ <;> cases he

/-- Without the user nothing is ever there to settle. -/
theorem unheld (h : ProcessorPath env d r u p) (hd : d.Sound) (hr : r ∈ d.records) (hu : u ∉ d.column .usersId) :
    (∀ a q s, ¬ p.later.db.Settleable env p.reference a q s) ∧ p.Fails env d := by
  obtain ⟨-, hne₁₃, -⟩ := h.distinct_ids
  obtain ⟨htype₁, payload₁, hdata₁, href₁, hmerchant, hamount⟩ := h.created
  obtain ⟨htype₃, payload₃, hdata₃, hids⟩ := h.settled
  have hnew : ∀ {x}, x ∈ p.events → x ∉ d.column .eventsEventId := fun hx => h.newEvents _ hx
  rcases serve_created (h.delivers p.created (by simp)) (hnew (by simp [Deliveries.events])) htype₁ hdata₁ hr
    (href₁ ▸ h.newReference) hmerchant h.createdIds with ⟨hu', -⟩ | ⟨-, e, hserve₁⟩
  · exact absurd hu' hu
  have hserve₁ : p.created.serve env d = (.error e, d) := hserve₁
  have hvacant : d.Vacant p.reference := fun b hb href =>
    absurd (href ▸ List.mem_map_of_mem (f := Authorization.externalReference) hb) h.newReference
  have hrun₁ := h.between
  rw [hserve₁] at hrun₁
  have hbetween := Undisturbed.run hd hrun₁
  obtain ⟨hledger₂, hevent₂, hvacant₂⟩ := h.decides hbetween.sound
  have hlater := Undisturbed.run (p.approved.grows env hbetween.sound).1 h.later
  have hnew₃ := hlater.events _ (by simp [Deliveries.events])
    (hevent₂ (hbetween.events _ (by simp [Deliveries.events]) (hnew (by simp [Deliveries.events]))))
  have hnone : ∀ a q s, ¬ p.later.db.Settleable env p.reference a q s := fun a q s hs =>
    hs.2.unsettled (hlater.vacant (hvacant₂ (hbetween.vacant hvacant)) a hs.2.authorization hs.1)
  refine ⟨hnone, by rw [hserve₁]; exact ⟨rfl, rfl, rfl⟩, hledger₂, ?_⟩
  rcases serve_settled hlater.sound (h.delivers p.settled (by simp)) hnew₃ htype₃ hdata₃ hids h.settledIds with
    ⟨a, q, s, x, ts, hs, -⟩ | ⟨-, hfails⟩
  · exact absurd hs (hnone a q s)
  · exact hfails

/-- The deliveries book the sale, or there is none to book. -/
theorem sells_or_fails (h : ProcessorPath env d r u p) (hd : d.Sound) (hcomplete : d.Complete)
    (hrefers : env.foreignKeys = true → r.Refers d) (hr : r ∈ d.records) :
    (∃ s, s.Available env d r u r.priceCents ∧ p.Sells env d r u s) ∨
      (¬ ∃ s, Sale.Available env d r u r.priceCents s) ∧ p.Fails env d := by
  by_cases hu : u ∈ d.column .usersId
  swap
  · exact Or.inr ⟨fun ⟨s, hs⟩ => hu hs.user, (h.unheld hd hr hu).2⟩
  obtain ⟨harrives, a, ha, haref, hmem, hunsettled, hserve₁, hserve₂⟩ := h.held hd hr hu
  obtain ⟨htype₃, payload₃, hdata₃, hids⟩ := h.settled
  rcases serve_settled harrives.sound (h.delivers p.settled (by simp)) harrives.new htype₃ hdata₃ hids h.settledIds with
    ⟨b, q, s, x, ts, ⟨hbref, hs⟩, hrows, hserve₃⟩ | ⟨hnone, hfails⟩
  · -- the reference is that of one authorization, and its record is `r`
    obtain rfl : b = a := List.inj_on_of_nodup_map (harrives.sound.unique .authorizationsExternalReference)
      hs.authorization hmem (hbref.trans haref.symm)
    obtain rfl : q = r := List.inj_on_of_nodup_map (harrives.sound.unique .recordsId) hs.record.1 (harrives.record hr)
      (hs.record.2.trans ha.record)
    have hprice : s.amountCents = q.priceCents := hs.amount.trans ha.amount
    have hdue := (harrives.due_iff hcomplete hrefers hr hu).1 (ha.user ▸ hs.sale)
    exact Or.inl ⟨s, ⟨hu, hdue, hprice⟩, b, x, ts, _, hprice ▸ ha, hrows, hmem, hserve₁, hserve₂, hserve₃⟩
  · refine Or.inr ⟨fun ⟨s, hs⟩ => hnone ⟨a, r, s, haref, hmem, ha.status, hunsettled,
      ⟨harrives.record hr, ha.record.symm⟩, ha.user ▸ (harrives.due_iff hcomplete hrefers hr hu).2 hs.due,
      hs.price.trans ha.amount.symm⟩, ?_, ?_, hfails⟩
    · rw [hserve₁]
      exact ⟨rfl, rfl, rfl⟩
    · rw [hserve₂]
      exact ⟨rfl, rfl, rfl⟩

end ProcessorPath

/-! ### Agreement -/

/-- In every reachable state the three paths to buy a record for its price book the same sale, of which there is one,
or there is none and each of them leaves the ledger as it is. -/
theorem paths_agree {env : Env} {d₀ : Db} {s : AppSystem} {r : ResearchRecord} {u key : String} {q q' : Request}
    {o o' : Nat → Choice} {event : CardAuthorizationEvent} {p : Deliveries} (h₀ : Seeded env d₀)
    (h : Reachable (genPay env) d₀ s) (hr : r ∈ s.db.records) (hdirect : DirectPath env s.db r u q o key)
    (hcard : CardPath env s.db r u q' o' event) (hprocessor : ProcessorPath env s.db r u p) :
    (∃! sale, Sale.Available env s.db r u r.priceCents sale ∧
      q.Sells env o s.db r u (fun res => [⟨key, some res⟩]) sale ∧ q'.Sells env o' s.db r u (fun _ => []) sale ∧
      p.Sells env s.db r u sale) ∨
    (¬ ∃ sale, Sale.Available env s.db r u r.priceCents sale) ∧
      q.Fails env o s.db ∧ q'.Fails env o' s.db ∧ p.Fails env s.db := by
  have hd : s.db.Sound := run_sound h₀.sound h
  have hrefers : env.foreignKeys = true → r.Refers s.db := fun hfk =>
    let hreferential := run_referential h₀ (fun _ _ _ => Or.inl hfk) h
    ⟨hreferential.recordArchive r hr, fun v hv _ => hreferential.recordTranscriptionist r hr v hv⟩
  have hone : ∀ {x y : Sale}, x.Available env s.db r u r.priceCents → y.Available env s.db r u r.priceCents → x = y :=
    fun hx hy => hx.due.unique hd hy.due (hx.price.trans hy.price.symm)
  rcases serve_purchase hd hr hdirect.route hdirect.accepted hdirect.newKey hdirect.unused with
    ⟨x, hx, hsells⟩ | ⟨hnone, hfails⟩ <;>
  rcases serve_cardAuthorization hd hr hcard.route hcard.parsed hcard.buys hcard.unused with
    ⟨y, hy, hsells'⟩ | ⟨hnone', hfails'⟩ <;>
  rcases hprocessor.sells_or_fails hd (run_complete h₀ h) hrefers hr with ⟨z, hz, hsells''⟩ | ⟨hnone'', hfails''⟩
  · obtain rfl := hone hx hy
    obtain rfl := hone hx hz
    exact Or.inl ⟨x, ⟨hx, hsells, hsells', hsells''⟩, fun w hw => hone hw.1 hx⟩
  · exact absurd ⟨x, hx⟩ hnone''
  · exact absurd ⟨x, hx⟩ hnone'
  · exact absurd ⟨x, hx⟩ hnone'
  · exact absurd ⟨y, hy⟩ hnone
  · exact absurd ⟨y, hy⟩ hnone
  · exact absurd ⟨z, hz⟩ hnone
  · exact Or.inr ⟨hnone, hfails, hfails', hfails''⟩

/-! ### Three ways to buy one record -/

namespace Sample

/-- A card authorization that names the user. -/
def buyerBody : String :=
  "\x7b\"event_type\": \"card_authorization\", \"amount\": \"5.99\", \"record_id\": \"CENSUS-1880-004\", " ++
    "\"user_id\": \"10000016-0000-4000-8000-000000000000\"\x7d"

def buyerEvent : CardAuthorizationEvent := ⟨"card_authorization", ⟨599, -2⟩, "CENSUS-1880-004", some (uuid 0 16)⟩

/-- The sample with the parsed text of one more body. -/
def buyerEnv : Env :=
  { Sample.env with
    parseCardAuthorization := fun body =>
      if String.fromUTF8? body = some buyerBody then .ok buyerEvent else Sample.env.parseCardAuthorization body }

theorem buyerEnv_parse (body : ByteArray) : buyerEnv.parseCardAuthorization body =
    if String.fromUTF8? body = some buyerBody then .ok buyerEvent else Sample.env.parseCardAuthorization body := rfl

theorem seeded_buyerEnv : Seeded buyerEnv seeded := ⟨oracle 0, rfl⟩

/-- The seeded record. -/
def record : ResearchRecord :=
  ⟨uuid 0 20, uuid 0 8, "CENSUS-1880-004", "1880 Census, District 4", 599, some (uuid 0 12), 20⟩

theorem unused_oracle {a : Nat} (ha : 1 ≤ a) : Unused (oracle a) 0 seeded where
  ids := freshFrom_oracle 0 (List.range 30) (fun m hm => by have := List.mem_range.1 hm; omega) (by decide +kernel)
  references i _ hmem := by
    rw [Db.column, seeded_env.no_ledger.1] at hmem
    cases hmem

def direct : Request := keyed (.purchase (some ⟨uuid 0 20, uuid 0 16⟩) (some "key-1"))

def card : Request := ⟨.cardAuthorization, none, none, buyerBody.toUTF8, 1767225600⟩

theorem directPath : DirectPath buyerEnv seeded record (uuid 0 16) direct (oracle 1) "key-1" where
  route := rfl
  accepted := by
    have hclient : (seeded.clients.any fun c => c.apiKeyHash == buyerEnv.sha256 "change-me" && c.isActive) = true := by
      decide +kernel
    obtain ⟨c, hc, hactive⟩ := List.any_eq_true.1 hclient
    obtain ⟨hhash, hactive⟩ := Bool.and_eq_true_iff.1 hactive
    exact ⟨"change-me", rfl, c, hc, beq_iff_eq.1 hhash, hactive⟩
  newKey := by
    rw [Db.column, seeded_env.no_ledger.2.2.2.1]
    exact List.not_mem_nil
  unused := unused_oracle (le_refl _)

theorem cardPath : CardPath buyerEnv seeded record (uuid 0 16) card (oracle 1) buyerEvent where
  route := rfl
  parsed := by
    have htext : String.fromUTF8? buyerBody.toUTF8 = some buyerBody := dif_pos buyerBody.isValidUTF8
    rw [show card.rawBody = buyerBody.toUTF8 from rfl, buyerEnv_parse, if_pos htext]
  buys :=
    { type := rfl
      record := rfl
      user := rfl
      amount := by norm_num [buyerEvent, record]
      exact := by decide }
  unused := unused_oracle (le_refl _)

/-- A purchase of the record by the same user, under another key. -/
def isPurchase (t : AppSession) (_ : Db) : Bool :=
  match t.job with
  | .request r => match r.route with
    | .purchase .. => true
    | _ => false
  | _ => false

def bought (d : Db) : AppSystem :=
  scheduled buyerEnv d isPurchase (.start (Case.buys "key-2").job (oracle 2) :: List.replicate 35 (.exec 0))

def arriving (e : Event) (a : Nat) : Delivery := ⟨delivery e, e.envelope, oracle a⟩

/-- The state in which the approval arrives: the record has been bought once more in between. -/
def created : AppSystem := bought ((arriving .created 1).serve buyerEnv seeded).2

def deliveries : Deliveries where
  reference := "auth_1"
  created := arriving .created 1
  between := created
  approved := arriving .approved 3
  later := System.initial ((arriving .approved 3).serve buyerEnv created.db).2
  settled := arriving .settled 4

theorem delivers (e : Event) : (delivery e).Delivers buyerEnv e.envelope := ⟨rfl, verified e, parse_body e⟩

theorem serve_arriving (e : Event) (a : Nat) (d : Db) : (arriving e a).serve buyerEnv d =
    Service.serve { genPay buyerEnv with handle := fun _ => processEnvelope buyerEnv e.envelope }
      (Job.request (delivery e)) (oracle a) d := by
  have hhandle : (genPay buyerEnv).handle (.request (delivery e)) = processEnvelope buyerEnv e.envelope :=
    route_processorEvents (delivers e).route (delivers e).verified (delivers e).parsed
  unfold Delivery.serve Service.serve
  simp only [arriving, hhandle]

theorem elsewhere_of_isPurchase {t : AppSession} {d : Db} {dangling : Prop} {reference : String} {events : List String}
    (h : isPurchase t d = true) : t.job.Elsewhere buyerEnv dangling reference events := by
  unfold isPurchase at h
  split at h
  · split at h
    · rename_i q hjob _ data key hr
      rw [hjob]
      have hnames : ∀ c x, c ≠ .idempotencyKeysKey → ¬ (Job.request q).Names buyerEnv (c, x) := by
        intro c x hc
        generalize hk : (c, x) = k
        intro hn
        cases hn with
        | key => exact hc (congrArg Prod.fst hk)
        | refund hr' => rw [hr] at hr'; cases hr'
        | event hr' => rw [hr] at hr'; cases hr'
        | reference hr' => rw [hr] at hr'; cases hr'
      exact ⟨fun _ => by simp [Job.insertsEntities, hr], hnames .authorizationsExternalReference _ (by decide),
        fun x _ => hnames .eventsEventId x (by decide)⟩
    · cases h
  · cases h

theorem processorPath : ProcessorPath buyerEnv seeded record (uuid 0 16) deliveries where
  delivers x hx := by
    simp only [deliveries, List.mem_cons, List.not_mem_nil, or_false] at hx
    rcases hx with rfl | rfl | rfl <;> exact delivers _
  newEvents x _ := by
    rw [Db.column, seeded_env.no_ledger.2.2.2.2]
    exact List.not_mem_nil
  distinct := by decide
  newReference := by
    rw [Db.column, seeded_env.no_ledger.1]
    exact List.not_mem_nil
  created := ⟨rfl, _, rfl, rfl, rfl, rfl⟩
  createdIds := (unused_oracle (le_refl _)).ids
  between := by
    simp only [deliveries, created, bought]
    exact run_scheduled (fun _ _ h => elsewhere_of_isPurchase h) _
  approved := ⟨rfl, _, rfl, rfl⟩
  later := Run.refl _
  settled := ⟨rfl, _, rfl, rfl⟩
  settledIds := by
    refine freshFrom_oracle 0 (List.range 30 ++ [1005, 2006, 2014, 2016, 2020, 2024, 2028])
      (fun m hm => ?_) ?_
    · have : ∀ m ∈ List.range 30 ++ [1005, 2006, 2014, 2016, 2020, 2024, 2028], m < 1000 * 4 := by decide
      exact this m hm
    · unfold deliveries created
      simp only [serve_arriving]
      decide +kernel

end Sample

open Sample in
theorem paths_agree_census : created.db.settlements.length = 1 ∧
    ∃ sale, Sale.Available buyerEnv seeded record (uuid 0 16) 599 sale ∧
      direct.Sells buyerEnv (oracle 1) seeded record (uuid 0 16) (fun res => [⟨"key-1", some res⟩]) sale ∧
      card.Sells buyerEnv (oracle 1) seeded record (uuid 0 16) (fun _ => []) sale ∧
      deliveries.Sells buyerEnv seeded record (uuid 0 16) sale := by
  constructor
  · unfold created
    simp only [serve_arriving]
    decide +kernel
  have hr : record ∈ seeded.records := by decide +kernel
  have hstart : Reachable (genPay buyerEnv) seeded (System.initial seeded) := Run.refl _
  rcases paths_agree seeded_buyerEnv hstart hr directPath cardPath processorPath with
    ⟨sale, hsale, -⟩ | ⟨hnone, -⟩
  · exact ⟨sale, hsale⟩
  · have hsplits : buyerEnv.settings.Splits := ⟨defaultSplit, make_bps defaultSplit⟩
    obtain ⟨split, hsplit⟩ : ∃ split, splitAmount buyerEnv.settings 599 none = .ok split :=
      exists_split (fun _ => hsplits) (by decide)
    obtain ⟨sale, hdue, hamount⟩ := exists_due (run_complete seeded_buyerEnv hstart)
      (r := record) (u := uuid 0 16) ⟨by decide +kernel, by decide +kernel⟩ hr (by decide +kernel) hsplit
    exact absurd ⟨sale, by decide +kernel, hdue, hamount⟩ hnone

end GenPay
