import GenPay.Purchasing

/-!
# Deliveries on an undisturbed database

The handlers of `authorization.created`, `authorization.approved` and of a `settlement.completed` of one
authorization, for a verified delivery of a new event: when they return, and the rows they leave
(`serve_created`, `serve_approved`, `serve_settled`).
-/

namespace GenPay

open ReadCommitted
open Prog (ends_seq ends_exec)

variable {fk : Bool} {o : Nat → Choice} {d : Db} {t : Txn Db Write} {env : Env} {r : ResearchRecord} {u : String}
  {reference : String}

/-- The request delivers the event. -/
structure Request.Delivers (env : Env) (q : Request) (e : ProcessorEventEnvelope) : Prop where
  route : q.route = .processorEvents
  verified : verify env env.settings.webhookSigningSecret q.clock q.xGenPaySignature q.rawBody = .ok q.rawBody
  parsed : env.parseEnvelope q.rawBody = .ok e

/-! ### Claim and handler -/

/-- The answer to the delivery of a new event is that of its handler. -/
theorem delivers_ends {q : Request} {e : ProcessorEventEnvelope} {type : ProcessorEventType}
    {P : EventResult → Txn Db Write → Prop} {F : Prop} (hq : q.Delivers env e)
    (hnew : e.eventId ∉ d.column .eventsEventId) (htype : e.eventType = type)
    (h : (handler env type e.data).Ends (genPay env).toEngine o d P F
      ((Txn.fresh : Txn Db Write).wrote d (.insertEvent e.event))) :
    ((genPay env).handle (.request q)).Ends (genPay env).toEngine o d
      (fun a t' => ∃ result, a = .processed e.eventId result ∧ P result t') F Txn.fresh := by
  have hhandle : (genPay env).handle (.request q) = processEnvelope env e :=
    route_processorEvents hq.route hq.verified hq.parsed
  have hclaim : (engine env.foreignKeys).violation ((Txn.fresh : Txn Db Write).view (engine env.foreignKeys) d)
      (.insertEvent e.event) = none :=
    Db.violation_eq_none.2
      ⟨by simpa [Write.keys, ProcessorEventEnvelope.event] using hnew, by simp [Write.references], rfl⟩
  rw [hhandle]
  refine ends_seq (P := fun b t' => b = true ∧ t' = (Txn.fresh : Txn Db Write).wrote d (.insertEvent e.event))
    (X := False) (Prog.ends_write hclaim ⟨rfl, rfl⟩) False.elim ?_
  rintro _ _ ⟨rfl, rfl⟩
  show (processClaimed env e).Ends _ _ _ _ _ _
  unfold processClaimed exceptValueError handleEvent
  rw [htype]
  refine ends_seq (Prog.ends_tryCatch (Prog.ends_tryCatch h fun x => ?_) fun x => ?_) id ?_
  · cases x <;> exact ⟨_, rfl⟩
  · cases hx : x.asValueError <;> exact ⟨_, rfl⟩
  · exact fun result t' hresult => ⟨result, rfl, hresult⟩

/-- The rows as the handler of a new event sees them first. -/
def Db.claimed (d : Db) (e : ProcessorEventEnvelope) : Db := { d with events := d.events ++ [e.event] }

theorem view_claimed (e : ProcessorEventEnvelope) :
    ((Txn.fresh : Txn Db Write).wrote d (.insertEvent e.event)).view (engine fk) d = d.claimed e := by
  rw [Txn.view_wrote]
  rfl

theorem unique_claimed {e : ProcessorEventEnvelope} (hd : d.Sound) (hnew : e.eventId ∉ d.column .eventsEventId)
    (c : Column) : ((d.claimed e).column c).Nodup := by
  refine (uniqueKeys true).unique_apply d (.insertEvent e.event) hd.unique (fun k hk => ?_) c
  rw [List.mem_singleton.1 hk]
  exact hnew

theorem requireAuthorization_ends : (requireAuthorization reference).Ends (engine fk) o d
    (fun a t' => t' = t.saw d ∧ a ∈ (t.view (engine fk) d).authorizations ∧ a.externalReference = reference)
    (∀ a ∈ (t.view (engine fk) d).authorizations, a.externalReference ≠ reference) t := by
  unfold requireAuthorization
  refine ends_seq scalar_ends False.elim ?_
  rintro a _ ⟨rfl, hsome, hnone⟩
  cases a with
  | some a => exact ⟨rfl, (hsome a rfl).1, by simpa using (hsome a rfl).2⟩
  | none => exact fun a ha => by simpa using hnone rfl a ha

/-! ### `authorization.created` -/

theorem handleAuthorizationCreated_ends {data : List (String × Value)} {payload : AuthorizationCreatedData}
    (hdata : env.validateCreated data = .ok payload) (hr : r ∈ (t.view (engine fk) d).records)
    (href : payload.authorizationId ∉ (t.view (engine fk) d).column .authorizationsExternalReference)
    (hrecord : payload.merchantReference.researchRecordId = r.id) :
    (handleAuthorizationCreated env data).Ends (engine fk) o d
      (fun result t' => ∃ a : Authorization, result = .authorization a.id .pending ∧
        payload.merchantReference.userId ∈ (t.view (engine fk) d).column .usersId ∧
        a.Holds r.id payload.merchantReference.userId payload.amountCents .pending ∧
        a.externalReference = payload.authorizationId ∧ a.id ∉ (t.view (engine fk) d).column .authorizationsId ∧
        t'.view (engine fk) d = (t.view (engine fk) d).apply (.insertAuthorization a))
      (¬ (FreshFrom o t.seen.length (t.view (engine fk) d) ∧
        payload.merchantReference.userId ∈ (t.view (engine fk) d).column .usersId)) t := by
  unfold handleAuthorizationCreated
  rw [hdata]
  refine ends_seq (X := False) (P := fun x t' => payload = x ∧ t = t') ⟨rfl, rfl⟩ False.elim ?_
  rintro _ _ ⟨rfl, rfl⟩
  refine ends_seq scalar_ends False.elim ?_
  rintro known _ ⟨rfl, hknown, -⟩
  cases known with
  | some a => exact absurd (List.mem_map.2 ⟨a, (hknown a rfl).1, by simpa using (hknown a rfl).2⟩) href
  | none =>
  refine ends_seq scalar_ends False.elim ?_
  rintro record _ ⟨rfl, -, hnorecord⟩
  cases record with
  | none => exact absurd (hnorecord rfl r hr) (by simp [hrecord])
  | some q =>
  refine ends_seq scalar_ends False.elim ?_
  rintro user _ ⟨rfl, huser, hnouser⟩
  cases user with
  | none =>
    rintro ⟨-, hu⟩
    obtain ⟨v, hv, hid⟩ := List.mem_map.1 hu
    simpa [hid] using hnouser rfl v hv
  | some v =>
  have huser : payload.merchantReference.userId ∈ (t.view (engine fk) d).column .usersId :=
    List.mem_map.2 ⟨v, (huser v rfl).1, by simpa using (huser v rfl).2⟩
  refine ends_seq scalar_ends False.elim ?_
  rintro client _ ⟨rfl, hclient, -⟩
  have hadv : Advances fk o d t ((((t.saw d).saw d).saw d).saw d) _ :=
    (((Advances.saw t).trans (Advances.saw _)).trans (Advances.saw _)).trans (Advances.saw _)
  refine ends_seq (insert_ends (f := fun c => (⟨c.uuid, payload.merchantReference.researchRecordId,
    payload.merchantReference.userId, payload.amountCents, payload.authorizationId, none, .pending,
    client.map (·.id), c.now⟩ : Authorization)) (w := .insertAuthorization)) ?_ ?_
  · rintro hv ⟨hfresh, -⟩
    refine hv (Db.violation_eq_none.2 ⟨fun k hk => ?_, fun _ k hk => ?_, rfl⟩)
    · rcases List.mem_pair.1 hk with rfl | rfl
      · exact (hadv.fresh hfresh).new _ (le_refl _) .authorizationsId (by decide)
      · exact href
    · simp only [Write.references, List.mem_cons, Option.mem_toList, Option.map_eq_some_iff] at hk
      rcases hk with rfl | rfl | ⟨_, ⟨c, rfl, rfl⟩, rfl⟩
      · rw [hrecord]
        exact List.mem_map_of_mem (f := ResearchRecord.id) hr
      · exact huser
      · exact List.mem_map_of_mem (f := ApiClient.id) (hclient c rfl).1
  · rintro a _ ⟨rfl, rfl, hv⟩
    refine ⟨_, rfl, huser, ⟨hrecord, rfl, rfl, rfl, rfl⟩, rfl, ?_, ?_⟩
    · exact (Db.violation_eq_none.1 hv).1 (.authorizationsId, _) (by simp [Write.keys])
    · rw [Txn.view_wrote]
      rfl

theorem serve_created {q : Request} {e : ProcessorEventEnvelope} {payload : AuthorizationCreatedData}
    (hq : q.Delivers env e) (hnew : e.eventId ∉ d.column .eventsEventId) (htype : e.eventType = .authorizationCreated)
    (hdata : env.validateCreated e.data = .ok payload) (hr : r ∈ d.records)
    (href : payload.authorizationId ∉ d.column .authorizationsExternalReference)
    (hmerchant : payload.merchantReference = ⟨r.id, u⟩) (ho : FreshFrom o 0 d) :
    (u ∈ d.column .usersId ∧ ∃ a : Authorization, a.Holds r.id u payload.amountCents .pending ∧
      a.externalReference = payload.authorizationId ∧ a.id ∉ d.column .authorizationsId ∧
      (genPay env).serve (.request q) o d = (.ok (.processed e.eventId (.authorization a.id .pending)),
        { d.claimed e with authorizations := d.authorizations ++ [a] })) ∨
      u ∉ d.column .usersId ∧ q.Fails env o d := by
  let t : Txn Db Write := (Txn.fresh : Txn Db Write).wrote d (.insertEvent e.event)
  have hview : t.view (engine env.foreignKeys) d = d.claimed e := view_claimed e
  have hadv : Advances env.foreignKeys o d Txn.fresh t [.insertEvent e.event] :=
    Advances.wrote (by simp [Write.keys, idColumns])
  have hends := @handleAuthorizationCreated_ends env.foreignKeys o d t env r e.data payload hdata
    (by rw [hview]; exact hr) (by rw [hview]; exact href) (by rw [hmerchant])
  rw [hmerchant, hview] at hends
  rcases Service.serve_ends (delivers_ends hq hnew htype hends) with
    ⟨_, t', hserve, _, rfl, a, rfl, hu, ha, haref, hid, hrows⟩ | ⟨hfails, hno⟩
  · refine Or.inl ⟨hu, a, ha, haref, hid, ?_⟩
    rw [hserve]
    exact congrArg (Prod.mk _) hrows
  · exact Or.inr ⟨fun hu => hno ⟨hview ▸ hadv.fresh ho, hu⟩, hfails⟩

/-! ### `authorization.approved` -/

/-- The rows with an authorization approved. -/
def Db.approved (d : Db) (id : String) : Db :=
  { d with authorizations := updateWhere (·.id == id) (fun a => { a with status := .authorized }) d.authorizations }

theorem handleAuthorizationApproved_ends {data : List (String × Value)} {payload : AuthorizationApprovedData}
    {a : Authorization} (hdata : env.validateApproved data = .ok payload)
    (hunique : ((t.view (engine fk) d).column .authorizationsExternalReference).Nodup)
    (ha : a ∈ (t.view (engine fk) d).authorizations) (href : a.externalReference = payload.authorizationId)
    (hpending : a.status = .pending) :
    (handleAuthorizationApproved env data).Ends (engine fk) o d
      (fun result t' => result = .authorization a.id .authorized ∧
        t'.view (engine fk) d = (t.view (engine fk) d).approved a.id) False t := by
  unfold handleAuthorizationApproved requirePending
  rw [hdata]
  refine ends_seq (X := False) (P := fun x t' => payload = x ∧ t = t') ⟨rfl, rfl⟩ False.elim ?_
  rintro _ _ ⟨rfl, rfl⟩
  refine ends_seq (P := fun b t' => a = b ∧ t' = t.saw d) (X := False) ?_ False.elim ?_
  · refine ends_seq requireAuthorization_ends (fun hno => hno a ha href) ?_
    rintro b _ ⟨rfl, hb, hbref⟩
    obtain rfl : b = a := List.inj_on_of_nodup_map hunique hb ha (hbref.trans href.symm)
    rw [if_neg (not_not.2 hpending)]
    exact ⟨rfl, rfl⟩
  rintro _ _ ⟨rfl, rfl⟩
  refine ends_seq (P := fun b t' => b = ({ a with status := .authorized } : Authorization) ∧
    t' = (t.saw d).wrote d (.setAuthorizationStatus a.id .authorized none)) (X := False) ?_ False.elim ?_
  · refine Prog.ends_write (Db.violation_eq_none.2 ⟨by simp [Write.keys], by simp [Write.references], rfl⟩) ⟨rfl, rfl⟩
  · rintro _ _ ⟨rfl, rfl⟩
    refine ⟨rfl, ?_⟩
    rw [Txn.view_wrote]
    rfl

theorem serve_approved {q : Request} {e : ProcessorEventEnvelope} {payload : AuthorizationApprovedData}
    {a : Authorization} (hd : d.Sound) (hq : q.Delivers env e) (hnew : e.eventId ∉ d.column .eventsEventId)
    (htype : e.eventType = .authorizationApproved) (hdata : env.validateApproved e.data = .ok payload)
    (ha : a ∈ d.authorizations) (href : a.externalReference = payload.authorizationId) (hpending : a.status = .pending) :
    (genPay env).serve (.request q) o d =
      (.ok (.processed e.eventId (.authorization a.id .authorized)), (d.claimed e).approved a.id) := by
  let t : Txn Db Write := (Txn.fresh : Txn Db Write).wrote d (.insertEvent e.event)
  have hview : t.view (engine env.foreignKeys) d = d.claimed e := view_claimed e
  have hends := @handleAuthorizationApproved_ends env.foreignKeys o d t env e.data payload a hdata
    (by rw [hview]; exact unique_claimed hd hnew _) (by rw [hview]; exact ha) href hpending
  rw [hview] at hends
  rcases Service.serve_ends (delivers_ends hq hnew htype hends) with
    ⟨_, t', hserve, _, rfl, rfl, hrows⟩ | ⟨-, hno⟩
  · rw [hserve]
    exact congrArg (Prod.mk _) hrows
  · exact hno.elim

/-! ### `settlement.completed` -/

/-- What there is to settle under a reference. -/
def Db.Settleable (env : Env) (d : Db) (reference : String) (a : Authorization) (q : ResearchRecord) (s : Sale) : Prop :=
  a.externalReference = reference ∧ a.Settleable env d none none q s

/-- A sale of a batch: the rows it is made of, and those it leaves. -/
structure Booking where
  authorization : Authorization
  record : ResearchRecord
  sale : Sale
  settlement : Settlement
  transactions : List Transaction

def Booking.result (b : Booking) : PurchaseResult := b.sale.result b.authorization b.record b.settlement b.transactions

/-- The booking of what there is to settle under the reference. -/
structure Booking.Of (env : Env) (d : Db) (reference : String) (b : Booking) : Prop where
  settleable : d.Settleable env reference b.authorization b.record b.sale
  rows : b.sale.RowsOf b.authorization b.settlement b.transactions

def Db.soldAll (d : Db) (bs : List Booking) : Db :=
  bs.foldl (fun d b => d.sold b.sale b.settlement b.transactions) d

/-- A sale takes its own reference off what there is to settle, and nothing else. -/
theorem settleable_sold (hunique : ∀ c, (d.column c).Nodup) {b : Booking} (hb : b.Of env d reference) {reference' : String}
    {a : Authorization} {s : Sale} : (d.sold b.sale b.settlement b.transactions).Settleable env reference' a r s ↔
      reference' ≠ reference ∧ d.Settleable env reference' a r s := by
  have hcore : (d.sold b.sale b.settlement b.transactions).accounts.map LedgerAccount.core =
      d.accounts.map LedgerAccount.core := by
    show (d.accounts.map _).map LedgerAccount.core = _
    rw [List.map_map]
    rfl
  have hcolumn : (d.sold b.sale b.settlement b.transactions).column .settlementsAuthorization =
      d.column .settlementsAuthorization ++ [b.authorization.id] := by
    show (d.settlements ++ [b.settlement]).map (·.authorizationId) = _
    rw [List.map_append]
    exact congrArg (_ ++ [·]) hb.rows.booked.authorization
  constructor
  · rintro ⟨href, hs⟩
    have hnew := hs.unsettled
    rw [hcolumn, List.mem_append, List.mem_singleton, not_or] at hnew
    refine ⟨?_, href, hs.authorization, hs.authorized, hnew.1, hs.record, hs.sale.of_core hcore.symm, hs.amount⟩
    rintro rfl
    have hsame : a = b.authorization := List.inj_on_of_nodup_map (hunique .authorizationsExternalReference)
      hs.authorization hb.settleable.2.authorization (href.trans hb.settleable.1.symm)
    exact hnew.2 (congrArg Authorization.id hsame)
  · rintro ⟨hne, href, hs⟩
    refine ⟨href, hs.authorization, hs.authorized, ?_, hs.record, hs.sale.of_core hcore, hs.amount⟩
    rw [hcolumn, List.mem_append, List.mem_singleton, not_or]
    refine ⟨hs.unsettled, fun hid => hne ?_⟩
    have hsame : a = b.authorization := List.inj_on_of_nodup_map (hunique .authorizationsId) hs.authorization
      hb.settleable.2.authorization hid
    rw [← href, ← hb.settleable.1, hsame]

/-- The loop over the references settles each of them, once, or fails. -/
theorem settleEach_ends (hd : ∀ c, (d.column c).Nodup) (references : List String) : ∀ t : Txn Db Write,
    (uniqueKeys fk).Free d t.writes → (settleEach env references).Ends (engine fk) o d
      (fun results t' => references.Nodup ∧ ∃ bs : List Booking,
        List.Forall₂ (fun reference b => b.Of env (t.view (engine fk) d) reference) references bs ∧
        results = bs.map Booking.result ∧ t'.view (engine fk) d = (t.view (engine fk) d).soldAll bs)
      (¬ (FreshFrom o t.seen.length (t.view (engine fk) d) ∧ references.Nodup ∧
        ∀ reference ∈ references, ∃ a q s, (t.view (engine fk) d).Settleable env reference a q s)) t := by
  induction references with
  | nil => exact fun t _ => ⟨List.nodup_nil, [], List.Forall₂.nil, rfl, rfl⟩
  | cons reference references ih =>
    intro t hfree
    have hunique : ∀ c, ((t.view (engine fk) d).column c).Nodup := hfree.unique hd
    refine ends_seq (requireAuthorization_ends.free hfree) ?_ ?_
    · rintro hno ⟨-, -, hall⟩
      obtain ⟨a, q, s, haref, hs⟩ := hall reference (List.mem_cons_self ..)
      exact hno a hs.authorization haref
    rintro a _ ⟨⟨rfl, ha, haref⟩, hfree₁⟩
    have hends : (settleAuthorization env (some a) a.id none none).Ends (engine fk) o d _ _ (t.saw d) :=
      settleAuthorization_ends hunique fun b hb => Option.some.inj hb ▸ ha
    refine ends_seq (hends.free hfree₁) ?_ ?_
    · rintro hno ⟨hfresh, -, hall⟩
      obtain ⟨b, q, s, hbref, hs⟩ := hall reference (List.mem_cons_self ..)
      obtain rfl : b = a := List.inj_on_of_nodup_map (hunique .authorizationsExternalReference) hs.authorization ha
        (hbref.trans haref.symm)
      exact hno ⟨(Advances.saw t).fresh hfresh, b, q, s, rfl, hs⟩
    rintro res t₂ ⟨⟨a', q, s, x, ts, hid, hs, hbook, rfl, hadv, hcurrency⟩, hfree₂⟩
    rw [Txn.view_saw] at hs
    obtain rfl : a' = a := List.inj_on_of_nodup_map (hunique .authorizationsId) hs.authorization ha hid
    let b : Booking := ⟨a', q, s, x, ts⟩
    have hb : b.Of env (t.view (engine fk) d) reference := ⟨⟨haref, hs⟩, hbook, hcurrency⟩
    have hview : t₂.view (engine fk) d = (t.view (engine fk) d).sold s x ts := by
      rw [hadv.view]
      exact view_sold hbook.posted
    have hadv' : Advances fk o d t t₂ _ := (Advances.saw t).trans hadv
    refine ends_seq (ih t₂ hfree₂) ?_ ?_
    · rintro hno ⟨hfresh, hnodup, hall⟩
      rw [List.nodup_cons] at hnodup
      refine hno ⟨hadv'.fresh hfresh, hnodup.2, fun reference' hmem => ?_⟩
      obtain ⟨a'', q', s', hs'⟩ := hall reference' (List.mem_cons_of_mem _ hmem)
      refine ⟨a'', q', s', ?_⟩
      rw [hview]
      exact (settleable_sold hunique hb).2 ⟨fun he => hnodup.1 (he ▸ hmem), hs'⟩
    · rintro results t₃ ⟨hnodup, bs, hbs, rfl, hview₃⟩
      rw [hview] at hbs hview₃
      -- the others were there to settle before, under other references
      have hothers : List.Forall₂ (fun reference' b => reference' ≠ reference ∧
          Booking.Of env (t.view (engine fk) d) reference' b) references bs :=
        hbs.imp fun reference' b' hb' =>
          ⟨((settleable_sold hunique hb).1 hb'.settleable).1, ((settleable_sold hunique hb).1 hb'.settleable).2, hb'.rows⟩
      obtain ⟨hne, hrest⟩ := (List.forall₂_and_left references bs).1 hothers
      exact ⟨List.nodup_cons.2 ⟨fun hmem => hne reference hmem rfl, hnodup⟩, b :: bs, List.Forall₂.cons hb hrest, rfl,
        hview₃⟩

/-- The claim is on no row that settling reads. -/
theorem settleable_claimed {e : ProcessorEventEnvelope} {a : Authorization} {s : Sale} :
    (d.claimed e).Settleable env reference a r s ↔ d.Settleable env reference a r s := by
  refine and_congr_right fun _ => ⟨fun h => ?_, fun h => ?_⟩
  · exact ⟨h.1, h.2, h.3, h.4, h.5.of_core rfl, h.6⟩
  · exact ⟨h.1, h.2, h.3, h.4, h.5.of_core rfl, h.6⟩

/-- A verified delivery of a new batch settles all that it lists, if each can be settled and none is listed twice;
otherwise it fails. -/
theorem serve_batch {q : Request} {e : ProcessorEventEnvelope} {payload : SettlementCompletedData} (hd : d.Sound)
    (hq : q.Delivers env e) (hnew : e.eventId ∉ d.column .eventsEventId) (htype : e.eventType = .settlementCompleted)
    (hdata : env.validateSettlement e.data = .ok payload) (ho : FreshFrom o 0 d) :
    (payload.authorizationIds.Nodup ∧ ∃ bs : List Booking,
      List.Forall₂ (fun reference b => b.Of env d reference) payload.authorizationIds bs ∧
      (genPay env).serve (.request q) o d = (.ok (.processed e.eventId
        (.settlements payload.settlementBatchId (bs.map Booking.result))), (d.claimed e).soldAll bs)) ∨
      (¬ (payload.authorizationIds.Nodup ∧
        ∀ reference ∈ payload.authorizationIds, ∃ a r s, d.Settleable env reference a r s)) ∧ q.Fails env o d := by
  let t : Txn Db Write := (Txn.fresh : Txn Db Write).wrote d (.insertEvent e.event)
  have hview : t.view (engine env.foreignKeys) d = d.claimed e := view_claimed e
  have hadv : Advances env.foreignKeys o d Txn.fresh t [.insertEvent e.event] :=
    Advances.wrote (by simp [Write.keys, idColumns])
  have hfree : (uniqueKeys env.foreignKeys).Free d t.writes := by
    refine ⟨fun k hk => ?_, by simp [t, uniqueKeys, Keys.all, Write.keys]⟩
    obtain rfl : k = (.eventsEventId, e.eventId) := by
      simpa [t, uniqueKeys, Keys.all, Write.keys, ProcessorEventEnvelope.event] using hk
    exact hnew
  have hends : (settleEach env payload.authorizationIds).Ends (engine env.foreignKeys) o d _ _ t :=
    settleEach_ends hd.unique payload.authorizationIds t hfree
  rw [hview] at hends
  have hhandler : (handler env .settlementCompleted e.data).Ends (engine env.foreignKeys) o d
      (fun result t' => payload.authorizationIds.Nodup ∧ ∃ bs : List Booking,
        List.Forall₂ (fun reference b => b.Of env (d.claimed e) reference) payload.authorizationIds bs ∧
        result = .settlements payload.settlementBatchId (bs.map Booking.result) ∧
        t'.view (engine env.foreignKeys) d = (d.claimed e).soldAll bs)
      (¬ (FreshFrom o t.seen.length (d.claimed e) ∧ payload.authorizationIds.Nodup ∧
        ∀ reference ∈ payload.authorizationIds, ∃ a q s, (d.claimed e).Settleable env reference a q s)) t := by
    show (handleSettlementCompleted env e.data).Ends _ _ _ _ _ t
    unfold handleSettlementCompleted
    rw [hdata]
    refine ends_seq (X := False) (P := fun x t' => payload = x ∧ t = t') ⟨rfl, rfl⟩ False.elim ?_
    rintro _ _ ⟨rfl, rfl⟩
    refine ends_seq hends id ?_
    rintro _ t' ⟨hnodup, bs, hbs, rfl, hsold⟩
    exact ⟨hnodup, bs, hbs, rfl, hsold⟩
  rcases Service.serve_ends (delivers_ends hq hnew htype hhandler) with
    ⟨_, t', hserve, _, rfl, hnodup, bs, hbs, rfl, hsold⟩ | ⟨hfails, hno⟩
  · refine Or.inl ⟨hnodup, bs, hbs.imp fun _ b hb => ⟨settleable_claimed.1 hb.settleable, hb.rows⟩, ?_⟩
    rw [hserve]
    exact congrArg (Prod.mk _) hsold
  · refine Or.inr ⟨?_, hfails⟩
    rintro ⟨hnodup, hall⟩
    refine hno ⟨hview ▸ hadv.fresh ho, hnodup, fun reference hmem => ?_⟩
    obtain ⟨a, r, s, hs⟩ := hall reference hmem
    exact ⟨a, r, s, settleable_claimed.2 hs⟩

/-- The batch of one authorization. -/
theorem serve_settled {q : Request} {e : ProcessorEventEnvelope} {payload : SettlementCompletedData} (hd : d.Sound)
    (hq : q.Delivers env e) (hnew : e.eventId ∉ d.column .eventsEventId) (htype : e.eventType = .settlementCompleted)
    (hdata : env.validateSettlement e.data = .ok payload) (hids : payload.authorizationIds = [reference])
    (ho : FreshFrom o 0 d) :
    (∃ a r s x ts, d.Settleable env reference a r s ∧ s.RowsOf a x ts ∧ (genPay env).serve (.request q) o d =
        (.ok (.processed e.eventId (.settlements payload.settlementBatchId [s.result a r x ts])),
          (d.claimed e).sold s x ts)) ∨
      (¬ ∃ a r s, d.Settleable env reference a r s) ∧ q.Fails env o d := by
  rcases serve_batch hd hq hnew htype hdata ho with ⟨-, bs, hbs, hserve⟩ | ⟨hno, hfails⟩
  · rw [hids] at hbs
    cases hbs with
    | cons hb hnil =>
      cases hnil
      exact Or.inl ⟨_, _, _, _, _, hb.settleable, hb.rows, hserve⟩
  · refine Or.inr ⟨fun hs => hno ?_, hfails⟩
    rw [hids]
    exact ⟨List.nodup_singleton _, fun reference' hmem => List.mem_singleton.1 hmem ▸ hs⟩

end GenPay
