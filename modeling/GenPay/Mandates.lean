import GenPay.Attribution
import GenPay.Deliveries
import GenPay.Orders
import GenPay.ReadCommitted.Past
import GenPay.Settlements

/-!
# What a charge rests on

Nothing is settled that nobody has asked for.  A settlement is that of a purchase by an authenticated client at the
price of the record, of a card event with its amount, or of an authorization that the processor has announced,
approved and completed in signed deliveries; the amount, the record and the buyer are those asked for
(`charged_as_asked`), and no request is charged for twice.
-/

namespace GenPay

open ReadCommitted

/-- A processor event that was delivered under its signature and processed. -/
def Delivered (env : Env) (s : AppSystem) (envelope : ProcessorEventEnvelope) : Prop :=
  ∃ t ∈ s.sessions, ∃ r result, t.job = .request r ∧ t.phase = .committed (.processed envelope.eventId result) ∧
    r.route = .processorEvents ∧ Verifies env env.settings.webhookSigningSecret r.clock r.xGenPaySignature r.rawBody ∧
    env.parseEnvelope r.rawBody = .ok envelope

/-- The processor has approved the authorization and completed its settlement. -/
structure Completed (env : Env) (s : AppSystem) (reference : String) : Prop where
  approved : ∃ envelope data, Delivered env s envelope ∧ envelope.eventType = .authorizationApproved ∧
    env.validateApproved envelope.data = .ok data ∧ data.authorizationId = reference
  settled : ∃ envelope data, Delivered env s envelope ∧ envelope.eventType = .settlementCompleted ∧
    env.validateSettlement envelope.data = .ok data ∧ reference ∈ data.authorizationIds

/-- The request of session `i` was answered and has asked for the authorization; what the processor has announced it
has also completed. -/
def Mandated (env : Env) (s : AppSystem) (i : Nat) (b : Authorization) : Prop :=
  ∃ t r a, s.sessions[i]? = some t ∧ t.job = .request r ∧ t.phase = .committed a ∧ r.Orders env [s.db] b ∧
    (r.route = .processorEvents → Completed env s b.externalReference)

variable {env : Env} {d₀ : Db} {s : AppSystem} {u v : AppSession} {r : Request}

/-- What was asked for with the rows seen then is asked for with those of a later database. -/
theorem Request.Orders.now {ds : List Db} {d : Db} {b b' : Authorization} (h : r.Orders env ds b)
    (hcore : b'.core = b.core) (hext : ∀ d' ∈ ds, d'.Extends d)
    (husers : ∀ d' ∈ ds, ∀ x ∈ d'.users, x ∈ d.users) : r.Orders env [d] b' := by
  have isFor : ∀ {recordId userId amount}, b.IsFor ds recordId userId amount → b'.IsFor [d] recordId userId amount := by
    rintro recordId userId amount ⟨hrecord, huser, d', hd', x, hx, hid, hamount⟩
    exact ⟨(of_core Authorization.researchRecordId hcore).trans hrecord,
      (of_core Authorization.userId hcore).trans huser, d, by simp, x, (hext d' hd').records.mem_of_eq hx, hid,
      (of_core Authorization.amountCents hcore).trans hamount⟩
  have huser : b'.userId = b.userId := of_core Authorization.userId hcore
  cases h with
  | @purchase data key c d' route hfor seen authenticated client =>
    obtain ⟨hc, hactive, hkey⟩ := authenticated
    exact .purchase route (isFor hfor) (by simp) ⟨(hext d' seen).clients.mem_of_eq hc, hactive, hkey⟩
      ((of_core Authorization.createdByClientId hcore).trans client)
  | @cardAuthorization event x d' amount route parsed type rounded hfor seen record reference buyer =>
    exact .cardAuthorization route parsed type rounded (huser ▸ isFor hfor) (by simp)
      ((hext d' seen).records.mem_of_eq record) reference
      (huser ▸ buyer.mono fun d₁ hd₁ => ⟨d, by simp, husers d₁ hd₁⟩)
  | authorizationCreated route signed parsed type validated hfor reference =>
    exact .authorizationCreated route signed parsed type validated (isFor hfor)
      ((of_core Authorization.externalReference hcore).trans reference)

/-- A committed session that inserts an authorization has asked for it. -/
theorem orders_of_published (h₀ : Seeded env d₀) (h : Reachable (genPay env) d₀ s) (hu : u ∈ s.sessions)
    {b b' : Authorization} (hb : .insertAuthorization b ∈ u.published) (hcore : b'.core = b.core) :
    ∃ r a, u.job = .request r ∧ u.phase = .committed a ∧ r.Orders env [s.db] b' := by
  obtain ⟨a, act, ha, -⟩ := published_action h₀.sound h hu hb
  rw [published_of_committed ha] at hb
  obtain ⟨r, hr, horders⟩ := (Run.follows (handle_requested env u.job u.oracle) h u hu rfl rfl).committed ha b hb
  refine ⟨r, a, hr, ha, horders.now hcore (fun d hd => committed_seen h₀ h hu hd) fun d hd x hx => ?_⟩
  obtain ⟨s₁, -, h₂, rfl⟩ := h.seen_passed hu hd
  exact h₂.row_stays (userTable env.foreignKeys) (fun _ _ => rfl) hx

/-- An action inserts one authorization at most. -/
theorem Action.insertAuthorization_unique {act : Action} {b b' : Authorization}
    (hb : .insertAuthorization b ∈ act.writes) (hb' : .insertAuthorization b' ∈ act.writes) : b = b' := by
  have hone : ∀ {x}, .insertAuthorization x ∈ act.writes → x ∈ act.authorizations := fun hx =>
    filterMap_authorization act ▸ List.mem_filterMap.2 ⟨_, hx, rfl⟩
  have hb := hone hb
  have hb' := hone hb'
  cases act with
  | purchase => exact (List.mem_singleton.1 hb).trans (List.mem_singleton.1 hb').symm
  | created => exact (List.mem_singleton.1 hb).trans (List.mem_singleton.1 hb').symm
  | _ => cases hb

/-- What a batch settles no purchase has inserted. -/
theorem batch_not_purchase (h₀ : Seeded env d₀) (h : Reachable (genPay env) d₀ s) (hu : u ∈ s.sessions)
    (hv : v ∈ s.sessions) {e : ProcessedWebhookEvent} {ps : List Purchase} {p : Purchase} {ds : List Db}
    (hpub : u.published = Action.writes (.batch e ps)) (hp : p ∈ ps) (hgr : p.Grounded env ds)
    {key : Option String} {q : Purchase} {ds' : List Db}
    (hpub' : v.published = Action.writes (.purchase key q)) (hgr' : q.Grounded env ds') :
    p.authorization.id ≠ q.authorization.id := by
  intro hid
  obtain ⟨i, hi⟩ := List.getElem?_of_mem hu
  obtain ⟨j, hj⟩ := List.getElem?_of_mem hv
  have hx : .insertSettlement p.settlement ∈ u.published := hpub ▸ Action.mem_insertSettlement.2 ⟨p, hp, rfl⟩
  have hy : .insertSettlement q.settlement ∈ v.published :=
    hpub' ▸ Action.mem_insertSettlement.2 ⟨q, List.mem_singleton.2 rfl, rfl⟩
  obtain ⟨rfl, -⟩ := settled_at_most_once h₀ h hi hj hx hy
    (hgr.settlement.1.trans (hid.trans hgr'.settlement.1.symm))
  rw [hi] at hj
  cases hj
  have hevent : .insertEvent e ∈ Action.writes (.purchase key q) := hpub' ▸ hpub ▸ List.mem_cons_self ..
  cases Action.mem_insertEvent.1 hevent

theorem Answers.delivered {a : Response} {act : Action} {ds : List Db} (h : Answers env a act ds u.job)
    (hu : u ∈ s.sessions) (ha : u.phase = .committed a) {e : ProcessedWebhookEvent} (he : act.event? = some e) :
    ∃ envelope, Delivered env s envelope ∧ AnswersEvent env envelope act := by
  generalize hjob : u.job = job at h
  cases h.acts with
  | entity _ hact =>
    cases act with
    | user => cases he
    | archive => cases he
    | record => cases he
    | _ => cases hact
  | event hr hsig hparse hanswer hans => exact ⟨_, ⟨u, hu, _, _, hjob, hanswer ▸ ha, hr, hsig, hparse⟩, hans⟩
  | _ => cases he

theorem AnswersEvent.approved {envelope : ProcessorEventEnvelope} {e : ProcessedWebhookEvent} {b : Authorization}
    {reason : Option String} (h : AnswersEvent env envelope (.decided e b .authorized reason)) :
    envelope.eventType = .authorizationApproved ∧
      ∃ data, env.validateApproved envelope.data = .ok data ∧ b.externalReference = data.authorizationId := by
  unfold AnswersEvent at h
  split at h
  · obtain ⟨data, x, -, -, he⟩ := h
    cases he
  · rename_i htype
    obtain ⟨data, x, hdata, href, he⟩ := h
    cases he
    exact ⟨htype, data, hdata, href⟩
  · obtain ⟨data, x, -, -, he⟩ := h
    cases he
  · obtain ⟨data, ps, -, -, he⟩ := h
    cases he

theorem AnswersEvent.settled {envelope : ProcessorEventEnvelope} {e : ProcessedWebhookEvent} {ps : List Purchase}
    (h : AnswersEvent env envelope (.batch e ps)) : envelope.eventType = .settlementCompleted ∧
      ∃ data, env.validateSettlement envelope.data = .ok data ∧
        ps.map (·.authorization.externalReference) = data.authorizationIds := by
  unfold AnswersEvent at h
  split at h
  · obtain ⟨data, x, -, -, he⟩ := h
    cases he
  · obtain ⟨data, x, -, -, he⟩ := h
    cases he
  · obtain ⟨data, x, -, -, he⟩ := h
    cases he
  · rename_i htype
    obtain ⟨data, qs, hdata, href, he⟩ := h
    cases he
    exact ⟨htype, data, hdata, href⟩

/-- Who sets an authorization to authorized has delivered its approval. -/
theorem approval_of_published (h₀ : Seeded env d₀) (h : Reachable (genPay env) d₀ s) (hv : v ∈ s.sessions)
    {b : Authorization} (hb : b ∈ s.db.authorizations) {reason : Option String}
    (hw : .setAuthorizationStatus b.id .authorized reason ∈ v.published) :
    ∃ envelope data, Delivered env s envelope ∧ envelope.eventType = .authorizationApproved ∧
      env.validateApproved envelope.data = .ok data ∧ data.authorizationId = b.externalReference := by
  obtain ⟨a, act, ha, hpub, hgr, hans⟩ := published_action h₀.sound h hv hw
  obtain ⟨e, y, rfl, hid⟩ := Action.mem_setAuthorizationStatus.1 (hpub ▸ hw)
  -- the row that was read is the one that is there now
  obtain ⟨⟨d, hd, hy⟩, -⟩ := hgr
  obtain ⟨y', hy', hcore⟩ := (committed_seen h₀ h hv hd).authorizations.mem hy
  obtain rfl : y' = b := List.inj_on_of_nodup_map ((run_sound h₀.sound h).unique .authorizationsId) hy' hb
    ((of_core Authorization.id hcore).trans hid)
  obtain ⟨envelope, hdelivered, hevent⟩ := hans.delivered hv ha rfl
  obtain ⟨htype, data, hdata, href⟩ := hevent.approved
  exact ⟨envelope, data, hdelivered, htype, hdata, href.symm.trans (of_core Authorization.externalReference hcore).symm⟩

/-- An authorization that is authorized, and of no purchase, has been approved. -/
theorem approved_of_authorized (h₀ : Seeded env d₀) (h : Reachable (genPay env) d₀ s) {d : Db}
    (hd : Passed (genPay env) (fun _ _ => True) (System.initial d₀) s d) {b b' : Authorization}
    (hb : b ∈ d.authorizations) (hstatus : b.status = .authorized) (hb' : b' ∈ s.db.authorizations) (hid : b'.id = b.id)
    (hnot : ∀ v ∈ s.sessions, ∀ (key : Option String) (q : Purchase), q.Grounded env v.txn.seen →
      v.published = Action.writes (.purchase key q) → b.id ≠ q.authorization.id) :
    ∃ envelope data, Delivered env s envelope ∧ envelope.eventType = .authorizationApproved ∧
      env.validateApproved envelope.data = .ok data ∧ data.authorizationId = b'.externalReference := by
  obtain ⟨s₁, h₁, h₂, rfl⟩ := hd
  have hupdate : ∀ (w : Write) (x : Authorization),
      (w.onAuthorization x).id = b.id ∧ (w.onAuthorization x).status = .authorized →
        (x.id = b.id ∧ x.status = .authorized) ∨ ∃ reason, w = .setAuthorizationStatus b.id .authorized reason := by
    rintro w x ⟨hxid, hauth⟩
    rcases w.onAuthorization_cases x with he | ⟨status, reason, rfl⟩
    · exact Or.inl (he ▸ ⟨hxid, hauth⟩)
    · refine Or.inr ⟨reason, ?_⟩
      rw [show status = .authorized by simpa [Write.onAuthorization] using hauth,
        show x.id = b.id by simpa [Write.onAuthorization] using hxid]
  rcases h₁.row_source (authorizationTable env.foreignKeys) (P := fun x => x.id = b.id ∧ x.status = .authorized)
    hupdate ⟨b, hb, rfl, hstatus⟩ with ⟨x, hx, -⟩ | ⟨v, hv, w, hw, ⟨x, hins, hxid, hauth⟩ | ⟨reason, rfl⟩⟩
  · change x ∈ d₀.authorizations at hx
    rw [h₀.no_ledger.1] at hx
    cases hx
  · obtain rfl : w = .insertAuthorization x := by
      cases w <;> cases hins
      rfl
    have hv : v ∈ s.sessions := h₂.published_stays hv hw
    obtain ⟨a, act, -, hpub, hgr, -⟩ := published_action h₀.sound h hv hw
    -- only a purchase inserts an authorization as authorized
    have hx : x ∈ act.authorizations :=
      Action.filterMap_authorization act ▸ List.mem_filterMap.2 ⟨_, hpub ▸ hw, rfl⟩
    cases act with
    | purchase key q =>
      obtain rfl := List.mem_singleton.1 hx
      exact absurd hxid.symm (hnot v hv key q hgr hpub)
    | created e y =>
      obtain rfl := List.mem_singleton.1 hx
      rw [show x.status = .pending from hgr] at hauth
      cases hauth
    | _ => cases hx
  · exact approval_of_published h₀ h (h₂.published_stays hv hw) hb' (hid ▸ hw)

/-- The authorizations of a processed batch are completed. -/
theorem completed_of_batch (h₀ : Seeded env d₀) (h : Reachable (genPay env) d₀ s) (hu : u ∈ s.sessions) {a : Response}
    (ha : u.phase = .committed a) {e : ProcessedWebhookEvent} {ps : List Purchase} {p : Purchase}
    (hpub : u.published = Action.writes (.batch e ps)) (hgr : (Action.batch e ps).Grounded env u.txn.seen)
    (hans : Answers env a (.batch e ps) u.txn.seen u.job) (hp : p ∈ ps) {b : Authorization}
    (hb : b ∈ s.db.authorizations) (hcore : b.core = p.authorization.core) : Completed env s b.externalReference := by
  obtain ⟨hpgr, d, hd, hauth⟩ := hgr p hp
  refine ⟨?_, ?_⟩
  · exact approved_of_authorized h₀ h (h.seen_passed hu hd) hauth hpgr.authorized hb (of_core Authorization.id hcore)
      fun v hv key q hqgr hvpub => batch_not_purchase h₀ h hu hv hpub hp hpgr hvpub hqgr
  · obtain ⟨envelope, hdelivered, hevent⟩ := hans.delivered hu ha rfl
    obtain ⟨htype, data, hdata, href⟩ := hevent.settled
    refine ⟨envelope, data, hdelivered, htype, hdata, ?_⟩
    rw [← href]
    exact List.mem_map.2 ⟨p, hp, (of_core Authorization.externalReference hcore).symm⟩

/-- The session that has settled, and the authorization as it is now. -/
theorem settled_by (h₀ : Seeded env d₀) (h : Reachable (genPay env) d₀ s) {x : Settlement} (hx : x ∈ s.db.settlements) :
    ∃ u ∈ s.sessions, ∃ a act p, u.phase = .committed a ∧ u.published = Action.writes act ∧
      act.Grounded env u.txn.seen ∧ Answers env a act u.txn.seen u.job ∧ p ∈ act.purchases ∧ ∃ b ∈ s.db.authorizations,
        b.core = p.authorization.core ∧ b.id = x.authorizationId ∧ x.settledAmountCents = b.amountCents := by
  rcases Run.row_source (settlementTable env.foreignKeys) (P := fun y => y.core = x.core) (Q := fun _ => False)
    (fun w y hy => Or.inl ((w.onSettlement_core y).symm.trans hy)) h ⟨x, hx, rfl⟩ with
    ⟨y, hy, -⟩ | ⟨u, hu, w, hw, ⟨y, hins, hcore⟩ | hno⟩
  · change y ∈ d₀.settlements at hy
    rw [h₀.no_ledger.2.1] at hy
    cases hy
  · obtain rfl : w = .insertSettlement y := by
      cases w <;> cases hins
      rfl
    obtain ⟨a, act, ha, hpub, hgr, hans⟩ := published_action h₀.sound h hu hw
    obtain ⟨p, hp, rfl⟩ := Action.mem_insertSettlement.1 (hpub ▸ hw)
    obtain ⟨hauthorization, hamount, -⟩ := (hgr.purchase hp).settlement
    obtain ⟨b, hb, hbcore⟩ : ∃ b ∈ s.db.authorizations, b.core = p.authorization.core := by
      cases act with
      | purchase key q =>
        obtain rfl := List.mem_singleton.1 hp
        refine authorization_of_committed h₀ h hu ha ?_
        rw [← published_of_committed ha, hpub]
        cases key <;> simp [Action.writes]
      | batch e ps =>
        obtain ⟨-, d, hd, hauth⟩ := hgr p hp
        exact (committed_seen h₀ h hu hd).authorizations.mem hauth
      | _ => cases hp
    refine ⟨u, hu, a, act, p, ha, hpub, hgr, hans, hp, b, hb, hbcore, ?_, ?_⟩
    · rw [of_core Authorization.id hbcore, ← hauthorization, of_core Settlement.authorizationId hcore]
    · rw [of_core Authorization.amountCents hbcore, ← hamount, of_core Settlement.settledAmountCents hcore]
  · exact hno.elim

theorem inserted_by (h₀ : Seeded env d₀) (h : Reachable (genPay env) d₀ s) {b : Authorization}
    (hb : b ∈ s.db.authorizations) : ∃ (i : Nat) (v : AppSession) (b₀ : Authorization),
      s.sessions[i]? = some v ∧ .insertAuthorization b₀ ∈ v.published ∧ b.core = b₀.core := by
  rcases Run.row_source (authorizationTable env.foreignKeys) (P := fun y => b.core = y.core) (Q := fun _ => False)
    (fun w y hy => Or.inl (hy.trans (w.onAuthorization_core y))) h ⟨b, hb, rfl⟩ with
    ⟨y, hy, -⟩ | ⟨v, hv, w, hw, ⟨y, hins, hcore⟩ | hno⟩
  · change y ∈ d₀.authorizations at hy
    rw [h₀.no_ledger.1] at hy
    cases hy
  · obtain rfl : w = .insertAuthorization y := by
      cases w <;> cases hins
      rfl
    obtain ⟨i, hi⟩ := List.getElem?_of_mem hv
    exact ⟨i, v, y, hi, hw, hcore⟩
  · exact hno.elim

theorem Acts.route_of_purchase {a : Response} {key : Option String} {p : Purchase} {ds : List Db}
    (h : Acts env a ds (.request r) (.purchase key p)) : r.route ≠ .processorEvents := by
  intro hroute
  cases h with
  | entity _ hact => cases hact
  | purchase hr => cases hroute.symm.trans hr
  | card hr => cases hroute.symm.trans hr
  | event _ _ _ _ hans => cases hans.event

/-- A settlement has a mandate, and it is that of the session that has inserted its authorization. -/
theorem mandated_of_settled (h₀ : Seeded env d₀) (h : Reachable (genPay env) d₀ s) {x : Settlement}
    (hx : x ∈ s.db.settlements) : ∃ (i : Nat) (b : Authorization), b ∈ s.db.authorizations ∧ b.id = x.authorizationId ∧
      x.settledAmountCents = b.amountCents ∧ Mandated env s i b ∧ ∃ (v : AppSession) (b₀ : Authorization),
        s.sessions[i]? = some v ∧ .insertAuthorization b₀ ∈ v.published ∧ b.core = b₀.core := by
  obtain ⟨u, hu, a, act, p, ha, hpub, hgr, hans, hp, b, hb, hcore, hid, hamount⟩ := settled_by h₀ h hx
  obtain ⟨i, v, b₀, hi, hins, hcore₀⟩ := inserted_by h₀ h hb
  obtain ⟨r, a', hjob, ha', horders⟩ := orders_of_published h₀ h (List.mem_of_getElem? hi) hins hcore₀
  refine ⟨i, b, hb, hid, hamount, ⟨v, r, a', hi, hjob, ha', horders, fun hroute => ?_⟩, v, b₀, hi, hins, hcore₀⟩
  cases act with
  | batch e ps => exact completed_of_batch h₀ h hu ha hpub hgr hans hp hb hcore
  | purchase key q =>
    obtain rfl := List.mem_singleton.1 hp
    -- the purchase has inserted its authorization itself, so it is the session `i`
    obtain ⟨j, hj⟩ := List.getElem?_of_mem hu
    have hq : .insertAuthorization p.authorization ∈ u.published := by
      rw [hpub]
      cases key <;> simp [Action.writes]
    have hkey : (Column.authorizationsId, b₀.id) ∈ (Write.insertAuthorization b₀).keys := by simp [Write.keys]
    have hkey' : (Column.authorizationsId, b₀.id) ∈ (Write.insertAuthorization p.authorization).keys := by
      simp [Write.keys, of_core Authorization.id (hcore₀.symm.trans hcore)]
    obtain rfl : i = j := Keys.published_disjoint (K := uniqueKeys env.foreignKeys) (Keys.inv_run h) hi hj
      (List.mem_flatMap.2 ⟨_, hins, hkey⟩) (List.mem_flatMap.2 ⟨_, hq, hkey'⟩)
    rw [hi] at hj
    cases hj
    rw [hjob] at hans
    exact absurd hroute hans.acts.route_of_purchase
  | _ => cases hp

/-- Every charge has been asked for, and no request is charged for twice. -/
theorem charged_as_asked (h₀ : Seeded env d₀) (h : Reachable (genPay env) d₀ s) : ∃ source : Settlement → Nat,
    Set.InjOn source {x | x ∈ s.db.settlements} ∧ ∀ x ∈ s.db.settlements, ∃ b ∈ s.db.authorizations,
      b.id = x.authorizationId ∧ x.settledAmountCents = b.amountCents ∧ Mandated env s (source x) b := by
  choose! source hsource using fun x hx => mandated_of_settled h₀ h (x := x) hx
  refine ⟨source, fun x hx y hy he => ?_, fun x hx => ?_⟩
  · obtain ⟨b, -, hid, -, -, v, b₀, hv, hins, hcore⟩ := hsource x hx
    obtain ⟨b', -, hid', -, -, v', b₀', hv', hins', hcore'⟩ := hsource y hy
    rw [he, hv'] at hv
    cases hv
    -- the session has inserted one authorization, so both settlements are of it
    obtain ⟨a, act, -, hpub, -⟩ := published_action h₀.sound h (List.mem_of_getElem? hv') hins
    obtain rfl : b₀ = b₀' := Action.insertAuthorization_unique (hpub ▸ hins) (hpub ▸ hins')
    refine List.inj_on_of_nodup_map ((run_sound h₀.sound h).unique .settlementsAuthorization) hx hy ?_
    rw [← hid, ← hid', of_core Authorization.id hcore, of_core Authorization.id hcore']
  · obtain ⟨b, hb, hid, hamount, hmandated, -⟩ := hsource x hx
    exact ⟨b, hb, hid, hamount, hmandated⟩

/-- A purchase, a card event and the events of an authorization, whose statements alternate. -/
def Sample.threeWays : AppSystem :=
  after (fun _ _ => true) [.start 0 (.buys "key"), .steps 0 9, .start 1 .card, .steps 1 12,
    .start 2 (.delivers .created), .steps 2 8, .steps 0 26, .start 3 (.delivers .approved), .steps 3 4, .steps 1 21,
    .start 4 (.delivers .settled), .steps 4 27]

theorem charged_as_asked_threeWays : Sample.threeWays.db.settlements.map (·.settledAmountCents) = [599, 599, 599] ∧
    ∃ source : Settlement → Nat, Set.InjOn source {x | x ∈ Sample.threeWays.db.settlements} ∧
      ∀ x ∈ Sample.threeWays.db.settlements, ∃ b ∈ Sample.threeWays.db.authorizations, b.id = x.authorizationId ∧
        x.settledAmountCents = b.amountCents ∧ Mandated Sample.env Sample.threeWays (source x) b := by
  refine ⟨?_, charged_as_asked Sample.seeded_env (Sample.reachable_after _)⟩
  rw [Sample.threeWays, Sample.after_eq]
  decide +kernel

end GenPay
