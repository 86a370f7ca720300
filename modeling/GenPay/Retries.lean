import GenPay.Decisions
import GenPay.Deliveries
import GenPay.Purchases
import GenPay.ReadCommitted.Rely
import GenPay.Reading

/-!
# Sending a request again

What has been achieved decides the answers from then on, whatever else commits meanwhile: a purchase under a stored key
is answered by the stored response, a delivery of a committed event is ignored, a refund of a reversed settlement and a
decision on a decided authorization are refused as such (`outcome_stays`).  So a request that was answered and has
committed is answered again when it is sent again, with what it has achieved (`retried`).
-/

namespace GenPay

open ReadCommitted
open Prog (Relying onEnd relying_bind relying_handled relying_of_wp relying_query relying_raise relying_ret relying_rollback
  relying_write)

/-! ### What is decided of a request -/

/-- The envelope is an approval or a decline of the authorization with this external reference. -/
def ProcessorEventEnvelope.Decides (env : Env) (verb reference : String) (envelope : ProcessorEventEnvelope) : Prop :=
  (verb = "approve" ∧ envelope.eventType = .authorizationApproved ∧
      ∃ data, env.validateApproved envelope.data = .ok data ∧ data.authorizationId = reference) ∨
    (verb = "decline" ∧ envelope.eventType = .authorizationDeclined ∧
      ∃ data, env.validateDeclined envelope.data = .ok data ∧ data.authorizationId = reference)

def notPending (verb reference : String) (status : AuthorizationStatus) : String :=
  s!"Cannot {verb} authorization {reference} in status '{status.value}'"

/-- What a database has for good. -/
inductive Outcome
  | purchased (key : String) (result : PurchaseResult)
  | delivered (eventId : String)
  | refunded (authorizationId : String)
  | decided (reference : String)

def Outcome.IsIn (d : Db) : Outcome → Prop
  | purchased key result => ⟨key, some result⟩ ∈ d.idempotencyKeys
  | delivered eventId => eventId ∈ d.column .eventsEventId
  | refunded id => (∃ a ∈ d.authorizations, a.id = id) ∧ ∃ x ∈ d.settlements, x.authorizationId = id ∧ x.status = .reversed
  | decided reference => ∃ a ∈ d.authorizations, a.externalReference = reference ∧ a.status ≠ .pending

/-- How the requests with a valid body end, once they are let in, that an outcome decides. -/
inductive Outcome.Decides (env : Env) (r : Request) : Outcome → Set (Except Exc Response) → Prop
  | purchased {data key result} (hr : r.route = .purchase (some data) (some key)) :
      Decides env r (.purchased key result) {.ok (.purchase result)}
  | delivered {envelope} (hr : r.route = .processorEvents) (hp : env.parseEnvelope r.rawBody = .ok envelope) :
      Decides env r (.delivered envelope.eventId) {.ok (.ignored envelope.eventId)}
  | refunded {id data} (hr : r.route = .refundPurchase id (some data)) :
      Decides env r (.refunded id) {.error (httpError 400 "Cannot refund a settlement in status 'reversed'")}
  | decided {envelope verb reference} (hr : r.route = .processorEvents) (hp : env.parseEnvelope r.rawBody = .ok envelope)
      (hdecides : envelope.Decides env verb reference) : Decides env r (.decided reference)
        {e | e = .ok (.ignored envelope.eventId) ∨ ∃ status, status ≠ .pending ∧
          e = .error (.httpException 400 (.error "event_processing_failed" (notPending verb reference status)))}

/-- The gate rejects the request with this error. -/
def Rejects (env : Env) (r : Request) (e : Exc) : Prop :=
  if r.route = .processorEvents then
    verify env env.settings.webhookSigningSecret r.clock r.xGenPaySignature r.rawBody = .error e
  else e = unauthorized

section Programs

variable {env : Env} {fk : Bool} {o : Nat → Choice} {r : Request} {P : Db → Prop} {t : Txn Db Write}
  {ends : Set (Except Exc Response)}

/-- What ends a program that can only return a response of `ends` before it has written, or fail with one of its errors. -/
def EndsIn (ends : Set (Except Exc Response)) (refused : Exc → Prop) : Prog.Post Db Write Exc Response :=
  onEnd (fun a t' => .ok a ∈ ends ∧ t'.writes = []) fun e _ => .error e ∈ ends ∨ refused e

theorem relying_gated {p : ApiClient → Tx Response} (hr : r.route ≠ .processorEvents)
    (h : ∀ client t', t'.writes = [] → (p client).Relying (engine fk) o P (EndsIn ends (Rejects env r)) t') :
    (withApiKey env r p).Relying (engine fk) o P (EndsIn ends (Rejects env r)) Txn.fresh := by
  refine relying_bind (relying_of_wp (Prog.wp_mono (requireApiKey_gates rfl) fun e t' hend => ?_))
  cases e with
  | error e => exact Or.inr (by rw [Rejects, if_neg hr]; exact hend)
  | ok client => exact h client t' hend.1

theorem relying_verified {envelope : ProcessorEventEnvelope} (hr : r.route = .processorEvents)
    (hp : env.parseEnvelope r.rawBody = .ok envelope)
    (h : (processEnvelope env envelope).Relying (engine fk) o P (EndsIn ends (Rejects env r)) Txn.fresh) :
    (route env r).Relying (engine fk) o P (EndsIn ends (Rejects env r)) Txn.fresh := by
  cases hv : verify env env.settings.webhookSigningSecret r.clock r.xGenPaySignature r.rawBody with
  | error e =>
    have hroute : route env r = Prog.raise e := by
      unfold route
      rw [hr]
      show (ofExcept (verify env _ _ _ _) >>= processorEvents env) = _
      rw [hv]
      rfl
    rw [hroute]
    exact relying_raise (Or.inr (by rw [Rejects, if_pos hr]; exact hv))
  | ok rawBody =>
    obtain ⟨rfl, -⟩ := verify_ok hv
    rw [route_processorEvents hr hv hp]
    exact h

/-- A `SELECT` of the row with a unique value. -/
theorem relying_scalar {β : Type} {table : Db → List β} {key : β → String} {value : String}
    {Q : Prog.Post Db Write Exc (Option β)}
    (h : ∀ d, P d → ∃ x ∈ table ((engine fk).view d t.writes), key x = value ∧
      ((table ((engine fk).view d t.writes)).map key).Nodup ∧ Q (.ok (some x)) (t.saw d)) :
    (scalar table (key · == value)).Relying (engine fk) o P Q t := by
  refine relying_query fun d hd => ?_
  obtain ⟨x, hx, rfl, hunique, hQ⟩ := h d hd
  have hfirst : firstOf (o t.seen.length) ((table ((engine fk).view d t.writes)).filter (key · == key x)) = some x :=
    firstOf_eq hunique hx
  unfold firstOf at hfirst
  rw [hfirst]
  exact hQ

/-! ### The four programs -/

theorem purchased_relying {data : PurchaseRequest} {key : String} {result : PurchaseResult}
    (hr : r.route = .purchase (some data) (some key)) (hP : ∀ d, P d → d.Sound ∧ (Outcome.purchased key result).IsIn d) :
    (route env r).Relying (engine fk) o P (EndsIn {.ok (.purchase result)} (Rejects env r)) Txn.fresh := by
  have hroute : route env r = withApiKey env r fun client => respond .purchase (purchase env data key client) := by
    unfold route
    rw [hr]
    rfl
  rw [hroute]
  refine relying_gated (by rw [hr]; exact Route.noConfusion) fun client t' ht' => ?_
  refine relying_bind (relying_bind (relying_bind (relying_scalar fun d hd => ?_)))
  obtain ⟨hsound, hrow⟩ := hP d hd
  rw [ht', Engine.view_nil]
  refine ⟨_, hrow, rfl, hsound.unique .idempotencyKeysKey, ?_⟩
  -- the stored response is returned
  exact relying_ret (relying_ret (relying_ret ⟨rfl, ht'⟩))

theorem delivered_relying {envelope : ProcessorEventEnvelope} (hr : r.route = .processorEvents)
    (hp : env.parseEnvelope r.rawBody = .ok envelope) (hP : ∀ d, P d → (Outcome.delivered envelope.eventId).IsIn d) :
    (route env r).Relying (engine fk) o P (EndsIn {.ok (.ignored envelope.eventId)} (Rejects env r)) Txn.fresh := by
  have hclaimed : ∀ d, P d → (engine fk).violation ((engine fk).view d [])
      (.insertEvent ⟨envelope.eventId, envelope.eventType.value⟩) = some .integrityError := by
    intro d hd
    show Db.violation fk d _ = _
    have hmem : envelope.eventId ∈ d.column .eventsEventId := hP d hd
    simp [Db.violation, Write.keys, hmem]
  refine relying_verified hr hp (relying_bind (relying_write (fun d hd hno => ?_) fun d e hd he => ?_))
  · cases (hclaimed d hd).symm.trans hno
  · cases (hclaimed d hd).symm.trans he
    exact relying_rollback fun _ _ => relying_ret (relying_ret ⟨rfl, rfl⟩)

theorem refunded_relying {id : String} {data : Option RefundRequest} (hr : r.route = .refundPurchase id (some data))
    (hP : ∀ d, P d → d.Sound ∧ (Outcome.refunded id).IsIn d) :
    (route env r).Relying (engine fk) o P
      (EndsIn {.error (httpError 400 "Cannot refund a settlement in status 'reversed'")} (Rejects env r)) Txn.fresh := by
  have hroute : route env r = withApiKey env r fun _ => respond .refund (refundPurchase id data) := by
    unfold route
    rw [hr]
    rfl
  rw [hroute]
  refine relying_gated (by rw [hr]; exact Route.noConfusion) fun client t' ht' => ?_
  refine relying_bind (relying_handled (relying_bind (relying_scalar fun d hd => ?_)))
  obtain ⟨hsound, ⟨a, ha, hid⟩, -⟩ := hP d hd
  rw [ht', Engine.view_nil]
  refine ⟨a, ha, hid, hsound.unique .authorizationsId, ?_⟩
  refine relying_bind (relying_scalar fun d' hd' => ?_)
  obtain ⟨hsound', -, x, hx, hxid, hst⟩ := hP d' hd'
  rw [Txn.saw_writes, ht', Engine.view_nil]
  refine ⟨x, hx, hxid, hsound'.unique .settlementsAuthorization, ?_⟩
  show Relying _ _ _ _ (if x.status ≠ .settled then _ else _) _
  rw [if_pos (by rw [hst]; exact SettlementStatus.noConfusion), hst]
  exact relying_raise (relying_raise (Or.inl rfl))

/-- Why a decision is refused. -/
def NotPending (verb reference : String) (e : Exc) : Prop :=
  ∃ status, status ≠ .pending ∧ e = .valueError (notPending verb reference status)

theorem requirePending_relying {verb reference : String} {event : ProcessedWebhookEvent}
    (hP : ∀ d, P d → d.Sound ∧ (Outcome.decided reference).IsIn d) (ht : t.writes = [.insertEvent event]) :
    (requirePending verb reference).Relying (engine fk) o P
      (onEnd (fun _ _ => False) fun e _ => NotPending verb reference e) t := by
  refine relying_bind (relying_bind (relying_scalar fun d hd => ?_))
  obtain ⟨hsound, a, ha, href, hst⟩ := hP d hd
  have hview : ((engine fk).view d t.writes).authorizations = d.authorizations := by
    rw [ht]
    rfl
  rw [hview]
  refine ⟨a, ha, href, hsound.unique .authorizationsExternalReference, ?_⟩
  refine relying_ret ?_
  show Relying _ _ _ _ (if a.status ≠ .pending then _ else _) _
  rw [if_pos hst]
  exact relying_raise ⟨a.status, hst, rfl⟩

theorem handler_relying {envelope : ProcessorEventEnvelope} {verb reference : String} {event : ProcessedWebhookEvent}
    (hdecides : envelope.Decides env verb reference) (hP : ∀ d, P d → d.Sound ∧ (Outcome.decided reference).IsIn d)
    (ht : t.writes = [.insertEvent event]) : (handler env envelope.eventType envelope.data).Relying (engine fk) o P
      (onEnd (fun _ _ => False) fun e _ => NotPending verb reference e) t := by
  have refused : ∀ {β : Type} {p : Authorization → Tx β}, (requirePending verb reference >>= p).Relying (engine fk) o P
      (onEnd (fun _ _ => False) fun e _ => NotPending verb reference e) t := by
    intro β p
    refine relying_bind ((requirePending_relying hP ht).mono fun e t' he => ?_)
    cases e with
    | ok a => exact he.elim
    | error e => exact he
  rcases hdecides with ⟨rfl, htype, data, hdata, rfl⟩ | ⟨rfl, htype, data, hdata, rfl⟩
  · have happroved : handler env envelope.eventType envelope.data =
        requirePending "approve" data.authorizationId >>= fun authorization => do
          let authorization ← AuthorizationRepository.markApproved authorization
          return .authorization authorization.id authorization.status := by
      rw [htype]
      show (modelValidate (env.validateApproved envelope.data) >>= _) = _
      rw [hdata]
      rfl
    rw [happroved]
    exact refused
  · have hdeclined : handler env envelope.eventType envelope.data =
        requirePending "decline" data.authorizationId >>= fun authorization => do
          let authorization ← AuthorizationRepository.markDeclined authorization data.declineReason
          return .authorization authorization.id authorization.status := by
      rw [htype]
      show (modelValidate (env.validateDeclined envelope.data) >>= _) = _
      rw [hdata]
      rfl
    rw [hdeclined]
    exact refused

theorem decided_relying {envelope : ProcessorEventEnvelope} {verb reference : String} (hr : r.route = .processorEvents)
    (hp : env.parseEnvelope r.rawBody = .ok envelope) (hdecides : envelope.Decides env verb reference)
    (hP : ∀ d, P d → d.Sound ∧ (Outcome.decided reference).IsIn d) : (route env r).Relying (engine fk) o P
      (EndsIn {e | e = .ok (.ignored envelope.eventId) ∨ ∃ status, status ≠ .pending ∧
        e = .error (.httpException 400 (.error "event_processing_failed" (notPending verb reference status)))}
      (Rejects env r)) Txn.fresh := by
  refine relying_verified hr hp (relying_bind (relying_write (fun d hd _ => ?_) fun d e hd he => ?_))
  · -- the event is claimed, and its handler refuses
    refine relying_ret (relying_bind (relying_handled (relying_handled ?_)))
    refine (handler_relying hdecides hP rfl).mono fun e t' he => ?_
    cases e with
    | ok a => exact he.elim
    | error e =>
      obtain ⟨status, hst, rfl⟩ := he
      exact relying_raise (relying_raise (Or.inl (Or.inr ⟨status, hst, rfl⟩)))
  · have hintegrity : e = .integrityError := by
      change Db.violation fk _ _ = some e at he
      unfold Db.violation at he
      split at he
      · exact (Option.some.inj he).symm
      · cases he
    subst hintegrity
    exact relying_rollback fun _ _ => relying_ret (relying_ret ⟨Or.inl rfl, rfl⟩)

/-- Relying on an outcome, the requests that it decides end as it says. -/
theorem Outcome.Decides.relying {out : Outcome} (h : out.Decides env r ends) (hP : ∀ d, P d → d.Sound ∧ out.IsIn d) :
    (route env r).Relying (engine fk) o P (EndsIn ends (Rejects env r)) Txn.fresh := by
  cases h with
  | purchased hr => exact purchased_relying hr hP
  | delivered hr hp => exact delivered_relying hr hp fun d hd => (hP d hd).2
  | refunded hr => exact refunded_relying hr hP
  | decided hr hp hdecides => exact decided_relying hr hp hdecides hP

end Programs

/-! ### What is decided stays so -/

section Runs

variable {env : Env} {G : AppSession → Db → Prop} {d₀ d d' : Db} {s₀ s : AppSystem} {i : Nat} {t u : AppSession}
  {q r : Request} {a : Response} {ends : Set (Except Exc Response)} {out : Outcome}

/-- An outcome that is in a sound database is in the databases that extend it, if no authorization is pending again. -/
theorem Outcome.IsIn.extends (h : out.IsIn d) (hext : d.Extends d')
    (hkept : ∀ reference, (Outcome.decided reference).IsIn d → (Outcome.decided reference).IsIn d') : out.IsIn d' := by
  cases out with
  | purchased key result =>
    obtain ⟨k, hk, rfl⟩ := hext.idempotencyKeys.mem h
    exact hk
  | delivered eventId => exact hext.column _ _ h
  | refunded id =>
    obtain ⟨⟨a, ha, hid⟩, x, hx, hxid, hst⟩ := h
    obtain ⟨b, hb, hcore⟩ := hext.authorizations.mem ha
    refine ⟨⟨b, hb, (of_core Authorization.id hcore).trans hid⟩, ?_⟩
    obtain ⟨y, hy, rfl | ⟨hsettled, -⟩⟩ := hext.settlements.mem hx
    · exact ⟨y, hy, hxid, hst⟩
    · rw [hst] at hsettled
      cases hsettled
  | decided reference => exact hkept reference h

/-- No commit makes an authorization pending again, though it may be decided twice. -/
theorem Action.Commits.decided_kept {act : Action} {ds : List Db} (h : act.Commits env ds d) {reference : String}
    (hd : (Outcome.decided reference).IsIn d) : (Outcome.decided reference).IsIn (after env d act) := by
  obtain ⟨a, ha, rfl, hst⟩ := hd
  rcases h.authorization_cases ha with he | ⟨e, b, status, reason, rfl, hb⟩
  · refine ⟨a, ?_, rfl, hst⟩
    rw [authorizations_after]
    exact List.mem_append_left _ (List.mem_map.2 ⟨a, ha, he⟩)
  · obtain ⟨c, hc, href, hst'⟩ := h.decided_after
    exact ⟨c, hc, href.trans hb, hst'⟩

/-- Outcomes stay. -/
def outcomeRule (env : Env) (G : AppSession → Db → Prop) : Discipline (genPay env) (uniqueKeys env.foreignKeys) G where
  inv := Db.Sound
  evolves d d' := d.Extends d' ∧ ∀ out : Outcome, out.IsIn d → out.IsIn d'
  post := Committed env
  refl d := ⟨Db.Extends.refl d, fun _ h => h⟩
  trans h h' := ⟨h.1.trans h'.1, fun out hd => h'.2 out (h.2 out hd)⟩
  program := fun r o => handle_spec env r o
  commit := by
    intro t a d hpost _ hd hseen hord hfree
    obtain ⟨act, hw, hc, -⟩ := Committed.commits hpost hd (fun d' hd' => ⟨(hseen d' hd').1, (hseen d' hd').2.1⟩)
      (hord.imp fun h => h.1) hfree
    rw [hw]
    exact ⟨hc.sound_after, hc.extends_after, fun out hout => hout.extends hc.extends_after fun _ h => hc.decided_kept h⟩

/-- The session publishes nothing and ends in `ends`, unless the gate or the engine ends it. -/
structure AnsweredIn (env : Env) (ends : Set (Except Exc Response)) (r : Request) (t : AppSession) : Prop where
  committed : ∀ a, t.phase = .committed a → .ok a ∈ ends
  failed : ∀ e, t.phase = .failed e → .error e ∈ ends ∨ Rejects env r e ∨ e = .operationalError
  published : t.published = []

/-- A request that is started when an outcome decides it ends so, whatever commits meanwhile. -/
theorem outcome_stays (h₀ : d₀.Sound) (h₁ : Run (genPay env) G (System.initial d₀) s₀) (h₂ : Run (genPay env) G s₀ s)
    (hin : out.IsIn s₀.db) (hdecides : out.Decides env r ends) (hi : s₀.sessions.length ≤ i) (ht : s.sessions[i]? = some t)
    (hjob : t.job = .request r) : AnsweredIn env ends r t := by
  have hP : ∀ d, Passed (genPay env) G s₀ s d → d.Sound ∧ out.IsIn d := by
    intro d hd
    obtain ⟨hsound, hev, -⟩ := hd.evolves (outcomeRule env G) h₀ h₁
    exact ⟨hsound, hev.2 out hin⟩
  have hp : ((genPay env).handle t.job).Relying (genPay env).toEngine t.oracle (fun d => d.Sound ∧ out.IsIn d)
      (EndsIn ends (Rejects env r)) Txn.fresh := by
    rw [hjob]
    exact hdecides.relying fun _ h => h
  obtain ⟨hcommitted, hfailed⟩ := Run.relying h₁ h₂ hi ht hP hp
  refine ⟨fun a ha => (hcommitted a ha).1, fun e he => ?_, ?_⟩
  · rcases hfailed e he with rfl | ⟨ws, hend | hrejected⟩
    · exact Or.inr (Or.inr rfl)
    · exact Or.inl hend
    · exact Or.inr (Or.inl hrejected)
  · by_cases hc : ∃ a, t.phase = .committed a
    · obtain ⟨a, ha⟩ := hc
      rw [published_of_committed ha]
      exact (hcommitted a ha).2
    · exact published_of_not_committed fun a ha => hc ⟨a, ha⟩

/-! ### Retries -/

/-- The well-formed requests that a client may send again. -/
def Route.isSubmission : Route → Bool
  | .purchase (some _) (some _) | .refundPurchase _ (some _) | .processorEvents => true
  | _ => false

/-- How a request for this route ends that was answered by `a` before. -/
def Route.again (a : Response) : Route → Set (Except Exc Response)
  | .processorEvents => {e | ∃ eventId, (a = .ignored eventId ∨ ∃ result, a = .processed eventId result) ∧
      e = .ok (.ignored eventId)}
  | .refundPurchase .. => {.error (httpError 400 "Cannot refund a settlement in status 'reversed'")}
  | _ => {.ok a}

/-- What is committed with the answer to a request decides how it ends when it is sent again. -/
theorem outcome_of_commit {act : Action} {ds : List Db} (h : act.Commits env ds d) (hans : Answers env a act ds (.request q))
    (hkind : q.route.isSubmission = true) : ∃ out : Outcome, out.IsIn (Action.Commits.after env d act) ∧
      ∃ ends ⊆ q.route.again a, ∀ r : Request, r.route = q.route → r.rawBody = q.rawBody → out.Decides env r ends := by
  have hext := h.extends_after
  cases hq : q.route with
  | purchase data key =>
    obtain ⟨data, rfl⟩ : ∃ x, data = some x := by
      cases data with
      | none => simp [hq, Route.isSubmission] at hkind
      | some x => exact ⟨x, rfl⟩
    obtain ⟨key, rfl⟩ : ∃ x, key = some x := by
      cases key with
      | none => simp [hq, Route.isSubmission] at hkind
      | some x => exact ⟨x, rfl⟩
    have hbuys : (Job.request q).buys key := ⟨_, hq⟩
    obtain ⟨result, rfl, hbought⟩ := hans.purchase hbuys
    refine ⟨.purchased key result, ?_, _, Set.Subset.refl _, fun r hroute _ => .purchased hroute⟩
    rcases hbought with ⟨rfl, d', hd', hrow⟩ | ⟨p, rfl, rfl⟩
    · obtain ⟨k, hk, rfl⟩ := (h.seen d' hd').2.idempotencyKeys.mem hrow
      exact hk
    · show _ ∈ (Action.Commits.after env d _).idempotencyKeys
      rw [h.idempotencyKeys_after]
      exact List.mem_append_right _ (List.mem_singleton.2 rfl)
  | refundPurchase id data =>
    obtain ⟨data, rfl⟩ : ∃ x, data = some x := by
      cases data with
      | none => simp [hq, Route.isSubmission] at hkind
      | some x => exact ⟨x, rfl⟩
    simp only [Answers, AnswersRequest, hq] at hans
    obtain ⟨-, x, xs, ys, rfl, rfl⟩ := hans
    refine ⟨.refunded x.authorizationId, ⟨?_, h.reversed⟩, _, Set.Subset.refl _, fun r hroute _ => .refunded hroute⟩
    obtain ⟨y, hy, hid, -⟩ := h.reversed
    obtain ⟨b, hb, hbid⟩ := List.mem_map.1 (h.sound_after.authorization y hy)
    exact ⟨b, hb, hbid.trans hid⟩
  | processorEvents =>
    have hsent := hans
    simp only [Answers, AnswersRequest, hq] at hsent
    obtain ⟨-, envelope, hparse, -⟩ := hsent
    have hevent : (Job.request q).eventId? env = some envelope.eventId := by
      simp only [Job.eventId?, hq, hparse]
    refine ⟨.delivered envelope.eventId, ?_, {.ok (.ignored envelope.eventId)}, ?_, fun r hroute hbody =>
      .delivered hroute (hbody ▸ hparse)⟩
    · rcases hans.delivery hevent with ⟨rfl, -, d', hd', hid⟩ | ⟨result, event, -, hid, hact⟩
      · exact hext.column _ _ (h.seen_column hd' hid)
      · show _ ∈ (Action.Commits.after env d act).column .eventsEventId
        exact Action.Commits.inserted (Action.mem_insertEvent.2 hact) (by simp [Write.keys, hid])
    · rintro _ rfl
      rcases hans.delivery hevent with ⟨-, ha, -⟩ | ⟨result, event, ha, -⟩
      · exact ⟨_, Or.inl ha, rfl⟩
      · exact ⟨_, Or.inr ⟨result, ha⟩, rfl⟩
  | _ => simp [hq, Route.isSubmission] at hkind

/-- In every state the answered requests have their outcome. -/
theorem run_outcome (h₀ : d₀.Sound) (h : Run (genPay env) G (System.initial d₀) s) (hu : u ∈ s.sessions)
    (hq : u.job = .request q) (ha : u.phase = .committed a) (hkind : q.route.isSubmission = true) :
    ∃ out : Outcome, out.IsIn s.db ∧
      ∃ ends ⊆ q.route.again a, ∀ r : Request, r.route = q.route → r.rawBody = q.rawBody → out.Decides env r ends := by
  refine Discipline.facts (D := outcomeRule env G) (fun u d => ∀ a q, u.phase = .committed a → u.job = .request q →
    q.route.isSubmission = true → ∃ out : Outcome, out.IsIn d ∧ ∃ ends ⊆ q.route.again a, ∀ r : Request,
      r.route = q.route → r.rawBody = q.rawBody → out.Decides env r ends) ?_ ?_ h₀ h u hu a ha a q ha hq hkind
  · intro u a d hat b q hb hq hkind
    cases hb
    change u.job = .request q at hq
    obtain ⟨act, hw, hc, hans⟩ := Committed.commits hat.post hat.inv
      (fun d' hd' => ⟨(hat.seen d' hd').1, (hat.seen d' hd').2.1⟩) (hat.ordered.imp fun h => h.1) hat.free
    rw [hq] at hans
    rw [hw]
    exact outcome_of_commit hc hans hkind
  · intro u a d d' _ hF _ hev b q hb hq hkind
    obtain ⟨out, hin, hrest⟩ := hF b q hb hq hkind
    exact ⟨out, hev.2 out hin, hrest⟩

/-- Whoever sends a request again that was answered and has committed is told what it has achieved, whatever commits
before and meanwhile. -/
theorem retried (h₀ : Seeded env d₀) (h₁ : Run (genPay env) G (System.initial d₀) s₀) (h₂ : Run (genPay env) G s₀ s)
    (hu : u ∈ s₀.sessions) (hq : u.job = .request q) (ha : u.phase = .committed a) (hkind : q.route.isSubmission = true)
    (hi : s₀.sessions.length ≤ i) (ht : s.sessions[i]? = some t) (hjob : t.job = .request r) (hroute : r.route = q.route)
    (hbody : r.rawBody = q.rawBody) : AnsweredIn env (q.route.again a) r t := by
  obtain ⟨out, hin, ends, hsub, hdecides⟩ := run_outcome h₀.sound h₁ hu hq ha hkind
  have hends := outcome_stays h₀.sound h₁ h₂ hin (hdecides r hroute hbody) hi ht hjob
  exact ⟨fun b hb => hsub (hends.committed b hb), fun e he => (hends.failed e he).imp_left fun h => hsub h,
    hends.published⟩

end Runs

namespace Sample

/-- Where a schedule leads on from a state. -/
def onward (s : AppSystem) (ls : List (Label Choice Job)) : AppSystem :=
  (s.schedule (genPay env) (fun _ _ => true) ls).getD s

theorem run_onward (s : AppSystem) (ls : List (Label Choice Job)) : Run (genPay env) (fun _ _ => True) s (onward s ls) :=
  run_schedule_getD (P := fun _ => True) (fun _ _ _ _ => True.intro) (fun _ _ _ => True.intro) fun _ _ => True.intro

def purchasedFirst : AppSystem :=
  onward (System.initial seeded) (.start (Case.job (.buys "key")) (oracle 1) :: List.replicate 35 (.exec 0))

/-- The purchase is sent again. -/
def repurchased : AppSystem :=
  onward purchasedFirst (.start (Case.job (.buys "key")) (oracle 2) :: List.replicate 3 (.exec 1))

/-- The purchase is refunded, and a refund of it is asked for once more. -/
def refundedFirst : AppSystem :=
  onward purchasedFirst (.start (Case.job .refunds) (oracle 2) :: List.replicate 26 (.exec 1))

def refundedAgain : AppSystem :=
  onward refundedFirst (.start (Case.job .refunds) (oracle 3) :: List.replicate 4 (.exec 2))

end Sample

open Sample in
theorem outcome_stays_refundedAgain : ∃ t r, refundedAgain.sessions[2]? = some t ∧ t.job = .request r ∧
    r.route = .refundPurchase (uuid 1 6) (some none) ∧ answer t = none ∧
    AnsweredIn Sample.env {.error (httpError 400 "Cannot refund a settlement in status 'reversed'")} r t := by
  have hlast : refundedAgain.sessions[2]?.any (fun t => answer t == none &&
      t.job.request?.any fun r => r.route == .refundPurchase (uuid 1 6) (some none)) = true := by decide +kernel
  obtain ⟨t, ht, hp⟩ := (Option.any_eq_true _ _).1 hlast
  obtain ⟨hanswer, hr⟩ := Bool.and_eq_true_iff.1 hp
  obtain ⟨r, hr, hroute⟩ := (Option.any_eq_true _ _).1 hr
  have hjob := Job.request?_eq_some.1 hr
  have hroute : r.route = .refundPurchase (uuid 1 6) (some none) := by simpa using hroute
  have hin : (Outcome.refunded (uuid 1 6)).IsIn refundedFirst.db := by
    show (∃ a ∈ refundedFirst.db.authorizations, a.id = uuid 1 6) ∧
      ∃ x ∈ refundedFirst.db.settlements, x.authorizationId = uuid 1 6 ∧ x.status = .reversed
    decide +kernel
  refine ⟨t, r, ht, hjob, hroute, by simpa using hanswer, ?_⟩
  exact outcome_stays (i := 2) seeded_env.sound ((run_onward _ _).trans (run_onward _ _)) (run_onward _ _) hin (.refunded hroute)
    (by decide +kernel) ht hjob

open Sample in
theorem retried_repurchased : ∃ u t r a, purchasedFirst.sessions[0]? = some u ∧ u.phase = .committed a ∧
    repurchased.sessions[1]? = some t ∧ t.job = .request r ∧ t.phase = .committed a ∧
    AnsweredIn Sample.env {.ok a} r t := by
  obtain ⟨u, a, hu, ha, hp⟩ := committed_at (s := purchasedFirst) (i := 0)
    (p := fun u _ => u.job.request?.any fun q => q.route == .purchase (some ⟨uuid 0 20, uuid 0 16⟩) (some "key") &&
      decide (q.rawBody = ByteArray.empty)) (by decide +kernel)
  obtain ⟨t, b, ht, hb, hp'⟩ := committed_at (s := repurchased) (i := 1)
    (p := fun t _ => t.job.request?.any fun r => r.route == .purchase (some ⟨uuid 0 20, uuid 0 16⟩) (some "key") &&
      decide (r.rawBody = ByteArray.empty)) (by decide +kernel)
  obtain ⟨q, hq, hq'⟩ := (Option.any_eq_true _ _).1 hp
  obtain ⟨r, hr, hr'⟩ := (Option.any_eq_true _ _).1 hp'
  obtain ⟨hqroute, hqbody⟩ := Bool.and_eq_true_iff.1 hq'
  obtain ⟨hrroute, hrbody⟩ := Bool.and_eq_true_iff.1 hr'
  have hqroute := eq_of_beq hqroute
  have hjob := Job.request?_eq_some.1 hr
  have hends := retried (i := 1) seeded_env (run_onward _ _) (run_onward _ _) (List.mem_of_getElem? hu)
    (Job.request?_eq_some.1 hq) ha (by rw [hqroute]; rfl) (by decide +kernel) ht hjob
    ((eq_of_beq hrroute).trans hqroute.symm) ((of_decide_eq_true hrbody).trans (of_decide_eq_true hqbody).symm)
  rw [hqroute] at hends
  have hsame : b = a := by simpa [Route.again] using hends.committed b hb
  exact ⟨u, t, r, a, hu, ha, ht, hjob, hsame ▸ hb, hends⟩

end GenPay
