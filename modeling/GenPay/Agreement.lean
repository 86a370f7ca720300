import GenPay.Batches
import GenPay.Signing

/-!
# Agreement with the processor

Whoever does not know the secret can only copy digests that the processor has issued.  If all deliveries that verify
carry a copied one, and no two of the texts signed collide, each delivery that has an effect is one that the processor
has issued, within the tolerance of its timestamp, and no other delivery of the same body has an effect, not even one
that is signed again (`deliveries_agree`).
-/

namespace GenPay

open ReadCommitted

/-- A delivery whose header carries the digest of this body at this time. -/
def Job.Presents (env : Env) (timestamp : Int) (body : String) : Job → Prop
  | .request r => r.route = .processorEvents ∧ ∃ header, r.xGenPaySignature = some header ∧
      effectivePart header "v1" = some (payloadDigest env env.settings.webhookSigningSecret body timestamp)
  | _ => False

/-- A delivery of this body, as it was issued for this time, within the tolerance. -/
def Job.Delivers (timestamp : Int) (body : String) : Job → Prop
  | .request r => r.route = .processorEvents ∧ r.rawBody = body.toUTF8 ∧
      |r.clock - timestamp| ≤ (signatureToleranceSeconds : ℚ)
  | _ => False

/-- The texts that the processor has signed, and those that deliveries verify against. -/
def signedTexts (env : Env) (issued : Int → String → Prop) (s : AppSystem) : Set String :=
  {text | ∃ (timestamp : Int) (body : String), text = s!"{timestamp}.{body}" ∧
    (issued timestamp body ∨ ∃ t ∈ s.sessions, t.job.Presents env timestamp body ∧ t.job.Delivers timestamp body)}

/-- What has an effect was issued, and has it once: neither the same body nor a digest that was issued for it has an
effect in another session. -/
structure DeliveriesAgree (env : Env) (issued : Int → String → Prop) (s : AppSystem) : Prop where
  delivered : ∀ (i : Nat) t id, s.sessions[i]? = some t → t.job.eventId? env = some id → t.published ≠ [] →
    ∃ timestamp body, issued timestamp body ∧ t.job.Presents env timestamp body ∧ t.job.Delivers timestamp body ∧
      ∀ (j : Nat) u other, s.sessions[j]? = some u →
        u.job.Delivers other body ∨ issued other body ∧ u.job.Presents env other body → u.published ≠ [] → j = i
  processed : ∀ id ∈ s.db.column .eventsEventId, ∃ timestamp body envelope, issued timestamp body ∧
    env.parseEnvelope body.toUTF8 = .ok envelope ∧ envelope.eventId = id

theorem toUTF8_of_fromUTF8? {bytes : ByteArray} {text : String} (h : String.fromUTF8? bytes = some text) :
    bytes = text.toUTF8 := by
  unfold String.fromUTF8? at h
  split at h
  · cases h
    rfl
  · cases h

section Runs

variable {env : Env} {d₀ : Db} {s : AppSystem}

/-- A delivery that has an effect has an event, and carries the digest of its own body. -/
theorem delivers_of_published (h₀ : Seeded env d₀) (h : Reachable (genPay env) d₀ s) {t : AppSession} (ht : t ∈ s.sessions)
    {r : Request} (hjob : t.job = .request r) (hroute : r.route = .processorEvents) (hne : t.published ≠ []) :
    (∃ id, t.job.eventId? env = some id) ∧
      ∃ timestamp body, t.job.Presents env timestamp body ∧ t.job.Delivers timestamp body := by
  obtain ⟨w, hw⟩ := List.exists_mem_of_ne_nil _ hne
  obtain ⟨a, act, -, hpub, -, hans⟩ := published_action h₀.sound h ht hw
  rw [hjob] at hans ⊢
  simp only [Answers, AnswersRequest, hroute] at hans
  obtain ⟨⟨header, timestamp, body, hheader, htext, hparsed, hnear⟩, envelope, hparse, -⟩ := hans
  exact ⟨⟨envelope.eventId, by simp only [Job.eventId?, hroute, hparse]⟩, timestamp, body,
    ⟨hroute, header, hheader, (effectivePart_of_parse hparsed).2⟩, hroute, toUTF8_of_fromUTF8? htext, hnear⟩

/-- The digest in a header is that of one of the signed texts. -/
theorem Job.Presents.body_eq {texts : Set String} (hinj : Set.InjOn (env.hmacSha256 env.settings.webhookSigningSecret) texts)
    {job : Job} {timestamp other : Int} {body copied : String} (h : job.Presents env timestamp body)
    (h' : job.Presents env other copied) (hmem : s!"{timestamp}.{body}" ∈ texts) (hmem' : s!"{other}.{copied}" ∈ texts) :
    timestamp = other ∧ body = copied := by
  cases job with
  | request r =>
    obtain ⟨-, header, hheader, hv1⟩ := h
    obtain ⟨-, header', hheader', hv1'⟩ := h'
    rw [hheader] at hheader'
    cases hheader'
    rw [hv1] at hv1'
    exact signedText_inj (hinj hmem hmem' (Option.some.inj hv1'))
  | _ => exact h.elim

theorem Job.Presents.request {job : Job} {timestamp : Int} {body : String} (h : job.Presents env timestamp body) :
    ∃ r, job = .request r ∧ r.route = .processorEvents := by
  cases job with
  | request r => exact ⟨r, rfl, h.1⟩
  | _ => exact h.elim

theorem Job.Delivers.request {job : Job} {timestamp : Int} {body : String} (h : job.Delivers timestamp body) :
    ∃ r, job = .request r ∧ r.route = .processorEvents := by
  cases job with
  | request r => exact ⟨r, rfl, h.1⟩
  | _ => exact h.elim

/-- Deliveries of one body are deliveries of one event. -/
theorem Job.Delivers.eventId {job job' : Job} {timestamp other : Int} {body : String} (h : job.Delivers timestamp body)
    (h' : job'.Delivers other body) : job.eventId? env = job'.eventId? env := by
  cases job with
  | request r =>
    cases job' with
    | request r' =>
      obtain ⟨hroute, hbody, -⟩ := h
      obtain ⟨hroute', hbody', -⟩ := h'
      simp only [Job.eventId?, hroute, hroute', hbody, hbody']
    | _ => exact h'.elim
  | _ => exact h.elim

/-- Let every delivery that verifies carry a digest that was issued, and no two of the texts signed have the same
digest.  Then what has an effect was issued, and has it once. -/
theorem deliveries_agree {issued : Int → String → Prop}
    (hinj : Set.InjOn (env.hmacSha256 env.settings.webhookSigningSecret) (signedTexts env issued s)) (h₀ : Seeded env d₀)
    (h : Reachable (genPay env) d₀ s)
    (hissued : ∀ t ∈ s.sessions, ∀ timestamp body, t.job.Presents env timestamp body → t.job.Delivers timestamp body →
      ∃ timestamp' body', issued timestamp' body' ∧ t.job.Presents env timestamp' body') :
    DeliveriesAgree env issued s := by
  -- the text that a delivery verifies against is the one it was issued for
  have own : ∀ t ∈ s.sessions, ∀ {timestamp body timestamp' body'}, t.job.Presents env timestamp body →
      t.job.Delivers timestamp body → issued timestamp' body' → t.job.Presents env timestamp' body' →
      timestamp = timestamp' ∧ body = body' := fun t ht _ _ _ _ hpresents hdelivers hissue hpresents' =>
    hpresents.body_eq hinj hpresents' ⟨_, _, rfl, Or.inr ⟨t, ht, hpresents, hdelivers⟩⟩ ⟨_, _, rfl, Or.inl hissue⟩
  have issuedOwn : ∀ t ∈ s.sessions, ∀ {timestamp body}, t.job.Presents env timestamp body →
      t.job.Delivers timestamp body → issued timestamp body := fun t ht _ _ hpresents hdelivers => by
    obtain ⟨timestamp', body', hissue, hpresents'⟩ := hissued t ht _ _ hpresents hdelivers
    obtain ⟨rfl, rfl⟩ := own t ht hpresents hdelivers hissue hpresents'
    exact hissue
  refine { delivered := fun i t id ht hjob hne => ?_, processed := fun id hid => ?_ }
  · have hmem := List.mem_of_getElem? ht
    obtain ⟨r, envelope, hr, hroute, hparse, -⟩ := Job.eventId?_eq_some hjob
    obtain ⟨-, timestamp, body, hpresents, hdelivers⟩ := delivers_of_published h₀ h hmem hr hroute hne
    refine ⟨timestamp, body, issuedOwn t hmem hpresents hdelivers, hpresents, hdelivers, fun j u other hu hsame hne' => ?_⟩
    have hmem' := List.mem_of_getElem? hu
    obtain ⟨r', hr', hroute'⟩ := hsame.elim Job.Delivers.request fun hsame => hsame.2.request
    obtain ⟨⟨id', hjob'⟩, timestamp', body', hown, hdelivers'⟩ := delivers_of_published h₀ h hmem' hr' hroute' hne'
    have hbody : ∃ other', u.job.Delivers other' body := by
      rcases hsame with hsame | ⟨hissue, hcopied⟩
      · exact ⟨other, hsame⟩
      · obtain ⟨-, rfl⟩ := own u hmem' hown hdelivers' hissue hcopied
        exact ⟨timestamp', hdelivers'⟩
    obtain ⟨other', hbody⟩ := hbody
    have hid : t.job.eventId? env = some id' := (hdelivers.eventId hbody).trans hjob'
    exact (delivered_once h₀ h).once j i u t hu ht hjob' hid hne' hne
  · obtain ⟨u, hu, hjob, hne, -⟩ := processed_of_stored h₀ h hid
    obtain ⟨r, envelope, hr, hroute, hparse, he⟩ := Job.eventId?_eq_some hjob
    obtain ⟨-, timestamp, body, hpresents, hdelivers⟩ := delivers_of_published h₀ h hu hr hroute hne
    refine ⟨timestamp, body, envelope, issuedOwn u hu hpresents hdelivers, ?_, he⟩
    rw [hr] at hdelivers
    exact hdelivers.2.1 ▸ hparse

end Runs

namespace Sample

/-- The first event arrives twice. -/
def arrivesTwice : List (Label Choice Job) :=
  .start (.request (delivery .created)) (oracle 1) :: .start (.request (delivery .created)) (oracle 2) ::
    (List.replicate 8 (.exec 0) ++ List.replicate 3 (.exec 1))

def twice : AppSystem := scheduled injectiveEnv seeded (fun _ _ => true) arrivesTwice

theorem injective_handle : (genPay injectiveEnv).handle (.request (delivery .created)) =
    processEnvelope injectiveEnv Event.created.envelope := by
  have hverify : verify injectiveEnv "change-me" (delivery .created).clock (some Event.created.header)
      Event.created.body.toUTF8 = .ok Event.created.body.toUTF8 := by
    rw [← header_created]
    exact (signature_binds injective_digest hex_digest).2 1767225600 Event.created.body _ (le_maxFloat (by
      norm_num [delivery, Event.number])) (by norm_num [delivery, Event.number])
  have hparse : injectiveEnv.parseEnvelope = env.parseEnvelope := rfl
  exact route_processorEvents (r := delivery .created) rfl hverify ((congrFun hparse _).trans (parse_body .created))

theorem twice_published : twice.sessions.map (fun t => t.published.isEmpty) = [false, true] := by
  have hhandle : ∀ r o, Label.start r o ∈ arrivesTwice →
      processEnvelope injectiveEnv Event.created.envelope = (genPay injectiveEnv).handle r := by
    intro r o hr
    have hjob : r = .request (delivery .created) := by
      simp only [arrivesTwice, List.mem_cons, List.mem_append, List.mem_replicate] at hr
      rcases hr with he | he | ⟨-, he⟩ | ⟨-, he⟩ <;> cases he <;> rfl
    rw [hjob, injective_handle]
  unfold twice scheduled
  rw [schedule_handle hhandle]
  decide +kernel

theorem presents_created : Job.Presents injectiveEnv 1767225600 Event.created.body (.request (delivery .created)) := by
  refine ⟨rfl, Event.created.header, rfl, ?_⟩
  change _ = some (payloadDigest injectiveEnv "change-me" Event.created.body 1767225600)
  rw [digest_created]
  decide +kernel

end Sample

open Sample in
theorem deliveries_agree_twice : twice.sessions.map (fun t => t.published.isEmpty) = [false, true] ∧
    DeliveriesAgree injectiveEnv (fun timestamp body => timestamp = 1767225600 ∧ body = Event.created.body) twice := by
  refine ⟨twice_published, deliveries_agree injective_digest.injOn (seeded_of_settings seeded_env rfl rfl rfl)
    (run_scheduled (fun _ _ _ => True.intro) arrivesTwice) fun t ht _ _ _ _ => ⟨_, _, ⟨rfl, rfl⟩, ?_⟩⟩
  have hstart := started_of_scheduled ht
  have hjob : t.job = .request (delivery .created) := by
    simp only [arrivesTwice, List.mem_cons, List.mem_append, List.mem_replicate] at hstart
    rcases hstart with he | he | ⟨-, he⟩ | ⟨-, he⟩
    · exact (Label.start.inj he).1
    · exact (Label.start.inj he).1
    · cases he
    · cases he
  rw [hjob]
  exact presents_created

end GenPay
