import GenPay.Purchases

/-!
# Deliveries of processor events

A delivery claims its event id by inserting it before its handler runs, in the handler's transaction: the claim
and the effects of the handler are committed together or not at all, and a failed delivery leaves the id free
(`DeliveredOnce`).  Of deliveries one after the other, those that follow the first successful one of their event
id can be left out (`serveAll_dedup`).
-/

namespace GenPay

open ReadCommitted

/-- The event id that a delivery carries, if its body parses. -/
def Job.eventId? (env : Env) : Job → Option String
  | .request r =>
    match r.route, env.parseEnvelope r.rawBody with
    | .processorEvents, .ok envelope => some envelope.eventId
    | _, _ => none
  | _ => none

/-- A delivery of this event id that is answered alone claims it and runs the handler. -/
def Processes (env : Env) (eventId : String) (d : Db) : Prop :=
  ∀ envelope o t, envelope.eventId = eventId → t.writes = [] →
    (processEnvelope env envelope).run (engine env.foreignKeys) o d t =
      (processClaimed env envelope).run (engine env.foreignKeys) o d (t.wrote d (.insertEvent envelope.event))

/-- At most one delivery of the event has effects, together with its claim, and the others leave no trace. -/
structure DeliveredOnce (env : Env) (d₀ : Db) (eventId : String) (s : AppSystem) : Prop where
  once : ∀ (i j : Nat) t u, s.sessions[i]? = some t → s.sessions[j]? = some u → t.job.eventId? env = some eventId →
    u.job.eventId? env = some eventId → t.published ≠ [] → u.published ≠ [] → i = j
  answered : ∀ t ∈ s.sessions, ∀ a, t.job.eventId? env = some eventId → t.phase = .committed a →
    (a = .ignored eventId ∧ t.published = [] ∧ ∃ u ∈ s.sessions, u.job.eventId? env = some eventId ∧
      u.published ≠ [] ∧ ∃ result, u.phase = .committed (.processed eventId result)) ∨
    ∃ result event act, a = .processed eventId result ∧ event.eventId = eventId ∧
      Action.event? act = some event ∧ t.published = act.writes
  failed : ∀ t ∈ s.sessions, ∀ r, t.job = .request r → r.route = .processorEvents →
    (∀ a, t.phase ≠ .committed a) → t.published = []
  traceless : ∀ (i : Nat) t, s.sessions[i]? = some t → t.published = [] →
    Erasable (genPay env) (fun _ _ => True) d₀ i s
  /-- As long as all deliveries of the event have failed, another one is still processed. -/
  retry : (∀ t ∈ s.sessions, t.job.eventId? env = some eventId → t.published = []) → Processes env eventId s.db

/-- The jobs without the deliveries that follow the first successful one of their event id, starting from `d`
when the events `done` have been delivered. -/
def dedup (env : Env) (d : Db) (done : List String) :
    List (Job × (Nat → Choice)) → List (Job × (Nat → Choice))
  | [] => []
  | r :: rs =>
    let (a, d') := (genPay env).serve r.1 r.2 d
    match r.1.eventId? env with
    | some id =>
      if id ∈ done then dedup env d done rs
      else r :: dedup env d' (if a.isOk then id :: done else done) rs
    | none => r :: dedup env d' done rs

/-! ### The event of a delivery -/

theorem Job.eventId?_eq_some {env : Env} {job : Job} {eventId : String} (h : job.eventId? env = some eventId) :
    ∃ r envelope, job = .request r ∧ r.route = .processorEvents ∧ env.parseEnvelope r.rawBody = .ok envelope ∧
      envelope.eventId = eventId := by
  cases job with
  | seed => cases h
  | reconcileScript => cases h
  | request r =>
    simp only [Job.eventId?] at h
    split at h
    · rename_i envelope hr hparse
      exact ⟨r, envelope, rfl, hr, hparse, Option.some.inj h⟩
    · cases h

/-- An event that is not committed is claimed and handled. -/
theorem processes_of_free {env : Env} {eventId : String} {d : Db} (hk : eventId ∉ d.column .eventsEventId) :
    Processes env eventId d := by
  rintro envelope o t rfl ht
  have hview : (engine env.foreignKeys).view d t.writes = d := by rw [ht, Engine.view_nil]
  have hclaim : (engine env.foreignKeys).violation d (.insertEvent ⟨envelope.eventId, envelope.eventType.value⟩) =
      none := by
    show Db.violation _ _ _ = none
    simp [Db.violation, Write.keys, Write.references, Write.checked, hk]
  unfold processEnvelope ProcessedWebhookEventRepository.tryClaim
  simp only [bind, Prog.bind, Prog.run, hview, hclaim]
  rfl

/-- Events are inserted by actions that claim them. -/
theorem Action.mem_insertEvent {act : Action} {e : ProcessedWebhookEvent} :
    .insertEvent e ∈ act.writes ↔ act.event? = some e := by
  cases act with
  | purchase key p => cases key <;> simp [writes, event?, Purchase.mem_writes]
  | batch e ps => simp [writes, event?, Purchase.mem_writes, eq_comm]
  | refund s xs ys => simp [writes, event?, mem_postings, mem_marks]
  | created => simp [writes, event?, eq_comm]
  | decided => simp [writes, event?, eq_comm]
  | _ => simp [writes, event?]

namespace Answers

variable {env : Env} {job : Job} {a : Response} {act : Action} {ds : List Db} {eventId : String}

theorem delivery (h : Answers env a act ds job) (hjob : job.eventId? env = some eventId) :
    (act = .quiet ∧ a = .ignored eventId ∧ ∃ d ∈ ds, eventId ∈ d.column .eventsEventId) ∨
      ∃ result event, a = .processed eventId result ∧ event.eventId = eventId ∧ act.event? = some event := by
  obtain ⟨r, envelope, rfl, hr, hparse, rfl⟩ := Job.eventId?_eq_some hjob
  simp only [Answers, AnswersRequest, hr] at h
  obtain ⟨-, envelope', hparse', ⟨rfl, ha, hd⟩ | ⟨⟨result, ha⟩, hact⟩⟩ := h
  · rw [hparse] at hparse'
    cases hparse'
    exact Or.inl ⟨rfl, ha, hd⟩
  · rw [hparse] at hparse'
    cases hparse'
    exact Or.inr ⟨result, _, ha, rfl, hact.event⟩

theorem delivers {e : ProcessedWebhookEvent} (h : Answers env a act ds job) (he : act.event? = some e) :
    job.eventId? env = some e.eventId := by
  cases h.acts with
  | entity _ hact =>
    cases act with
    | user => cases he
    | archive => cases he
    | record => cases he
    | _ => cases hact
  | event hr _ hparse _ hact =>
    rw [hact.event] at he
    cases he
    simp only [Job.eventId?, hr, hparse]
    rfl
  | _ => cases he

end Answers

section Runs

variable {env : Env} {d₀ : Db} {s : AppSystem} {eventId : String}

/-- A delivery that publishes anything publishes its claim with all that its handler has written. -/
theorem delivery_published (h₀ : Seeded env d₀) (h : Reachable (genPay env) d₀ s) {t : AppSession}
    (ht : t ∈ s.sessions) (hjob : t.job.eventId? env = some eventId) (hne : t.published ≠ []) :
    (Column.eventsEventId, eventId) ∈ (uniqueKeys env.foreignKeys).all t.published := by
  obtain ⟨w, hw⟩ := List.exists_mem_of_ne_nil _ hne
  obtain ⟨a, act, -, hpub, -, hans⟩ := published_action h₀.sound h ht hw
  rcases hans.delivery hjob with ⟨rfl, -⟩ | ⟨result, event, -, rfl, hevent⟩
  · exact absurd hpub hne
  · refine List.mem_flatMap.2 ⟨.insertEvent event, ?_, by simp [uniqueKeys, Write.keys]⟩
    rw [hpub]
    exact Action.mem_insertEvent.2 hevent

/-- Every event that is committed has been processed by a delivery. -/
theorem processed_of_stored (h₀ : Seeded env d₀) (h : Reachable (genPay env) d₀ s)
    (hk : eventId ∈ s.db.column .eventsEventId) : ∃ u ∈ s.sessions, u.job.eventId? env = some eventId ∧
      u.published ≠ [] ∧ ∃ result, u.phase = .committed (.processed eventId result) := by
  have hmem : (uniqueKeys env.foreignKeys).mem s.db (.eventsEventId, eventId) := hk
  rcases Keys.source h hmem with hold | ⟨i, u, hu, hkey⟩
  · change eventId ∈ d₀.events.map _ at hold
    rw [h₀.no_ledger.2.2.2.2] at hold
    cases hold
  · have hus := List.mem_of_getElem? hu
    obtain ⟨w, hw, hwk⟩ := List.mem_flatMap.1 hkey
    obtain ⟨a, act, ha, hpub, -, hans⟩ := published_action h₀.sound h hus hw
    have hclaim : ∃ e : ProcessedWebhookEvent, w = .insertEvent e ∧ e.eventId = eventId := by
      cases w with
      | insertEvent e => exact ⟨e, rfl, by simpa [uniqueKeys, Write.keys, eq_comm] using hwk⟩
      | insertAccount r => simp [uniqueKeys, Write.keys] at hwk
      | _ => simp [uniqueKeys, Write.keys] at hwk
    obtain ⟨e, rfl, rfl⟩ := hclaim
    have hevent : act.event? = some e := Action.mem_insertEvent.1 (hpub ▸ hw)
    have hjob := hans.delivers hevent
    refine ⟨u, hus, hjob, List.ne_nil_of_mem hw, ?_⟩
    rcases hans.delivery hjob with ⟨rfl, -⟩ | ⟨result, event, rfl, -⟩
    · cases hevent
    · exact ⟨result, ha⟩

theorem delivered_once (h₀ : Seeded env d₀) (h : Reachable (genPay env) d₀ s) : DeliveredOnce env d₀ eventId s where
  once i j t u ht hu htj huj htp hup :=
    Keys.published_disjoint (K := uniqueKeys env.foreignKeys) (Keys.inv_run h) ht hu
      (delivery_published h₀ h (List.mem_of_getElem? ht) htj htp)
      (delivery_published h₀ h (List.mem_of_getElem? hu) huj hup)
  answered t ht a hjob ha := by
    obtain ⟨act, hw, -, hans⟩ := committed_action h₀.sound h ht ha
    rcases hans.delivery hjob with ⟨rfl, rfl, d, hd, hid⟩ | ⟨result, event, rfl, hid, hevent⟩
    · have hext := ((Discipline.inv_run (D := ledger env fun _ _ => True) h₀.sound h).seen t ht d hd).2
      exact Or.inl ⟨rfl, (published_of_committed ha).trans hw,
        processed_of_stored h₀ h (hext.column .eventsEventId eventId hid)⟩
    · exact Or.inr ⟨result, event, act, rfl, hid, hevent, (published_of_committed ha).trans hw⟩
  failed t _ r _ _ hn := published_of_not_committed hn
  traceless i t ht hnil := Run.erase h ht hnil
  retry hfail := by
    refine processes_of_free fun hmem => ?_
    obtain ⟨u, hu, hjob, hne, -⟩ := processed_of_stored h₀ h hmem
    exact hne (hfail u hu hjob)

end Runs

/-! ### One delivery after the other -/

section Serial

variable {env : Env} {d : Db} {job : Job} {o : Nat → Choice} {eventId : String}

/-- A delivery of an event that is committed leaves the database as it is. -/
theorem serve_duplicate (hd : d.Sound) (hjob : job.eventId? env = some eventId)
    (hid : eventId ∈ d.column .eventsEventId) : ((genPay env).serve job o d).2 = d := by
  rcases hs : (genPay env).serve job o d with ⟨e | a, d'⟩
  · exact Service.serve_error hs
  · obtain ⟨act, ds, hc, hans, -, rfl⟩ := serve_commits hd hs
    rcases hans.delivery hjob with ⟨rfl, -⟩ | ⟨result, event, -, rfl, hevent⟩
    · rfl
    · exact absurd hid (hc.fresh (Action.mem_insertEvent.2 hevent) (by simp [Write.keys]))

/-- A delivery that is answered has its event committed. -/
theorem serve_delivered (hd : d.Sound) (hjob : job.eventId? env = some eventId)
    (hok : ((genPay env).serve job o d).1.isOk = true) :
    eventId ∈ ((genPay env).serve job o d).2.column .eventsEventId := by
  rcases hs : (genPay env).serve job o d with ⟨e | a, d'⟩
  · rw [hs] at hok
    cases hok
  · obtain ⟨act, ds, hc, hans, hseen, rfl⟩ := serve_commits hd hs
    rcases hans.delivery hjob with ⟨rfl, -, d', hd', hid⟩ | ⟨result, event, -, rfl, hevent⟩
    · rw [hseen d' hd'] at hid
      exact hid
    · exact Action.Commits.inserted (Action.mem_insertEvent.2 hevent) (by simp [Write.keys])

/-- Leaving the duplicates out changes nothing; the induction needs the events `done` to be committed. -/
theorem serveAll_dedup (rs : List (Job × (Nat → Choice))) : ∀ {d : Db} {done : List String}, d.Sound →
    (∀ id ∈ done, id ∈ d.column .eventsEventId) →
    (genPay env).serveAll d (dedup env d done rs) = (genPay env).serveAll d rs := by
  induction rs with
  | nil => exact fun _ _ => rfl
  | cons r rs ih =>
    intro d done hd hdone
    obtain ⟨hd', hext⟩ := Discipline.serve (D := ledger env fun _ _ => True) (fun _ _ => True.intro) hd r.1 r.2
    have hdone' : ∀ id ∈ done, id ∈ ((genPay env).serve r.1 r.2 d).2.column .eventsEventId :=
      fun id hid => hext.column _ _ (hdone id hid)
    simp only [dedup]
    cases hjob : r.1.eventId? env with
    | none => exact ih hd' hdone'
    | some id =>
      simp only
      split
      · rename_i hid
        rw [ih hd hdone, Service.serveAll, serve_duplicate hd hjob (hdone id hid)]
      · refine ih hd' fun id' hid' => ?_
        split at hid'
        · rename_i hok
          rcases List.mem_cons.1 hid' with rfl | hid'
          · exact serve_delivered hd hjob hok
          · exact hdone' id' hid'
        · exact hdone' id' hid'

end Serial

/-- Deliveries take effect once per event, under any interleaving; one after the other, the duplicates can be left
out. -/
theorem deliveries_idempotent {env : Env} {d₀ : Db} (h₀ : Seeded env d₀) :
    (∀ s, Reachable (genPay env) d₀ s → ∀ eventId, DeliveredOnce env d₀ eventId s) ∧
      ∀ rs, (genPay env).serveAll d₀ (dedup env d₀ [] rs) = (genPay env).serveAll d₀ rs :=
  ⟨fun _ h _ => delivered_once h₀ h, fun rs => serveAll_dedup rs h₀.sound (by simp)⟩

/-- The approval arrives too early and fails; the creation is delivered twice at the same time; the approval is
delivered again. -/
def Sample.redelivered : AppSystem :=
  after (fun _ _ => true) [.start 0 (.delivers .approved), .steps 0 3, .start 1 (.delivers .created), .steps 1 5,
    .start 2 (.delivers .created), .steps 1 3, .steps 2 3, .start 3 (.delivers .approved), .steps 3 4]

theorem deliveries_idempotent_redelivered :
    (Sample.redelivered.sessions.map fun t => (t.published.length, (answer t).isSome)) =
      [(0, false), (2, true), (0, true), (2, true)] ∧
    DeliveredOnce Sample.env Sample.seeded "evt_2" Sample.redelivered ∧
    ∀ o, (genPay Sample.env).serveAll Sample.seeded (dedup Sample.env Sample.seeded []
        (List.replicate 3 ((Sample.Case.delivers .created).job, o))) =
      (genPay Sample.env).serveAll Sample.seeded (List.replicate 3 ((Sample.Case.delivers .created).job, o)) := by
  have h := deliveries_idempotent Sample.seeded_env
  refine ⟨?_, h.1 _ (Sample.reachable_after _) _, fun o => h.2 _⟩
  rw [Sample.redelivered, Sample.after_eq]
  decide +kernel

end GenPay
