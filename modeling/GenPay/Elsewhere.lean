import GenPay.Deliveries
import GenPay.Locality
import GenPay.Sufficiency

/-!
# Jobs about other authorizations

A job about other authorizations names neither a given reference nor given events.  Whatever such jobs do in between,
the authorization under the reference and the rows it is settled with stay as they are (`Undisturbed.run`).
-/

namespace GenPay

open ReadCommitted
open Action.Commits (after column_after)

variable {env : Env} {G : AppSession → Db → Prop} {d d' d'' : Db} {s : AppSystem} {job : Job} {a : Response}
  {act : Action} {ds : List Db} {reference : String} {events : List String} {dangling : Prop}

/-! ### What a job is about -/

/-- The jobs that insert users, archives, records or accounts. -/
def Job.insertsEntities : Job → Bool
  | .request r => match r.route with
    | .createUser _ | .createArchive _ | .createRecord _ => true
    | _ => false
  | .seed => true
  | .reconcileScript => false

/-- A job about other authorizations.  Only a record that names rows which do not exist could wait for the rows of
such a job. -/
structure Job.Elsewhere (env : Env) (dangling : Prop) (reference : String) (events : List String) (job : Job) :
    Prop where
  entities : dangling → job.insertsEntities = false
  reference : ¬ job.Names env (.authorizationsExternalReference, reference)
  events : ∀ x ∈ events, ¬ job.Names env (.eventsEventId, x)

/-- The references of the authorizations that an action creates pending, decides or settles for an event. -/
def Action.mentions : Action → List String
  | .created _ b => [b.externalReference]
  | .decided _ b _ _ => [b.externalReference]
  | .batch _ ps => ps.map (·.authorization.externalReference)
  | _ => []

theorem Answers.names (h : Answers env a act ds job) {x : String} (hx : x ∈ act.mentions) :
    job.Names env (.authorizationsExternalReference, x) := by
  cases h.acts with
  | entity _ hact => cases act <;> cases hact <;> cases hx
  | event hr _ hparse _ hact =>
    refine .reference hr hparse ?_
    unfold AnswersEvent at hact
    split at hact
    · rename_i htype
      obtain ⟨data, b, hdata, hb, rfl⟩ := hact
      rw [List.mem_singleton.1 hx, hb]
      exact .created htype hdata
    · rename_i htype
      obtain ⟨data, b, hdata, hb, rfl⟩ := hact
      rw [List.mem_singleton.1 hx, hb]
      exact .approved htype hdata
    · rename_i htype
      obtain ⟨data, b, hdata, hb, rfl⟩ := hact
      rw [List.mem_singleton.1 hx, hb]
      exact .declined htype hdata
    · rename_i htype
      obtain ⟨data, ps, hdata, hids, rfl⟩ := hact
      exact .settled htype hdata (hids ▸ hx)
  | _ => cases hx

theorem Action.writes_ledger (h : act.isEntity = false)
    (hs : ∀ a₁ a₂ a₃ a₄ a₅ a₆ a₇ a₈ a₉ a₁₀, act ≠ .seeded a₁ a₂ a₃ a₄ a₅ a₆ a₇ a₈ a₉ a₁₀) :
    ∀ w ∈ act.writes, w.isEntity = false := by
  intro w hw
  cases act with
  | purchase key p =>
    cases key with
    | none =>
      rcases List.mem_cons.1 hw with rfl | hw
      · rfl
      · exact (Purchase.writes_kind hw).1
    | some key =>
      simp only [writes, List.mem_append, List.mem_cons, List.not_mem_nil, or_false] at hw
      rcases hw with (rfl | rfl | hw) | rfl
      · rfl
      · rfl
      · exact (Purchase.writes_kind hw).1
      · rfl
  | batch e ps =>
    rcases List.mem_cons.1 hw with rfl | hw
    · rfl
    · obtain ⟨p, -, hw⟩ := List.mem_flatMap.1 hw
      exact (Purchase.writes_kind hw).1
  | refund x xs ys =>
    simp only [writes, List.mem_append, mem_postings, mem_marks, List.mem_singleton] at hw
    rcases hw with (⟨t, -, rfl | rfl⟩ | ⟨t, -, -, rfl⟩) | rfl <;> rfl
  | created e b =>
    rcases List.mem_pair.1 hw with rfl | rfl <;> rfl
  | decided e b status reason =>
    rcases List.mem_pair.1 hw with rfl | rfl <;> rfl
  | quiet => cases hw
  | seeded => exact absurd rfl (hs _ _ _ _ _ _ _ _ _ _)
  | _ => cases h

theorem Answers.insertsEntities (h : Answers env a act ds job) (hact : act.isEntity = true) :
    job.insertsEntities = true := by
  cases job with
  | seed => rfl
  | reconcileScript =>
    obtain ⟨rfl, -⟩ := h
    cases hact
  | request r =>
    change AnswersRequest env r a act ds at h
    unfold AnswersRequest at h
    split at h
    case h_4 =>
      obtain ⟨-, k, result, rfl, rfl, ⟨rfl, -⟩ | ⟨p, rfl, rfl⟩⟩ := h <;> cases hact
    case h_5 =>
      obtain ⟨-, x, xs, ys, rfl, rfl⟩ := h
      cases hact
    case h_6 =>
      obtain ⟨p, rfl, rfl⟩ := h
      cases hact
    case h_7 =>
      obtain ⟨-, envelope, -, ⟨rfl, -⟩ | ⟨-, hans⟩⟩ := h
      · cases hact
      · have := hans.event
        cases act <;> cases hact <;> cases this
    case h_8 =>
      obtain ⟨rfl, -⟩ := h
      cases hact
    case h_9 =>
      subst h
      cases hact
    all_goals
      rename_i hr
      simp [Job.insertsEntities, hr]

theorem Answers.writes_ledger (h : Answers env a act ds job) (hjob : job.insertsEntities = false) :
    ∀ w ∈ act.writes, w.isEntity = false := by
  refine Action.writes_ledger ?_ ?_
  · by_contra hact
    rw [h.insertsEntities (by simpa using hact)] at hjob
    cases hjob
  · rintro _ _ _ _ _ _ _ _ _ _ rfl
    cases h.acts with
    | seeded => cases hjob
    | entity _ hact => cases hact
    | event _ _ _ _ hact => cases hact.event

/-! ### One commit -/

section Commit

variable (h : act.Commits env ds d) (hans : Answers env a act ds job)

include hans in
/-- An event is claimed by a job that names it. -/
theorem event_free_after {x : String} (hnames : ¬ job.Names env (.eventsEventId, x))
    (hx : x ∉ d.column .eventsEventId) : x ∉ (after env d act).column .eventsEventId := by
  intro hmem
  obtain ⟨e, he, rfl⟩ := List.mem_map.1 hmem
  rcases (eventTable env.foreignKeys).mem_rows_view_of_untouched (fun _ _ _ => rfl) |>.1 he with he | ⟨w, hw, hi⟩
  · exact hx (List.mem_map_of_mem (f := ProcessedWebhookEvent.eventId) he)
  · cases w <;> cases hi
    obtain ⟨r, envelope, rfl, hr, hparse, hid⟩ :=
      Job.eventId?_eq_some (hans.delivers (Action.mem_insertEvent.1 hw))
    exact hnames (hid ▸ .event hr hparse)

include h in
/-- An authorization that a commit has read is still there. -/
theorem exists_core {d₁ : Db} (hd₁ : d₁ ∈ ds) {b : Authorization} (hb : b ∈ d₁.authorizations) :
    ∃ c ∈ d.authorizations, c.core = b.core := by
  obtain ⟨c, hc, hstep⟩ := (h.seen d₁ hd₁).2.authorizations.mem hb
  exact ⟨c, hc, hstep⟩

include h hans in
/-- An authorization is decided or settled by a job that names its reference. -/
theorem held_after {b : Authorization} (hnames : ¬ job.Names env (.authorizationsExternalReference, b.externalReference))
    (hb : b ∈ d.authorizations) (hunsettled : b.id ∉ d.column .settlementsAuthorization) :
    b ∈ (after env d act).authorizations ∧ b.id ∉ (after env d act).column .settlementsAuthorization := by
  -- the row that an action has read under the id of `b` is `b` as it was then
  have hread : ∀ {d₁ : Db} {c : Authorization}, d₁ ∈ ds → c ∈ d₁.authorizations → c.id = b.id →
      c.externalReference = b.externalReference := by
    intro d₁ c hd₁ hc hid
    obtain ⟨c', hc', hcore⟩ := exists_core h hd₁ hc
    have hsame : c' = b := List.inj_on_of_nodup_map (h.sound.unique .authorizationsId) hc' hb
      ((of_core Authorization.id hcore).trans hid)
    rw [← of_core Authorization.externalReference hcore, hsame]
  constructor
  · rw [Action.Commits.authorizations_after]
    refine List.mem_append_left _ (List.mem_map.2 ⟨b, hb, ?_⟩)
    refine (authorizationTable env.foreignKeys).updateAll_of_fixed fun w hw => ?_
    rcases w.onAuthorization_cases b with he | ⟨status, reason, rfl⟩
    · exact he
    · obtain ⟨e, c, rfl, hid⟩ := Action.mem_setAuthorizationStatus.1 hw
      obtain ⟨⟨d₁, hd₁, hc⟩, -, -⟩ := h.grounded
      exact absurd (hans.names (x := c.externalReference) (List.mem_singleton.2 rfl)) (hread hd₁ hc hid ▸ hnames)
  · intro hmem
    obtain ⟨x, hx, hxb⟩ := List.mem_map.1 hmem
    rcases h.mem_settlements_after hx with ⟨y, hy, hstep⟩ | hnew
    · exact hunsettled (List.mem_map.2 ⟨y, hy, (of_core Settlement.authorizationId hstep.core_eq).symm.trans hxb⟩)
    · rw [Action.settlements_eq] at hnew
      obtain ⟨p, hp, rfl⟩ := List.mem_map.1 hnew
      have hid : p.authorization.id = b.id := (h.grounded.purchase hp).settlement.1.symm.trans hxb
      cases act with
      | purchase key q =>
        cases List.mem_singleton.1 hp
        -- the authorization of a purchase is new
        have hfresh : p.authorization.id ∉ d.column .authorizationsId :=
          h.fresh (w := .insertAuthorization p.authorization) (by cases key <;> simp [Action.writes])
            (by simp [Write.keys])
        exact hfresh (hid ▸ List.mem_map_of_mem (f := Authorization.id) hb)
      | batch e ps =>
        obtain ⟨-, d₁, hd₁, hc⟩ := h.grounded p hp
        have hmention := hans.names (x := p.authorization.externalReference)
          (List.mem_map_of_mem (f := fun q : Purchase => q.authorization.externalReference) hp)
        exact hnames (hread hd₁ hc hid ▸ hmention)
      | _ => cases hp

/-- Every authorization under the reference is settled. -/
def Db.Vacant (d : Db) (reference : String) : Prop :=
  ∀ b ∈ d.authorizations, b.externalReference = reference → b.id ∈ d.column .settlementsAuthorization

include h in
/-- A purchase settles the authorization it creates. -/
theorem vacant_after (hcreated : ∀ e b, act = .created e b → b.externalReference ≠ reference) (hd : d.Vacant reference) :
    (after env d act).Vacant reference := by
  intro b hb href
  rcases Action.Commits.mem_authorizations_after hb with ⟨b₀, hb₀, hcore⟩ | hnew
  · rw [of_core Authorization.id hcore]
    exact Action.Commits.column_mono (hd b₀ hb₀ ((of_core Authorization.externalReference hcore).symm.trans href))
  · cases act with
    | purchase key p =>
      cases List.mem_singleton.1 hnew
      have hp : p.Grounded env ds := h.grounded
      refine Action.Commits.inserted (w := .insertSettlement p.settlement) ?_ (by simp [Write.keys, hp.settlement.1])
      cases key <;> simp [Action.writes, Purchase.writes]
    | created e c =>
      cases List.mem_singleton.1 hnew
      exact absurd href (hcreated e _ rfl)
    | _ => cases hnew

end Commit

/-! ### Any number of commits -/

/-- From `d` to `d'` nothing has changed for the reference and the events. -/
structure Undisturbed (dangling : Prop) (reference : String) (events : List String) (d d' : Db) : Prop where
  sound : d'.Sound
  grown : d.Extends d'
  accounts : dangling → d'.accounts.map LedgerAccount.core = d.accounts.map LedgerAccount.core
  events : ∀ x ∈ events, x ∉ d.column .eventsEventId → x ∉ d'.column .eventsEventId
  held : ∀ b ∈ d.authorizations, b.externalReference = reference → b.id ∉ d.column .settlementsAuthorization →
    b ∈ d'.authorizations ∧ b.id ∉ d'.column .settlementsAuthorization
  vacant : d.Vacant reference → d'.Vacant reference

namespace Undisturbed

theorem refl (hd : d.Sound) : Undisturbed dangling reference events d d :=
  ⟨hd, Db.Extends.refl d, fun _ => rfl, fun _ _ h => h, fun _ hb _ h => ⟨hb, h⟩, fun h => h⟩

theorem trans (h : Undisturbed dangling reference events d d') (h' : Undisturbed dangling reference events d' d'') :
    Undisturbed dangling reference events d d'' where
  sound := h'.sound
  grown := h.grown.trans h'.grown
  accounts hdangling := (h'.accounts hdangling).trans (h.accounts hdangling)
  events x hx hfree := h'.events x hx (h.events x hx hfree)
  held b hb href hunsettled :=
    let ⟨hb', hunsettled'⟩ := h.held b hb href hunsettled
    h'.held b hb' href hunsettled'
  vacant := h'.vacant ∘ h.vacant

theorem commit (h : act.Commits env ds d) (hans : Answers env a act ds job)
    (hjob : job.Elsewhere env dangling reference events) :
    Undisturbed dangling reference events d (after env d act) where
  sound := h.sound_after
  grown := h.extends_after
  accounts hdangling := view_accounts_core (hans.writes_ledger (hjob.entities hdangling))
  events x hx := event_free_after hans (hjob.events x hx)
  held b hb href := held_after h hans (href ▸ hjob.reference) hb
  vacant := vacant_after h fun e b hact href => hjob.reference
    (href ▸ hans.names (x := b.externalReference) (by rw [hact]; exact List.mem_singleton.2 rfl))

/-- Whatever jobs about other authorizations do, in any interleaving. -/
theorem run (hd : d.Sound)
    (h : Run (genPay env) (fun t _ => t.job.Elsewhere env dangling reference events) (System.initial d) s) :
    Undisturbed dangling reference events d s.db := by
  refine commit_induction (refl hd) (fun t a act d' hc hjob hundisturbed => ?_) hd h
  exact hundisturbed.trans (commit hc.commits hc.answers hjob)

end Undisturbed

end GenPay
