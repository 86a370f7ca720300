import GenPay.Bookkeeping
import GenPay.Decisions

/-!
# The life of a purchase

A machine for one authorization (`Stage`): it is opened and decided, or sold at once, settled when it is authorized,
and refunded when it is settled.  Interleaved requests simulate it, as long as those that decide or refund commit
while what they have read is so (`lifecycle`): the commits that concern an authorization are, in their order, a prefix
of one of three histories (`prefix_of_walk`).
-/

namespace GenPay

open ReadCommitted

/-! ### The machine -/

inductive Stage
  | absent | pending | declined | authorized | settled | refunded
  deriving DecidableEq

/-- What a commit does to an authorization; a purchase is authorized and settled at once. -/
inductive Stage.Move
  | opened | approved | declined | settled | sold | refunded
  deriving DecidableEq

def Stage.next : Stage → Stage.Move → Option Stage
  | .absent, .opened => some .pending
  | .absent, .sold => some .settled
  | .pending, .approved => some .authorized
  | .pending, .declined => some .declined
  | .authorized, .settled => some .settled
  | .settled, .refunded => some .refunded
  | _, _ => none

/-- The three lives of an authorization. -/
def Stage.histories : List (List Stage.Move) :=
  [[.opened, .approved, .settled, .refunded], [.opened, .declined], [.sold, .refunded]]

theorem Stage.walk_cons {st st' : Stage} {m : Stage.Move} {ms : List Stage.Move} :
    (m :: ms).foldlM Stage.next st = some st' ↔ ∃ st₁, st.next m = some st₁ ∧ ms.foldlM Stage.next st₁ = some st' := by
  rw [List.foldlM_cons]
  exact Option.bind_eq_some_iff

theorem Stage.stuck {st st' : Stage} (hst : st = .refunded ∨ st = .declined) {ms : List Stage.Move}
    (h : ms.foldlM Stage.next st = some st') : ms = [] := by
  cases ms with
  | nil => rfl
  | cons m ms =>
    obtain ⟨st₁, hnext, -⟩ := Stage.walk_cons.1 h
    rcases hst with rfl | rfl <;> cases m <;> cases hnext

theorem Stage.walk_settled {st' : Stage} {ms : List Stage.Move} (h : ms.foldlM Stage.next .settled = some st') :
    ms <+: [.refunded] := by
  cases ms with
  | nil => exact List.nil_prefix
  | cons m ms =>
    obtain ⟨st₁, hnext, h⟩ := Stage.walk_cons.1 h
    cases m <;> cases hnext
    rw [Stage.stuck (Or.inl rfl) h]

/-- The moves of an authorization are a prefix of one of the histories. -/
theorem Stage.prefix_of_walk {st : Stage} {ms : List Stage.Move} (h : ms.foldlM Stage.next .absent = some st) :
    ∃ history ∈ Stage.histories, ms <+: history := by
  cases ms with
  | nil => exact ⟨_, List.mem_cons_self, List.nil_prefix⟩
  | cons m ms =>
    obtain ⟨st₁, hnext, h⟩ := Stage.walk_cons.1 h
    cases m <;> cases hnext
    · cases ms with
      | nil => exact ⟨_, List.mem_cons_self, by simp⟩
      | cons m ms =>
        obtain ⟨st₂, hnext, h⟩ := Stage.walk_cons.1 h
        cases m <;> cases hnext
        · cases ms with
          | nil => exact ⟨_, List.mem_cons_self, by simp⟩
          | cons m ms =>
            obtain ⟨st₃, hnext, h⟩ := Stage.walk_cons.1 h
            cases m <;> cases hnext
            exact ⟨_, List.mem_cons_self, by simpa using Stage.walk_settled h⟩
        · rw [Stage.stuck (Or.inr rfl) h]
          exact ⟨_, List.mem_cons_of_mem _ List.mem_cons_self, List.prefix_rfl⟩
    · exact ⟨_, List.mem_cons_of_mem _ (List.mem_cons_of_mem _ List.mem_cons_self), by
        simpa using Stage.walk_settled h⟩

/-! ### Databases and commits -/

/-- The stage of an authorization in the database. -/
def Db.AtStage (d : Db) (id : String) : Stage → Prop
  | .absent => id ∉ d.column .authorizationsId
  | .pending => (∃ a ∈ d.authorizations, a.id = id ∧ a.status = .pending) ∧ id ∉ d.column .settlementsAuthorization
  | .declined => (∃ a ∈ d.authorizations, a.id = id ∧ a.status = .declined) ∧ id ∉ d.column .settlementsAuthorization
  | .authorized =>
    (∃ a ∈ d.authorizations, a.id = id ∧ a.status = .authorized) ∧ id ∉ d.column .settlementsAuthorization
  | .settled => (∃ a ∈ d.authorizations, a.id = id ∧ a.status = .authorized) ∧
      ∃ x ∈ d.settlements, x.authorizationId = id ∧ x.status = .settled
  | .refunded => (∃ a ∈ d.authorizations, a.id = id ∧ a.status = .authorized) ∧
      ∃ x ∈ d.settlements, x.authorizationId = id ∧ x.status = .reversed

/-- What an action does to the authorization with this id. -/
def Action.move (id : String) : Action → Option Stage.Move
  | .purchase _ p => if p.authorization.id = id then some .sold else none
  | .created _ a => if a.id = id then some .opened else none
  | .decided _ a status _ =>
    if a.id = id then some (if status = .authorized then .approved else .declined) else none
  | .batch _ ps => if ∃ p ∈ ps, p.authorization.id = id then some .settled else none
  | .refund s _ _ => if s.authorizationId = id then some .refunded else none
  | _ => none

/-- What an action has read of the rows it changes is still so. -/
structure Action.Current (act : Action) (d : Db) : Prop where
  decided : ∀ e b status reason, act = .decided e b status reason → d.Pending b.externalReference
  settled : ∀ e ps, act = .batch e ps → ∀ p ∈ ps, p.authorization ∈ d.authorizations
  refunded : ∀ s xs ys, act = .refund s xs ys → s ∈ d.settlements

namespace Action.Commits

variable {env : Env} {ds : List Db} {d : Db} {act : Action} {id : String}

theorem authorization_kept {a : Authorization} (ha : a ∈ d.authorizations)
    (hno : ∀ e b status reason, act = .decided e b status reason → b.id ≠ a.id) :
    a ∈ (after env d act).authorizations := by
  have hfix : (authorizationTable env.foreignKeys).updateAll act.writes a = a := by
    refine (authorizationTable env.foreignKeys).updateAll_of_fixed fun w hw => ?_
    rcases w.onAuthorization_cases a with he | ⟨status, reason, rfl⟩
    · exact he
    · obtain ⟨e, b, hact, hid⟩ := mem_setAuthorizationStatus.1 hw
      exact absurd hid (hno e b _ _ hact)
  rw [authorizations_after, List.mem_append, List.mem_map]
  exact Or.inl ⟨a, ha, hfix⟩

theorem settlement_kept (h : act.Commits env ds d) {x : Settlement} (hx : x ∈ d.settlements)
    (hno : ∀ s xs ys, act = .refund s xs ys → s.authorizationId ≠ x.authorizationId) :
    x ∈ (after env d act).settlements := by
  rw [settlements_after, List.mem_append, List.mem_map]
  rcases h.settlement_cases hx with ⟨he, -⟩ | ⟨-, -, s, xs, ys, rfl, hid⟩
  · exact Or.inl ⟨x, hx, he⟩
  · obtain ⟨y, hy, hyid, hya⟩ := h.refunded
    have hyx : y = x := List.inj_on_of_nodup_map (h.sound.unique .settlementsId) hy hx (hyid.trans hid)
    exact absurd (hyx ▸ hya).symm (hno s xs ys rfl)

theorem authorizationsId_after : id ∈ (after env d act).column .authorizationsId ↔
    id ∈ d.column .authorizationsId ∨ ∃ a ∈ act.authorizations, a.id = id := by
  have hold : (d.authorizations.map ((authorizationTable env.foreignKeys).updateAll act.writes)).map Authorization.id =
      d.authorizations.map Authorization.id := by
    rw [List.map_map]
    exact List.map_congr_left fun a _ => of_core Authorization.id (authorization_core a)
  simp only [Db.column, authorizations_after, List.map_append, hold, List.mem_append, List.mem_map]

theorem settlementsAuthorization_after : id ∈ (after env d act).column .settlementsAuthorization ↔
    id ∈ d.column .settlementsAuthorization ∨ ∃ p ∈ act.purchases, p.settlement.authorizationId = id := by
  have hold : (d.settlements.map ((settlementTable env.foreignKeys).updateAll act.writes)).map Settlement.authorizationId =
      d.settlements.map Settlement.authorizationId := by
    rw [List.map_map]
    exact List.map_congr_left fun x _ => of_core Settlement.authorizationId (settlement_core x)
  simp only [Db.column, settlements_after, List.map_append, hold, List.mem_append, settlements_eq, List.map_map,
    List.mem_map, Function.comp]

/-- An action that does not move the authorization leaves its stage. -/
theorem atStage_kept (h : act.Commits env ds d) (hmove : act.move id = none) {st : Stage} (hat : d.AtStage id st) :
    (after env d act).AtStage id st := by
  have hauth : ∀ a ∈ d.authorizations, a.id = id → a ∈ (after env d act).authorizations := by
    rintro a ha rfl
    refine authorization_kept ha fun e b status reason hact hid => ?_
    subst hact
    simp [Action.move, hid] at hmove
  have hsettlement : ∀ x ∈ d.settlements, x.authorizationId = id → x ∈ (after env d act).settlements := by
    rintro x hx rfl
    refine h.settlement_kept hx fun s xs ys hact hid => ?_
    subst hact
    simp [Action.move, hid] at hmove
  have hnew : id ∉ d.column .settlementsAuthorization → id ∉ (after env d act).column .settlementsAuthorization := by
    intro hno hmem
    rcases settlementsAuthorization_after.1 hmem with hold | ⟨p, hp, hpid⟩
    · exact hno hold
    · rw [(h.grounded.purchase hp).settlement.1] at hpid
      cases act with
      | purchase key q =>
        cases List.mem_singleton.1 hp
        simp [Action.move, hpid] at hmove
      | batch e ps =>
        have hex : ∃ p ∈ ps, p.authorization.id = id := ⟨p, hp, hpid⟩
        simp only [Action.move, if_pos hex] at hmove
        cases hmove
      | _ => cases hp
  cases st with
  | absent =>
    intro hmem
    rcases authorizationsId_after.1 hmem with hold | ⟨a, ha, haid⟩
    · exact hat hold
    · cases act with
      | purchase key q =>
        cases List.mem_singleton.1 ha
        simp [Action.move, haid] at hmove
      | created e b =>
        cases List.mem_singleton.1 ha
        simp [Action.move, haid] at hmove
      | _ => cases ha
  | settled =>
    obtain ⟨⟨a, ha, hid, hst⟩, x, hx, hxid, hxst⟩ := hat
    exact ⟨⟨a, hauth a ha hid, hid, hst⟩, x, hsettlement x hx hxid, hxid, hxst⟩
  | refunded =>
    obtain ⟨⟨a, ha, hid, hst⟩, x, hx, hxid, hxst⟩ := hat
    exact ⟨⟨a, hauth a ha hid, hid, hst⟩, x, hsettlement x hx hxid, hxid, hxst⟩
  | _ =>
    obtain ⟨⟨a, ha, hid, hst⟩, hno⟩ := hat
    exact ⟨⟨a, hauth a ha hid, hid, hst⟩, hnew hno⟩

end Action.Commits

section Stages

variable {d : Db} {id : String} {st : Stage}

/-- An authorization that is pending is in the stage of that name. -/
theorem Db.AtStage.pending (hat : d.AtStage id st) (hd : d.Sound) {a : Authorization} (ha : a ∈ d.authorizations)
    (hid : a.id = id) (hst : a.status = .pending) : st = .pending := by
  have hstatus : ∀ status, (∃ b ∈ d.authorizations, b.id = id ∧ b.status = status) → status = .pending := by
    rintro status ⟨b, hb, hbid, rfl⟩
    have hba : b = a := List.inj_on_of_nodup_map (hd.unique .authorizationsId) hb ha (hbid.trans hid.symm)
    rw [hba, hst]
  cases st with
  | absent => exact absurd (hid ▸ List.mem_map_of_mem (f := Authorization.id) ha) hat
  | pending => rfl
  | declined => cases hstatus _ hat.1
  | authorized => cases hstatus _ hat.1
  | settled => cases hstatus _ hat.1
  | refunded => cases hstatus _ hat.1

/-- An authorization without a settlement that is authorized is in the stage of that name. -/
theorem Db.AtStage.authorized (hat : d.AtStage id st) (hd : d.Sound) {a : Authorization} (ha : a ∈ d.authorizations)
    (hid : a.id = id) (hst : a.status = .authorized) (hno : id ∉ d.column .settlementsAuthorization) :
    st = .authorized := by
  have hstatus : ∀ status, (∃ b ∈ d.authorizations, b.id = id ∧ b.status = status) → status = .authorized := by
    rintro status ⟨b, hb, hbid, rfl⟩
    have hba : b = a := List.inj_on_of_nodup_map (hd.unique .authorizationsId) hb ha (hbid.trans hid.symm)
    rw [hba, hst]
  have hnone : ∀ status, ¬ ∃ x ∈ d.settlements, x.authorizationId = id ∧ x.status = status := by
    rintro status ⟨x, hx, hxid, -⟩
    exact hno (hxid ▸ List.mem_map_of_mem (f := Settlement.authorizationId) hx)
  cases st with
  | absent => exact absurd (hid ▸ List.mem_map_of_mem (f := Authorization.id) ha) hat
  | pending => cases hstatus _ hat.1
  | declined => cases hstatus _ hat.1
  | authorized => rfl
  | settled => exact absurd hat.2 (hnone _)
  | refunded => exact absurd hat.2 (hnone _)

/-- An authorization whose settlement is settled is in the stage of that name. -/
theorem Db.AtStage.settled (hat : d.AtStage id st) (hd : d.Sound) {x : Settlement} (hx : x ∈ d.settlements)
    (hid : x.authorizationId = id) (hst : x.status = .settled) : st = .settled := by
  have hmem : id ∈ d.column .settlementsAuthorization := hid ▸ List.mem_map_of_mem (f := Settlement.authorizationId) hx
  cases st with
  | absent => exact absurd (hid ▸ hd.authorization x hx) hat
  | settled => rfl
  | refunded =>
    obtain ⟨-, y, hy, hyid, hyst⟩ := hat
    have hyx : y = x := List.inj_on_of_nodup_map (hd.unique .settlementsAuthorization) hy hx (hyid.trans hid.symm)
    rw [hyx, hst] at hyst
    cases hyst
  | pending => exact absurd hmem hat.2
  | declined => exact absurd hmem hat.2
  | authorized => exact absurd hmem hat.2

/-- An authorization that is not there is in the first stage. -/
theorem Db.AtStage.absent (hat : d.AtStage id st) (hno : id ∉ d.column .authorizationsId) : st = .absent := by
  have hnone : ∀ status, ¬ ∃ a ∈ d.authorizations, a.id = id ∧ a.status = status := by
    rintro status ⟨a, ha, haid, -⟩
    exact hno (haid ▸ List.mem_map_of_mem (f := Authorization.id) ha)
  cases st with
  | absent => rfl
  | pending => exact absurd hat.1 (hnone _)
  | declined => exact absurd hat.1 (hnone _)
  | authorized => exact absurd hat.1 (hnone _)
  | settled => exact absurd hat.1 (hnone _)
  | refunded => exact absurd hat.1 (hnone _)

end Stages

/-- A commit that has read the rows it changes as they are moves the authorization as the machine does. -/
theorem Action.Commits.atStage {env : Env} {ds : List Db} {d : Db} {act : Action} {id : String} {st : Stage}
    (h : act.Commits env ds d) (hcurrent : act.Current d) (hat : d.AtStage id st) :
    ∃ st', (act.move id).toList.foldlM Stage.next st = some st' ∧ (after env d act).AtStage id st' := by
  by_cases hmove : act.move id = none
  · exact ⟨st, by rw [hmove]; rfl, h.atStage_kept hmove hat⟩
  cases act with
  | purchase key p =>
    have hid : p.authorization.id = id := by
      by_contra hid
      exact hmove (if_neg hid)
    have hgr : p.Grounded env ds := h.grounded
    have hno : id ∉ d.column .authorizationsId := hid ▸ h.fresh (mem_authorizations (List.mem_singleton.2 rfl))
      (by simp [Write.keys])
    rw [hat.absent hno]
    refine ⟨.settled, by simp [move, hid, Stage.next], ⟨p.authorization, ?_, hid, hgr.authorized⟩, p.settlement, ?_,
      hgr.settlement.1.trans hid, hgr.settlement.2.2⟩
    · rw [authorizations_after]
      exact List.mem_append_right _ (List.mem_singleton.2 rfl)
    · rw [settlements_after]
      exact List.mem_append_right _ (List.mem_singleton.2 rfl)
  | created e a =>
    have hid : a.id = id := by
      by_contra hid
      exact hmove (if_neg hid)
    have hno : id ∉ d.column .authorizationsId := hid ▸ h.fresh (mem_authorizations (List.mem_singleton.2 rfl))
      (by simp [Write.keys])
    rw [hat.absent hno]
    refine ⟨.pending, by simp [move, hid, Stage.next], ⟨a, ?_, hid, h.grounded⟩, fun hmem => ?_⟩
    · rw [authorizations_after]
      exact List.mem_append_right _ (List.mem_singleton.2 rfl)
    · rcases settlementsAuthorization_after.1 hmem with hold | ⟨p, hp, -⟩
      · obtain ⟨x, hx, hxid⟩ := List.mem_map.1 hold
        exact hno (hxid ▸ h.sound.authorization x hx)
      · cases hp
  | decided e b status reason =>
    have hid : b.id = id := by
      by_contra hid
      exact hmove (if_neg hid)
    obtain ⟨c, hc, href, hpending⟩ := hcurrent.decided e b status reason rfl
    obtain ⟨⟨d', hd', hb⟩, -, hstatus⟩ := h.grounded
    obtain ⟨c', hc', hcore⟩ := (h.seen d' hd').2.authorizations.mem hb
    have hcc : c' = c := List.inj_on_of_nodup_map (h.sound.unique .authorizationsExternalReference) hc' hc
      ((of_core Authorization.externalReference hcore).trans href.symm)
    have hcid : c.id = b.id := hcc ▸ of_core Authorization.id hcore
    have hst : st = .pending := hat.pending h.sound hc (hcid.trans hid) hpending
    subst hst
    have hdecided : ∃ a ∈ (after env d (.decided e b status reason)).authorizations, a.id = id ∧ a.status = status := by
      refine ⟨(authorizationTable env.foreignKeys).updateAll (writes (.decided e b status reason)) c, ?_,
        (of_core Authorization.id (authorization_core c)).trans (hcid.trans hid), ?_⟩
      · rw [authorizations_after]
        exact List.mem_append_left _ (List.mem_map_of_mem hc)
      · show (Write.onAuthorization (.setAuthorizationStatus b.id status reason) c).status = status
        simp only [Write.onAuthorization, if_pos hcid]
    have hno : id ∉ (after env d (.decided e b status reason)).column .settlementsAuthorization := by
      intro hmem
      rcases settlementsAuthorization_after.1 hmem with hold | ⟨p, hp, -⟩
      · exact hat.2 hold
      · cases hp
    rcases hstatus with rfl | rfl
    · exact ⟨.authorized, by simp [move, hid, Stage.next], hdecided, hno⟩
    · exact ⟨.declined, by simp [move, hid, Stage.next], hdecided, hno⟩
  | batch e ps =>
    obtain ⟨p, hp, hid⟩ : ∃ p ∈ ps, p.authorization.id = id := by
      by_contra hnone
      exact hmove (if_neg hnone)
    have hgr : p.Grounded env ds := (h.grounded p hp).1
    have ha := hcurrent.settled e ps rfl p hp
    have hno : id ∉ d.column .settlementsAuthorization := by
      rw [← hid, ← hgr.settlement.1]
      exact h.fresh (mem_insertSettlement.2 ⟨p, hp, rfl⟩) (by simp [Write.keys])
    have hst : st = .authorized := hat.authorized h.sound ha hid hgr.authorized hno
    subst hst
    refine ⟨.settled, ?_, ⟨p.authorization, authorization_kept ha (fun _ _ _ _ he => by cases he), hid, hgr.authorized⟩,
      p.settlement, ?_, hgr.settlement.1.trans hid, hgr.settlement.2.2⟩
    · rw [move, if_pos ⟨p, hp, hid⟩]
      rfl
    · rw [settlements_after]
      exact List.mem_append_right _ (List.mem_map_of_mem (f := Purchase.settlement) hp)
  | refund s xs ys =>
    have hid : s.authorizationId = id := by
      by_contra hid
      exact hmove (if_neg hid)
    have hs := hcurrent.refunded s xs ys rfl
    have hst : st = .settled := hat.settled h.sound hs hid h.grounded.2.1
    subst hst
    obtain ⟨⟨a, ha, haid, hauthorized⟩, -⟩ := hat
    obtain ⟨x, hx, hxid, hreversed⟩ := h.reversed
    refine ⟨.refunded, by simp [move, hid, Stage.next], ⟨a, authorization_kept ha (fun _ _ _ _ he => by cases he), haid,
      hauthorized⟩, x, hx, hxid.trans hid, hreversed⟩
  | _ => exact absurd rfl hmove

/-! ### Runs -/

/-- What a job does to an authorization that it concerns. -/
def Job.move (env : Env) : Job → Option Stage.Move
  | .request r =>
    match r.route with
    | .purchase .. | .cardAuthorization => some .sold
    | .refundPurchase .. => some .refunded
    | .processorEvents =>
      match env.parseEnvelope r.rawBody with
      | .ok envelope =>
        match envelope.eventType with
        | .authorizationCreated => some .opened
        | .authorizationApproved => some .approved
        | .authorizationDeclined => some .declined
        | .settlementCompleted => some .settled
      | .error _ => none
    | _ => none
  | _ => none

/-- The statement inserts or decides this authorization, or inserts its settlement. -/
def Write.concerns (id : String) : Write → Bool
  | .insertAuthorization a => a.id == id
  | .setAuthorizationStatus a _ _ => a == id
  | .insertSettlement x => x.authorizationId == id
  | _ => false

/-- What a session that commits does to the authorization: what its job asks for, if the authorization is concerned. -/
def committedMove (env : Env) (id : String) (t : AppSession) : Option Stage.Move :=
  if (∃ w ∈ t.txn.writes, w.concerns id = true) ∨ t.job.refunds id then t.job.move env else none

/-- Decisions and refunds commit while what they have read of their authorization is so. -/
def MovesCurrent (env : Env) (t : AppSession) (d : Db) : Prop :=
  (∀ reference, DecidesPending env reference t d) ∧ RefundsOfSettled t d

section Runs

variable {env : Env} {d₀ : Db} {s : AppSystem} {id : String}

theorem Purchase.concerns_iff {p : Purchase} : (∃ w ∈ p.writes, w.concerns id = true) ↔ p.settlement.authorizationId = id := by
  have hpostings : ∀ w ∈ postings p.transactions, w.concerns id = false := by
    intro w hw
    obtain ⟨x, -, hx⟩ := List.mem_flatMap.1 hw
    rcases List.mem_pair.1 hx with rfl | rfl <;> rfl
  constructor
  · rintro ⟨w, hw, hc⟩
    rcases List.mem_cons.1 hw with rfl | hw
    · exact beq_iff_eq.1 hc
    · rw [hpostings w hw] at hc
      cases hc
  · exact fun h => ⟨_, List.mem_cons_self, beq_iff_eq.2 h⟩

/-- The statements of an action concern the authorizations that it moves, those of a refund none. -/
theorem Action.Grounded.concerns_iff {ds : List Db} {act : Action} (h : act.Grounded env ds) :
    (∃ w ∈ act.writes, w.concerns id = true) ↔ (act.move id).isSome = true ∧ ∀ s xs ys, act ≠ .refund s xs ys := by
  have hpurchase : ∀ p : Purchase, p.Grounded env ds → ((∃ w ∈ p.writes, w.concerns id = true) ↔ p.authorization.id = id) :=
    fun p hp => by rw [Purchase.concerns_iff, hp.settlement.1]
  cases act with
  | purchase key p =>
    have hmove : (move id (.purchase key p)).isSome = true ↔ p.authorization.id = id := by simp [move]
    have hmem : .insertAuthorization p.authorization ∈ (Action.purchase key p).writes := by
      cases key <;> simp [writes]
    rw [hmove]
    constructor
    · rintro ⟨w, hw, hc⟩
      refine ⟨?_, fun _ _ _ he => by cases he⟩
      have hcases : w = .insertAuthorization p.authorization ∨ w ∈ p.writes := by
        cases key with
        | none => simpa [writes] using hw
        | some k =>
          simp only [writes, List.cons_append, List.mem_cons, List.mem_append, List.not_mem_nil, or_false] at hw
          rcases hw with rfl | rfl | hw | rfl
          · cases hc
          · exact Or.inl rfl
          · exact Or.inr hw
          · cases hc
      rcases hcases with rfl | hw
      · exact beq_iff_eq.1 hc
      · exact (hpurchase p h).1 ⟨w, hw, hc⟩
    · rintro ⟨hid, -⟩
      exact ⟨_, hmem, beq_iff_eq.2 hid⟩
  | created e a => simp [writes, move, Write.concerns]
  | decided e b status reason => simp [writes, move, Write.concerns]
  | batch e ps =>
    have hmove : (move id (.batch e ps)).isSome = true ↔ ∃ p ∈ ps, p.authorization.id = id := by simp [move]
    rw [hmove]
    constructor
    · rintro ⟨w, hw, hc⟩
      rcases List.mem_cons.1 hw with rfl | hw
      · cases hc
      · obtain ⟨p, hp, hw⟩ := List.mem_flatMap.1 hw
        exact ⟨⟨p, hp, (hpurchase p (h p hp).1).1 ⟨w, hw, hc⟩⟩, fun _ _ _ he => by cases he⟩
    · rintro ⟨⟨p, hp, hid⟩, -⟩
      obtain ⟨w, hw, hc⟩ := (hpurchase p (h p hp).1).2 hid
      exact ⟨w, List.mem_cons_of_mem _ (List.mem_flatMap.2 ⟨p, hp, hw⟩), hc⟩
  | refund s xs ys =>
    refine ⟨?_, fun h => absurd rfl (h.2 s xs ys)⟩
    rintro ⟨w, hw, hc⟩
    rcases List.mem_append.1 hw with hw | hw
    · rcases List.mem_append.1 hw with hw | hw
      · obtain ⟨x, -, hx⟩ := List.mem_flatMap.1 hw
        rcases List.mem_pair.1 hx with rfl | rfl <;> cases hc
      · obtain ⟨x, -, -, rfl⟩ := mem_marks.1 hw
        cases hc
    · cases List.mem_singleton.1 hw
      cases hc
  | _ => simp [writes, move, Write.concerns]

/-- What a job asks for is what its action does. -/
theorem Answers.move {a : Response} {act : Action} {ds : List Db} {job : Job} (h : Answers env a act ds job)
    {m : Stage.Move} (hm : act.move id = some m) : job.move env = some m := by
  have hpurchase : ∀ {key p}, (Action.purchase key p).move id = some m → m = .sold := by
    intro key p hm
    simp only [Action.move, Option.ite_none_right_eq_some, Option.some.injEq] at hm
    exact hm.2.symm
  cases h.acts with
  | quiet => cases hm
  | seeded => cases hm
  | entity _ hact =>
    cases act with
    | user => cases hm
    | archive => cases hm
    | record => cases hm
    | _ => cases hact
  | purchase hr => rw [hpurchase hm, Job.move, hr]
  | card hr => rw [hpurchase hm, Job.move, hr]
  | refund hr =>
    simp only [Action.move, Option.ite_none_right_eq_some, Option.some.injEq] at hm
    rw [← hm.2, Job.move, hr]
  | @event r act envelope result hr _ hparse _ hact =>
    simp only [Job.move, hr, hparse]
    revert hact
    unfold AnswersEvent
    cases envelope.eventType with
    | settlementCompleted =>
      rintro ⟨data, ps, -, -, rfl⟩
      simp only [Action.move, Option.ite_none_right_eq_some] at hm
      exact hm.2
    | _ =>
      rintro ⟨data, b, -, -, rfl⟩
      simp only [Action.move, Option.ite_none_right_eq_some] at hm
      exact hm.2

/-- A refund commits as one. -/
theorem Answers.refund_of_refunds {a : Response} {act : Action} {ds : List Db} {job : Job} (h : Answers env a act ds job)
    (hjob : job.refunds id) : ∃ s xs ys, act = .refund s xs ys ∧ s.authorizationId = id := by
  cases job with
  | request r =>
    cases hr : r.route with
    | refundPurchase aid data =>
      simp only [Answers, AnswersRequest, hr] at h
      simp only [Job.refunds, hr] at hjob
      obtain ⟨-, s, xs, ys, hid, rfl⟩ := h
      exact ⟨s, xs, ys, rfl, hid.trans hjob⟩
    | _ =>
      simp only [Job.refunds, hr] at hjob
  | _ => exact hjob.elim

/-- The move of a session is that of its action. -/
theorem committedMove_eq {t : AppSession} {a : Response} {act : Action} (hw : t.txn.writes = act.writes)
    (hgr : act.Grounded env t.txn.seen) (hans : Answers env a act t.txn.seen t.job) :
    committedMove env id t = act.move id := by
  have hiff : (∃ w ∈ act.writes, w.concerns id = true) ↔ _ := hgr.concerns_iff
  rw [← hw] at hiff
  by_cases hc : (∃ w ∈ t.txn.writes, w.concerns id = true) ∨ t.job.refunds id
  · have hsome : (act.move id).isSome = true := by
      rcases hc with hc | hc
      · exact (hiff.1 hc).1
      · obtain ⟨s, xs, ys, rfl, hid⟩ := hans.refund_of_refunds hc
        simp [Action.move, hid]
    obtain ⟨m, hm⟩ := Option.isSome_iff_exists.1 hsome
    rw [committedMove, if_pos hc, hm, hans.move hm]
  · rw [committedMove, if_neg hc]
    have hnone : ¬ (act.move id).isSome = true := by
      intro hsome
      refine hc (Or.inl (hiff.2 ⟨hsome, fun s xs ys hact => hc (Or.inr ?_)⟩))
      subst hact
      have hid : s.authorizationId = id := by
        by_contra hid
        simp [Action.move, hid] at hsome
      exact hid ▸ hans.refunds
    exact (Option.not_isSome_iff_eq_none.1 hnone).symm

/-- Decisions on pending authorizations keep what has been decided. -/
def lifecycleRule (env : Env) : Discipline (genPay env) (uniqueKeys env.foreignKeys) (MovesCurrent env) where
  inv d := d.Sound ∧ ∀ reference, d.SettledAuthorized reference
  evolves d d' := d.Extends d' ∧ ∀ reference, Db.KeepsDecided reference d d'
  post := Committed env
  refl d := ⟨Db.Extends.refl d, fun _ _ ha _ _ => ha⟩
  trans h h' := ⟨h.1.trans h'.1, fun r a ha href hst => h'.2 r a (h.2 r a ha href hst) href hst⟩
  program := fun r o => handle_spec env r o
  commit := by
    rintro t a d hpost hG ⟨hd, hset⟩ hseen hord hfree
    have hrule := fun reference => (decideOnce env reference).commit t a d hpost (hG.1 reference) ⟨hd, hset reference⟩
      (fun d' hd' => ⟨⟨(hseen d' hd').1.1, (hseen d' hd').1.2 reference⟩, (hseen d' hd').2.1, (hseen d' hd').2.2 reference⟩)
      (hord.imp fun h => ⟨h.1, h.2 reference⟩) hfree
    exact ⟨⟨(hrule "").1.1, fun reference => (hrule reference).1.2⟩, (hrule "").2.1,
      fun reference => (hrule reference).2.2⟩

/-- What a session that commits under the rule has read is still so. -/
theorem current_of_atCommit {t : AppSession} {a : Response} {d : Db} (hat : (lifecycleRule env).AtCommit t a d) :
    ∃ act, t.txn.writes = Action.writes act ∧ act.Commits env t.txn.seen d ∧ Answers env a act t.txn.seen t.job ∧
      act.Current d := by
  obtain ⟨act, hw, hc, hans⟩ := Committed.commits hat.post hat.inv.1
    (fun d' hd' => ⟨(hat.seen d' hd').1.1, (hat.seen d' hd').2.1⟩) (hat.ordered.imp fun h => h.1) hat.free
  refine ⟨act, hw, hc, hans, ?_, ?_, ?_⟩
  · rintro e b status reason rfl
    exact hat.guard.1 _ hans.decides (by rw [hw]; exact List.cons_ne_nil _ _)
  · rintro e ps rfl p hp
    obtain ⟨hgr, d', hd', hmem⟩ := hc.grounded p hp
    refine (hat.seen d' hd').2.2 _ p.authorization hmem rfl fun hpending => ?_
    rw [hgr.authorized] at hpending
    cases hpending
  · rintro x xs ys rfl
    exact hc.mem_of_refundable (hat.guard.2 _ hans.refunds)

/-- As long as decisions and refunds commit while what they have read is so, the commits that concern an
authorization are, in their order, a prefix of one of its three histories, and it is in the stage they lead to. -/
theorem lifecycle (h₀ : Seeded env d₀) (id : String) {ts : List AppSession}
    (h : Log (genPay env) (MovesCurrent env) (System.initial d₀) ts s) :
    (∃ history ∈ Stage.histories, ts.filterMap (committedMove env id) <+: history) ∧
      ∃ st, (ts.filterMap (committedMove env id)).foldlM Stage.next .absent = some st ∧ s.db.AtStage id st := by
  have hrule : (lifecycleRule env).inv d₀ := ⟨h₀.sound, fun _ => (decideOnce_initial h₀).2⟩
  have hwalk : ∃ st, (ts.filterMap (committedMove env id)).foldlM Stage.next .absent = some st ∧ s.db.AtStage id st := by
    refine Log.simulated (R := fun s st => s.db.AtStage id st) ?_ ?_ h
    · simp [Db.AtStage, Db.column, System.initial, h₀.no_ledger.1]
    · intro s s' l st hrun hstep hG hst
      cases hl : s.committing l with
      | none =>
        refine ⟨st, rfl, ?_⟩
        rcases (System.step_cases hstep).db with he | ⟨i, t, a, rfl, ht, hp, -⟩
        · rwa [he]
        · rw [System.committing_exec ht hp] at hl
          cases hl
      | some t =>
        obtain ⟨i, a, rfl, ht, hp⟩ := System.committing_some hl
        have hs' := (System.step_commit ht hp).symm.trans hstep
        have hat := (Discipline.inv_run hrule hrun).atCommit (Keys.inv_run hrun) (List.mem_of_getElem? ht) hp (hG t hl)
        obtain ⟨act, hw, hc, hans, hcurrent⟩ := current_of_atCommit hat
        obtain ⟨st', hmoves, hst'⟩ := hc.atStage hcurrent hst
        cases hs'
        refine ⟨st', ?_, ?_⟩
        · rw [Option.bind_some, committedMove_eq hw hc.grounded hans]
          exact hmoves
        · rw [hw]
          exact hst'
  obtain ⟨st, hmoves, hst⟩ := hwalk
  exact ⟨Stage.prefix_of_walk hmoves, st, hmoves, hst⟩

end Runs

namespace Sample

/-- The decisions are all on one authorization. -/
theorem decides_reference {c : Case} {reference : String} (h : c.job.decides env reference) : reference = "auth_1" := by
  cases c with
  | delivers e =>
    obtain ⟨-, envelope, hparse, hdec⟩ := h
    have he : e.envelope = envelope := Except.ok.inj ((parse_body e).symm.trans hparse)
    subst he
    cases e with
    | approved =>
      rcases hdec with ⟨-, data, hval, rfl⟩ | ⟨htype, -⟩
      · cases hval
        rfl
      · cases htype
    | declined =>
      rcases hdec with ⟨htype, -⟩ | ⟨-, data, hval, rfl⟩
      · cases htype
      · cases hval
        rfl
    | _ => rcases hdec with ⟨htype, -⟩ | ⟨htype, -⟩ <;> cases htype
  | reconciles => exact h.elim
  | _ => exact absurd h.1 Route.noConfusion

def movesCurrent (t : AppSession) (d : Db) : Bool := decidesPending t d && decide (RefundsOfSettled t d)

theorem movesCurrent_spec (c : Case) (t : AppSession) (d : Db) (hc : t.job = c.job) (h : movesCurrent t d = true) :
    MovesCurrent env t d := by
  obtain ⟨hdecides, hrefunds⟩ := Bool.and_eq_true_iff.1 h
  refine ⟨fun reference hdec => ?_, of_decide_eq_true hrefunds⟩
  have href : reference = "auth_1" := decides_reference (hc ▸ hdec)
  subst href
  exact decidesPending_spec c t d hc hdecides hdec

/-- A purchase that is refunded, and an authorization that is approved and settled, with statements in between. -/
def twoLives : AppSystem :=
  after movesCurrent [.start 0 (.buys "key"), .steps 0 9, .start 1 (.delivers .created), .steps 1 8, .steps 0 26,
    .start 2 (.delivers .approved), .steps 2 2, .start 3 .refunds, .steps 3 26, .steps 2 2,
    .start 4 (.delivers .settled), .steps 4 27]

end Sample

theorem lifecycle_twoLives : Sample.twoLives.db.settlements.map (·.status) = [.reversed, .settled] ∧
    ∃ ts, Log (genPay Sample.env) (MovesCurrent Sample.env) (System.initial Sample.seeded) ts Sample.twoLives ∧
      ∃ history ∈ Stage.histories, ts.filterMap (committedMove Sample.env (Sample.uuid 1 6)) <+: history := by
  refine ⟨?_, ?_⟩
  · rw [Sample.twoLives, Sample.after_eq]
    decide +kernel
  · obtain ⟨ts, hts⟩ := (Sample.run_after Sample.movesCurrent_spec _).log
    exact ⟨ts, hts, (lifecycle Sample.seeded_env (Sample.uuid 1 6) hts).1⟩

end GenPay
