import GenPay.Windows
import GenPay.Batches

/-!
# The buyer of a card event that names none

`handle_card_authorization` looks for researchers in the first page of `list_all`, which holds 50 users.  The event
is charged to the earliest researcher just when fewer than 50 users are older (`default_buyer_iff`); otherwise it is
refused as if there were no researcher (`crowded_refused`).
-/

namespace GenPay

open ReadCommitted Windows

variable {fk : Bool} {o : Nat → Choice} {d : Db} {t : Txn Db Write} {env : Env} {event : CardAuthorizationEvent}
  {r : ResearchRecord} {u : User}

/-- The earliest-created researcher. -/
structure Db.FirstResearcher (d : Db) (u : User) : Prop where
  mem : u ∈ d.users
  role : u.role = .researcher
  first : ∀ v ∈ d.users, v.role = .researcher → u.createdAt ≤ v.createdAt

/-- A card authorization for the record that names no user. -/
structure CardAuthorizationEvent.ForAnyone (event : CardAuthorizationEvent) (r : ResearchRecord) : Prop where
  type : event.eventType = "card_authorization"
  record : event.recordId = r.recordReference
  user : event.userId = none

/-- The lookup of the buyer sees all users. -/
structure SeesAllUsers (env : Env) (fk : Bool) (d : Db) (event : CardAuthorizationEvent) (r : ResearchRecord) : Prop where
  /-- The handler purchases the record for the earliest researcher. -/
  charged : ∀ u, d.FirstResearcher u → ∀ o amount, centsOf event.amount = .ok amount →
    ∃ client t', t'.writes = [] ∧ (handleCardAuthorization env event).run (engine fk) o d Txn.fresh =
      (purchaseRecord env r.id u.id (some amount) client).run (engine fk) o d t'
  /-- The lookup fails only if there is no researcher. -/
  refused : ∀ o e t', (settlingUser event).run (engine fk) o d (Txn.fresh.saw d) = (.error e, t') →
    ∀ u ∈ d.users, u.role ≠ .researcher

theorem exists_firstResearcher (h : ∃ u ∈ d.users, u.role = .researcher) : ∃ u, d.FirstResearcher u := by
  obtain ⟨w, hw, hrole⟩ := h
  obtain ⟨u, hu, hmin⟩ := Finset.exists_min_image (d.users.filter (·.role == .researcher)).toFinset User.createdAt
    ⟨w, by simp [hw, hrole]⟩
  simp only [List.mem_toFinset, List.mem_filter, beq_iff_eq] at hu hmin
  exact ⟨u, hu.1, hu.2, fun v hv hvrole => hmin v ⟨hv, hvrole⟩⟩

/-- The lookup finds the earliest researcher among the 50 oldest users, or no one. -/
theorem settlingUser_run (hevent : event.userId = none)
    (htimes : ((t.view (engine fk) d).users.map User.createdAt).Nodup) (hu : (t.view (engine fk) d).FirstResearcher u) :
    (settlingUser event).run (engine fk) o d t =
      if ((t.view (engine fk) d).users.filter fun v => decide (v.createdAt < u.createdAt)).length < 50 then
        (.ok u.id, t.saw d)
      else (.error (.valueError "No researcher account available to settle against"), t.saw d) := by
  have hsorted : Ordered User.createdAt (t.view (engine fk) d).users _ := ordered_insertionSort
    (((o t.seen.length).arrange_perm _).trans (List.Perm.of_eq (List.filter_eq_self.2 fun _ _ => rfl)))
  have hhead := hsorted.head_filter_take htimes (p := (·.role == .researcher)) hu.mem (by simpa using hu.role)
    (fun v hv hrole => hu.first v hv (by simpa using hrole)) 50
  unfold settlingUser
  rw [hevent]
  dsimp only
  have hpage : (UserRepository.listAll 50 0).run (engine fk) o d t =
      (.ok ((((o t.seen.length).arrange ((t.view (engine fk) d).users.filter fun _ => true)).insertionSort
        fun v w => v.createdAt ≤ w.createdAt).take 50), t.saw d) := rfl
  rw [Prog.run_bind, hpage]
  dsimp only
  rw [hhead]
  by_cases hearly : ((t.view (engine fk) d).users.filter fun v => decide (v.createdAt < u.createdAt)).length < 50
  · rw [if_pos hearly, if_pos hearly]
    rfl
  · rw [if_neg hearly, if_neg hearly]
    rfl

/-- With the record known, the handler goes on with the buyer that the lookup finds. -/
theorem handleCardAuthorization_run {amount : Int} (hunique : (d.column .recordsReference).Nodup) (hr : r ∈ d.records)
    (hevent : event.ForAnyone r) (hamount : centsOf event.amount = .ok amount)
    (hbuyer : (settlingUser event).run (engine fk) o d (Txn.fresh.saw d) = (.ok u.id, (Txn.fresh.saw d).saw d)) :
    ∃ client t', t'.writes = [] ∧ (handleCardAuthorization env event).run (engine fk) o d Txn.fresh =
      (purchaseRecord env r.id u.id (some amount) client).run (engine fk) o d t' := by
  obtain ⟨record, hrecord, hsome, hnone⟩ :=
    scalar_run fk o d Txn.fresh Db.records (·.recordReference == event.recordId)
  obtain ⟨client, hclient, -⟩ :=
    scalar_run fk o d ((Txn.fresh.saw d).saw d) Db.clients (·.name == processorWebhookClientName)
  cases record with
  | none => exact absurd (hnone rfl r hr) (by simp [hevent.record])
  | some q =>
  obtain ⟨hq, hreference⟩ := hsome q rfl
  obtain rfl : q = r := List.inj_on_of_nodup_map hunique hq hr ((beq_iff_eq.1 hreference).trans hevent.record)
  refine ⟨client.map (·.id), ((Txn.fresh.saw d).saw d).saw d, rfl, ?_⟩
  unfold handleCardAuthorization
  rw [if_neg (not_not.2 hevent.type), Prog.run_bind,
    show (ResearchRecordRepository.getByReference event.recordId).run (engine fk) o d Txn.fresh = _ from hrecord]
  dsimp only
  rw [Prog.run_bind, hbuyer]
  dsimp only
  rw [Prog.run_bind,
    show (ApiClientRepository.getByName processorWebhookClientName).run (engine fk) o d _ = _ from hclient, hamount]
  rfl

/-- Of a table with a researcher, the lookup sees all users just when the earliest researcher is among the 50 oldest. -/
theorem default_buyer_iff (hunique : (d.column .recordsReference).Nodup) (hr : r ∈ d.records) (hevent : event.ForAnyone r)
    (htimes : (d.users.map User.createdAt).Nodup) (hresearcher : ∃ u ∈ d.users, u.role = .researcher) :
    SeesAllUsers env fk d event r ↔
      ∃ u, d.FirstResearcher u ∧ (d.users.filter fun v => decide (v.createdAt < u.createdAt)).length < 50 := by
  constructor
  · intro h
    obtain ⟨u, hu⟩ := exists_firstResearcher hresearcher
    refine ⟨u, hu, ?_⟩
    by_contra hlate
    -- all other researchers are younger, so that none is on the page
    have hrun : (settlingUser event).run (engine fk) (fun _ => ⟨"", 0, fun _ => Equiv.refl _⟩) d (Txn.fresh.saw d) = _ :=
      settlingUser_run hevent.user htimes hu
    rw [Txn.view_saw, Txn.view_fresh, if_neg hlate] at hrun
    exact h.refused _ _ _ hrun u hu.mem hu.role
  · rintro ⟨u, hu, hearly⟩
    have hsame : ∀ v, d.FirstResearcher v → v = u := fun v hv => List.inj_on_of_nodup_map htimes hv.mem hu.mem
      (le_antisymm (hv.first u hu.mem hu.role) (hu.first v hv.mem hv.role))
    have hrun : ∀ o, (settlingUser event).run (engine fk) o d (Txn.fresh.saw d) = (.ok u.id, (Txn.fresh.saw d).saw d) := by
      intro o
      have hrun : (settlingUser event).run (engine fk) o d (Txn.fresh.saw d) = _ :=
        settlingUser_run hevent.user htimes hu
      rwa [Txn.view_saw, Txn.view_fresh, if_pos hearly] at hrun
    constructor
    · intro v hv o amount hamount
      obtain rfl := hsame v hv
      exact handleCardAuthorization_run hunique hr hevent hamount (hrun o)
    · intro o e t' herror
      rw [hrun] at herror
      cases herror

namespace Sample

/-- Fifty users from before the seed. -/
def elders : List User := (List.range 50).map fun n => ⟨uuid 3 n, "Elder", uuid 3 n ++ "@example.com", .transcriptionist, n⟩

/-- The researcher of the seed is the 52nd user. -/
def crowded : Db := ((genPay Sample.env).serve .seed (oracle 1) { Db.empty with users := elders }).2

def anyone : CardAuthorizationEvent := ⟨"card_authorization", ⟨599, -2⟩, "CENSUS-1880-004", none⟩

def census : ResearchRecord :=
  ⟨uuid 1 20, uuid 1 8, "CENSUS-1880-004", "1880 Census, District 4", 599, some (uuid 1 12), 1020⟩

/-- The researcher that session `a` has seeded. -/
def jane (a : Nat) : User := ⟨uuid a 16, "Jane Ancestry", "jane@example.com", .researcher, 1000 * a + 16⟩

end Sample

open Sample in
/-- There is a researcher, who is the 52nd user. -/
theorem crowded_refused : census ∈ crowded.records ∧ anyone.ForAnyone census ∧
    (crowded.users.map User.createdAt).Nodup ∧ jane 1 ∈ crowded.users ∧
    Sample.env.parseCardAuthorization cardBody.toUTF8 = .ok anyone ∧
    (genPay Sample.env).serve Case.card.job (oracle 2) crowded =
      (.error (httpError 400 "No researcher account available to settle against"), crowded) ∧
    ¬ SeesAllUsers Sample.env true crowded anyone census := by
  have hjane : jane 1 ∈ crowded.users := by decide +kernel
  refine ⟨by decide +kernel, ⟨rfl, rfl, rfl⟩, by decide +kernel, hjane, by decide +kernel, by decide +kernel, fun h => ?_⟩
  have herror : ((settlingUser anyone).run (engine true) (oracle 2) crowded (Txn.fresh.saw crowded)).1 =
      .error (.valueError "No researcher account available to settle against") := by decide +kernel
  exact h.refused (oracle 2) _ _ (Prod.ext herror rfl) (jane 1) hjane rfl

open Sample in
theorem default_buyer_iff_seeded : SeesAllUsers Sample.env true seeded anyone record := by
  refine (default_buyer_iff (by decide +kernel) (by decide +kernel) ⟨rfl, rfl, rfl⟩ (by decide +kernel)
    ⟨jane 0, by decide +kernel, rfl⟩).2 ⟨jane 0, ⟨by decide +kernel, rfl, ?_⟩, by decide +kernel⟩
  decide +kernel

end GenPay
