import GenPay.ReadCommitted.Interleaved
import GenPay.Commutation

/-!
# Independent requests at the same time

Requests about different authorizations, with different keys and events, may share accounts, and their statements may
interleave in any way: each is answered as if it were alone, and the rows are those of serving the committed ones
one after the other in the order of their commits, or in any other order (`interleaved_independent`).
-/

namespace GenPay

open ReadCommitted

variable {env : Env} {d₀ : Db} {s s' : AppSystem}

/-- The sessions `us`, opened on the database `d` and run at the same time, as requests served on it. -/
structure ServedApart (env : Env) (d d' : Db) (us : List AppSession) : Prop where
  answered : ∀ t ∈ us, ∀ a, t.phase = .committed a → ((genPay env).serve t.job t.oracle d).1 = .ok a
  refused : ∀ t ∈ us, ∀ e, t.phase = .failed e → e = (genPay env).aborted ∨
    ((genPay env).serve t.job t.oracle d).1 = .error e
  serial : ∃ rs : List (Job × (Nat → Choice)), rs.Perm ((us.filter (·.isCommitted)).map Session.asked) ∧
    d' = (genPay env).serveAll d rs
  anyOrder : ∀ rs : List (Job × (Nat → Choice)), rs.Perm ((us.filter (·.isCommitted)).map Session.asked) →
    d'.Similar ((genPay env).serveAll d rs)

theorem Independent.symm {d : Db} {r r' : Job × (Nat → Choice)} (h : Independent env d r r') : Independent env d r' r where
  authorizations x hx hx' := h.authorizations x hx' hx
  references x hx hx' := h.references x hx' hx
  idempotencyKeys x hx hx' := h.idempotencyKeys x hx' hx
  events x hx hx' := h.events x hx' hx

theorem framesApart_of_independent {d : Db} {rs : List (Job × (Nat → Choice))} (hd : ∀ c, (d.column c).Nodup)
    (hposed : ∀ r ∈ rs, Job.Posed d r) (hpair : rs.Pairwise (Independent env d)) :
    FramesApart (genPay env) (fun r => frame env.foreignKeys {k | Footprint env d r k}) Db.Similar d rs where
  alike r hr := handle_alike (Footprint.covers env d r) (hposed r hr).1 fun _ hk => .named hk
  agree r _ := Footprint.agree env _ d r
  apart := List.Pairwise.imp_of_mem
    (fun hr hr' h => frame_apart (h.disjoint hd (hposed _ hr).2 (hposed _ hr').2)) hpair

/-- From any state without open sessions: independent sessions, interleaved statement by statement in any way and
ended by the engine at any point, are served apart. -/
theorem interleaved_independent (h₀ : Seeded env d₀) (h : Reachable (genPay env) d₀ s)
    (hidle : ∀ t ∈ s.sessions, t.isRunning = false) (hrun : Run (genPay env) (fun _ _ => True) s s')
    (hposed : ∀ t ∈ s'.sessions.drop s.sessions.length, Job.Posed s.db t.asked)
    (hind : ((s'.sessions.drop s.sessions.length).map Session.asked).Pairwise (Independent env s.db)) :
    ServedApart env s.db s'.db (s'.sessions.drop s.sessions.length) := by
  have hd : ∀ c, (s.db.column c).Nodup := (run_sound h₀.sound h).unique
  obtain ⟨us, hus, hserved⟩ := hrun.served (F := fun r => frame env.foreignKeys {k | Footprint env s.db r k})
    (similarity env.foreignKeys) hidle
  rw [hus, List.drop_left] at hposed hind ⊢
  have hposed' : ∀ r ∈ us.map Session.asked, Job.Posed s.db r := by
    intro r hr
    obtain ⟨t, ht, rfl⟩ := List.mem_map.1 hr
    exact hposed t ht
  have hF := framesApart_of_independent hd hposed' hind
  obtain ⟨order, hserved⟩ := hserved hF
  have hperm := hserved.committed.map Session.asked
  have hserial := hserved.serveAll (similarity env.foreignKeys) hF
  refine ⟨fun t ht a ha => ((hserved.alone t ht).committed ha).1, fun t ht e he => (hserved.alone t ht).failed he,
    ⟨_, hperm, hserial⟩, fun rs hrs => ?_⟩
  -- the committed ones are independent too
  have hsub : ((us.filter (·.isCommitted)).map Session.asked).Sublist (us.map Session.asked) :=
    List.filter_sublist.map _
  have hmem : ∀ r ∈ order.map Session.asked, r ∈ us.map Session.asked := fun r hr => hsub.subset (hperm.mem_iff.1 hr)
  rw [hserial]
  exact (commute_of_independent hd (fun r hr => hposed' r (hmem r hr))
    (hperm.symm.pairwise (hind.sublist hsub) fun h => h.symm) (hperm.trans hrs.symm)).2

namespace Sample

/-- The labels of two purchases of the same record, whose statements alternate until the first one posts. -/
def alternating : List (Label Choice Job) :=
  [.start (buying "key-1" 'a').1 (buying "key-1" 'a').2, .start (buying "key-2" 'b').1 (buying "key-2" 'b').2] ++
    (List.replicate 18 [.exec 0, .exec 1]).flatten ++ List.replicate 17 (.exec 0) ++ List.replicate 17 (.exec 1)

def twoBuyers : AppSystem := scheduled Sample.env seeded (fun _ _ => true) alternating

theorem scheduled_asked {env : Env} {d : Db} {g : AppSession → Db → Bool} {ls : List (Label Choice Job)}
    (h : (scheduled env d g ls).sessions ≠ []) :
    (scheduled env d g ls).sessions.map Session.asked = ls.filterMap Label.started := by
  unfold scheduled at h ⊢
  cases hs : (System.initial d).schedule (genPay env) g ls with
  | none =>
    rw [hs] at h
    exact absurd rfl h
  | some s => exact schedule_asked hs

end Sample

open Sample in
/-- Both purchases commit, and the ledger is as if the second one had come first. -/
theorem interleaved_independent_twoBuyers : twoBuyers.db.settlements.length = 2 ∧
    (∀ t ∈ twoBuyers.sessions, t.isCommitted = true) ∧
    twoBuyers.db.Similar ((genPay Sample.env).serveAll seeded [buying "key-2" 'b', buying "key-1" 'a']) := by
  have hstate : twoBuyers.db.settlements.length = 2 ∧ twoBuyers.sessions ≠ [] ∧
      ∀ t ∈ twoBuyers.sessions, t.isCommitted = true := by decide +kernel
  have hasked : twoBuyers.sessions.map Session.asked = [buying "key-1" 'a', buying "key-2" 'b'] := scheduled_asked hstate.2.1
  have hposed : ∀ t ∈ twoBuyers.sessions, Job.Posed seeded t.asked := by
    intro t ht
    have hmem : t.asked ∈ twoBuyers.sessions.map Session.asked := List.mem_map_of_mem ht
    rw [hasked] at hmem
    rcases List.mem_pair.1 hmem with he | he <;> rw [he]
    · exact ⟨rfl, newIds_drawn (by decide)⟩
    · exact ⟨rfl, newIds_drawn (by decide)⟩
  have hind : (twoBuyers.sessions.map Session.asked).Pairwise (Independent Sample.env seeded) := by
    rw [hasked]
    exact List.pairwise_pair.2 (independent_buying (by decide) (by decide) (by decide) (by decide))
  have hserved := interleaved_independent (s := System.initial seeded) seeded_env (Run.refl _)
    (fun t ht => absurd ht List.not_mem_nil) (run_scheduled (fun _ _ _ => True.intro) alternating) hposed hind
  refine ⟨hstate.1, hstate.2.2, hserved.anyOrder _ ?_⟩
  have hall : twoBuyers.sessions.filter (·.isCommitted) = twoBuyers.sessions :=
    List.filter_eq_self.2 hstate.2.2
  change List.Perm _ ((twoBuyers.sessions.filter (·.isCommitted)).map Session.asked)
  rw [hall, hasked]
  exact List.Perm.swap ..

end GenPay
