import GenPay.ReadCommitted.Alone
import Mathlib.Data.List.Perm.Basic

/-!
# Two runs of one program, and jobs that commute

A `Frame` says what two databases have to agree on for a job and which writes are the job's own.  `Prog.Alike`
relates two programs that read databases in agreement: they send the same writes, all of them own.  So a job is
answered the same on both databases (`Service.serve_alike`), and jobs with frames apart are each answered as if
they came first, in any order (`Service.commute`).
-/

namespace ReadCommitted

variable {Db Write Error Choice Job α α' β β' : Type} {E : Engine Db Write Error} {o : Nat → Choice}

/-- What two databases agree on, and the writes that keep the agreement when they are applied to both. -/
structure Frame (E : Engine Db Write Error) where
  agree : Db → Db → Prop
  own : Write → Prop
  violation : ∀ {d d' w}, agree d d' → own w → E.violation d' w = E.violation d w
  apply : ∀ {d d' w}, agree d d' → own w → agree (E.apply d w) (E.apply d' w)

theorem Frame.view (A : Frame E) {ws : List Write} (hws : ∀ w ∈ ws, A.own w) {d d' : Db} (h : A.agree d d') :
    A.agree (E.view d ws) (E.view d' ws) := by
  induction ws generalizing d d' with
  | nil => exact h
  | cons w ws ih =>
    exact ih (fun x hx => hws x (List.mem_cons_of_mem _ hx)) (A.apply h (hws w (List.mem_cons_self ..)))

namespace Prog

/-- The programs send the same own writes and end with results in `P`, whatever databases in agreement they read. -/
inductive Alike (A : Frame E) (o : Nat → Choice) {α α' : Type} (P : α → α' → Prop) :
    Prog Db Write Error Choice α → Prog Db Write Error Choice α' → Prop
  | ret {a a'} (h : P a a') : Alike A o P (ret a) (ret a')
  | raise (e) : Alike A o P (raise e) (raise e)
  | select {β β' : Type} {q : Choice → Db → β} {q' : Choice → Db → β'} {k k'}
      (h : ∀ i d d', A.agree d d' → Alike A o P (k (q (o i) d)) (k' (q' (o i) d'))) :
      Alike A o P (select q k) (select q' k')
  | write {w k k'} (hw : A.own w) (h : ∀ r, Alike A o P (k r) (k' r)) : Alike A o P (write w k) (write w k')
  | rollback {k k'} (h : Alike A o P k k') : Alike A o P (rollback k) (rollback k')

namespace Alike

variable {A : Frame E} {P : α → α' → Prop} {Q : β → β' → Prop} {p : Prog Db Write Error Choice α}
  {p' : Prog Db Write Error Choice α'} {f : α → Prog Db Write Error Choice β} {f' : α' → Prog Db Write Error Choice β'}

/-- The rule of consequence. -/
theorem mono {P' : α → α' → Prop} (h : p.Alike A o P p') (hP : ∀ a a', P a a' → P' a a') : p.Alike A o P' p' := by
  induction h with
  | ret h => exact ret (hP _ _ h)
  | raise e => exact raise e
  | select _ ih => exact select ih
  | write hw _ ih => exact write hw ih
  | rollback _ ih => exact rollback ih

theorem seq (h : p.Alike A o P p') (hf : ∀ a a', P a a' → (f a).Alike A o Q (f' a')) :
    (p >>= f).Alike A o Q (p' >>= f') := by
  show (p.bind f).Alike A o Q (p'.bind f')
  induction h with
  | ret h => exact hf _ _ h
  | raise e => exact raise e
  | select _ ih => exact select ih
  | write hw _ ih => exact write hw ih
  | rollback _ ih => exact rollback ih

/-- Both programs raise the same exceptions, so one handler catches both. -/
theorem tryCatch {h : Error → Prog Db Write Error Choice α} {h' : Error → Prog Db Write Error Choice α'}
    (hp : p.Alike A o P p') (hh : ∀ e, (h e).Alike A o P (h' e)) : (p.tryCatch h).Alike A o P (p'.tryCatch h') := by
  induction hp with
  | ret h => exact ret h
  | raise e => exact hh e
  | select _ ih => exact select ih
  | write hw _ ih => exact write hw ih
  | rollback _ ih => exact rollback ih

theorem exec {w : Write} (hw : A.own w) :
    (exec w : Prog Db Write Error Choice Unit).Alike A o (fun _ _ => True) (Prog.exec w) := by
  refine write hw fun r => ?_
  cases r with
  | none => exact ret trivial
  | some e => exact raise e

theorem query {q : Choice → Db → α} {q' : Choice → Db → α'}
    (h : ∀ i d d', A.agree d d' → P (q (o i) d) (q' (o i) d')) :
    (query q : Prog Db Write Error Choice α).Alike A o P (Prog.query q') :=
  select fun i d d' hd => ret (h i d d' hd)

/-- Run alone on databases in agreement, the two end in the same way with the same writes. -/
theorem run {p p' : Prog Db Write Error Choice α} (h : p.Alike A o Eq p') {d d' : Db} (hd : A.agree d d')
    {t u : Txn Db Write} (hw : u.writes = t.writes) (hn : u.seen.length = t.seen.length)
    (ho : ∀ w ∈ t.writes, A.own w) :
    (p'.run E o d' u).1 = (p.run E o d t).1 ∧ (p'.run E o d' u).2.writes = (p.run E o d t).2.writes ∧
      ∀ w ∈ (p.run E o d t).2.writes, A.own w := by
  induction h generalizing t u with
  | ret h => exact ⟨by rw [Prog.run, Prog.run, h], hw, ho⟩
  | raise e => exact ⟨rfl, hw, ho⟩
  | select _ ih =>
    have hv := A.view ho hd
    rw [Prog.run, Prog.run, hw, hn]
    exact ih t.seen.length _ _ hv (t := t.saw d) (u := u.saw d') hw (by simp [hn]) ho
  | @write w k k' hown _ ih =>
    have hv : E.violation (u.view E d') w = E.violation (t.view E d) w := by
      unfold Txn.view
      rw [hw]
      exact A.violation (A.view ho hd) hown
    rw [run_write, run_write, hv]
    cases E.violation (t.view E d) w with
    | none =>
      refine ih none (t := t.wrote d w) (u := u.wrote d' w) (by simp [hw]) (by simp [hn]) fun x hx => ?_
      rcases List.mem_append.1 hx with hx | hx
      · exact ho x hx
      · exact List.mem_singleton.1 hx ▸ hown
    | some e => exact ih (some e) (t := t.saw d) (u := u.saw d') hw (by simp [hn]) ho
  | rollback _ ih =>
    exact ih (t := t.dropped d) (u := u.dropped d') rfl (by simp [hn]) fun w hw => by cases hw

end Alike

end Prog

/-! ### Jobs -/

namespace Service

variable {S : Service Db Write Error Choice Job α}

/-- What a job commits when it is answered alone. -/
def written (S : Service Db Write Error Choice Job α) (r : Job × (Nat → Choice)) (d : Db) : List Write :=
  match (S.handle r.1).run S.toEngine r.2 d Txn.fresh with
  | (.ok _, t) => t.writes
  | (.error _, _) => []

theorem serve_written (r : Job × (Nat → Choice)) (d : Db) : (S.serve r.1 r.2 d).2 = S.view d (S.written r d) := by
  have hserve : S.serve r.1 r.2 d = match (S.handle r.1).run S.toEngine r.2 d Txn.fresh with
      | (.ok a, t) => (.ok a, S.view d t.writes)
      | (.error e, _) => (.error e, d) := rfl
  rw [hserve]
  unfold written
  split <;> rfl

/-- The answers to jobs one after the other. -/
def answers (S : Service Db Write Error Choice Job α) (d : Db) : List (Job × (Nat → Choice)) → List (Except Error α)
  | [] => []
  | r :: rs => (S.serve r.1 r.2 d).1 :: S.answers (S.serve r.1 r.2 d).2 rs

/-- On databases in agreement a job has one answer and one list of writes. -/
theorem serve_alike {A : Frame S.toEngine} {r : Job × (Nat → Choice)}
    (h : (S.handle r.1).Alike A r.2 Eq (S.handle r.1)) {d d' : Db} (hd : A.agree d d') :
    (S.serve r.1 r.2 d').1 = (S.serve r.1 r.2 d).1 ∧ S.written r d' = S.written r d ∧ ∀ w ∈ S.written r d, A.own w := by
  have hserve : ∀ x, (S.serve r.1 r.2 x).1 = ((S.handle r.1).run S.toEngine r.2 x Txn.fresh).1 := by
    intro x
    unfold Service.serve
    split <;> rename_i he <;> rw [he]
  obtain ⟨hr, hw, ho⟩ := h.run hd (t := Txn.fresh) (u := Txn.fresh) rfl rfl fun w hw => by cases hw
  refine ⟨by rw [hserve, hserve, hr], ?_⟩
  unfold written
  rcases he : (S.handle r.1).run S.toEngine r.2 d Txn.fresh with ⟨e | a, t⟩ <;>
    rcases he' : (S.handle r.1).run S.toEngine r.2 d' Txn.fresh with ⟨e' | a', t'⟩ <;> rw [he, he'] at hr hw <;>
    rw [he] at ho
  · exact ⟨rfl, fun w hw => by cases hw⟩
  · cases hr
  · cases hr
  · exact ⟨hw, ho⟩

end Service

/-! ### Jobs with frames apart -/

/-- A notion of databases that differ in nothing of interest. -/
structure Similarity (E : Engine Db Write Error) (sim : Db → Db → Prop) : Prop where
  refl : ∀ d, sim d d
  symm : ∀ {d d'}, sim d d' → sim d' d
  trans : ∀ {d d' d''}, sim d d' → sim d' d'' → sim d d''
  apply : ∀ {d d'} w, sim d d' → sim (E.apply d w) (E.apply d' w)

/-- The own writes of one frame do not concern the other, and the order of own writes does not matter. -/
structure Frame.Apart (sim : Db → Db → Prop) (A B : Frame E) : Prop where
  left : ∀ {d d' w}, A.agree d d' → B.own w → A.agree d (E.apply d' w)
  right : ∀ {d d' w}, B.agree d d' → A.own w → B.agree d (E.apply d' w)
  comm : ∀ {d w w'}, A.own w → B.own w' → sim (E.apply (E.apply d w) w') (E.apply (E.apply d w') w)

namespace Frame.Apart

variable {sim : Db → Db → Prop} {A B : Frame E}

theorem symm (h : A.Apart sim B) (hsim : Similarity E sim) : B.Apart sim A where
  left := h.right
  right := h.left
  comm hw hw' := hsim.symm (h.comm hw' hw)

theorem agree (h : A.Apart sim B) {ws : List Write} (hws : ∀ w ∈ ws, B.own w) {d d' : Db} (hd : A.agree d d') :
    A.agree d (E.view d' ws) := by
  induction ws generalizing d' with
  | nil => exact hd
  | cons w ws ih =>
    exact ih (fun x hx => hws x (List.mem_cons_of_mem _ hx)) (h.left hd (hws w (List.mem_cons_self ..)))

end Frame.Apart

namespace Similarity

variable {sim : Db → Db → Prop}

theorem view (h : Similarity E sim) (ws : List Write) {d d' : Db} (hd : sim d d') :
    sim (E.view d ws) (E.view d' ws) := by
  induction ws generalizing d d' with
  | nil => exact hd
  | cons w ws ih => exact ih (h.apply w hd)

/-- A write moves over own writes of another frame. -/
theorem view_cons_comm (h : Similarity E sim) {A B : Frame E} (hAB : A.Apart sim B) {w : Write} (hw : A.own w)
    {ws : List Write} (hws : ∀ x ∈ ws, B.own x) (d : Db) : sim (E.view d (w :: ws)) (E.view d (ws ++ [w])) := by
  induction ws generalizing d with
  | nil => exact h.refl _
  | cons x ws ih =>
    have hswap : sim (E.view d (w :: x :: ws)) (E.view (E.apply d x) (w :: ws)) :=
      h.view ws (hAB.comm hw (hws x (List.mem_cons_self ..)))
    exact h.trans hswap (ih (fun y hy => hws y (List.mem_cons_of_mem _ hy)) (E.apply d x))

theorem view_append_comm (h : Similarity E sim) {A B : Frame E} (hAB : A.Apart sim B) {ws ws' : List Write}
    (hws : ∀ w ∈ ws, A.own w) (hws' : ∀ w ∈ ws', B.own w) (d : Db) :
    sim (E.view d (ws ++ ws')) (E.view d (ws' ++ ws)) := by
  induction ws generalizing d with
  | nil => rw [List.nil_append, List.append_nil]; exact h.refl _
  | cons w ws ih =>
    have hrest : sim (E.view d (w :: (ws ++ ws'))) (E.view d (w :: (ws' ++ ws))) :=
      ih (fun x hx => hws x (List.mem_cons_of_mem _ hx)) (E.apply d w)
    have hfirst : sim (E.view d (w :: (ws' ++ ws))) (E.view d (ws' ++ w :: ws)) := by
      have := h.view ws (h.view_cons_comm hAB (hws w (List.mem_cons_self ..)) hws' d)
      rwa [← E.view_append, ← E.view_append, List.append_assoc, List.cons_append, List.singleton_append] at this
    exact h.trans hrest hfirst

/-- Blocks of own writes of frames apart, in any order. -/
theorem view_perm (h : Similarity E sim) {ι : Type} {F : ι → Frame E} {ws : ι → List Write} {l l' : List ι}
    (hperm : l.Perm l') (hpair : l.Pairwise fun i j => (F i).Apart sim (F j)) (hws : ∀ i ∈ l, ∀ w ∈ ws i, (F i).own w)
    (d : Db) : sim (E.view d (l.flatMap ws)) (E.view d (l'.flatMap ws)) := by
  induction hperm generalizing d with
  | nil => exact h.refl _
  | cons i _ ih =>
    rw [List.flatMap_cons, List.flatMap_cons, E.view_append, E.view_append]
    exact ih (List.pairwise_cons.1 hpair).2 (fun j hj => hws j (List.mem_cons_of_mem _ hj)) _
  | swap i j l =>
    have hij : (F j).Apart sim (F i) := (List.pairwise_cons.1 hpair).1 i (List.mem_cons_self ..)
    simp only [List.flatMap_cons, ← List.append_assoc]
    rw [E.view_append d (ws j ++ ws i), E.view_append d (ws i ++ ws j)]
    exact h.view _ (h.view_append_comm hij (hws j (by simp)) (hws i (by simp)) d)
  | trans hp _ ih ih' =>
    refine h.trans (ih hpair hws d) (ih' ?_ (fun i hi => hws i (hp.mem_iff.2 hi)) d)
    exact hp.pairwise hpair fun hij => hij.symm h

end Similarity

namespace Service

variable {S : Service Db Write Error Choice Job α} {F : Job × (Nat → Choice) → Frame S.toEngine}
  {sim : Db → Db → Prop} {d : Db} {rs rs' : List (Job × (Nat → Choice))}

/-- Jobs with frames apart are answered as if each came first, and commit what they would commit then. -/
theorem answers_apart (hsim : Similarity S.toEngine sim)
    (hlocal : ∀ r ∈ rs, (S.handle r.1).Alike (F r) r.2 Eq (S.handle r.1))
    (hpair : rs.Pairwise fun r r' => (F r).Apart sim (F r')) :
    ∀ d', (∀ r ∈ rs, (F r).agree d d) → (∀ r ∈ rs, (F r).agree d d') →
      S.answers d' rs = rs.map (fun r => (S.serve r.1 r.2 d).1) ∧
      S.serveAll d' rs = S.view d' (rs.flatMap fun r => S.written r d) := by
  induction rs with
  | nil => exact fun d' _ _ => ⟨rfl, rfl⟩
  | cons r rs ih =>
    intro d' hself hd
    obtain ⟨hr, hrs⟩ := List.pairwise_cons.1 hpair
    obtain ⟨hanswer, hwritten, hown⟩ := serve_alike (hlocal r (List.mem_cons_self ..)) (hd r (List.mem_cons_self ..))
    have hnext : (S.serve r.1 r.2 d').2 = S.view d' (S.written r d) := by rw [S.serve_written, hwritten]
    obtain ⟨ha, hs⟩ := ih (fun x hx => hlocal x (List.mem_cons_of_mem _ hx)) hrs (S.view d' (S.written r d))
      (fun x hx => hself x (List.mem_cons_of_mem _ hx))
      fun x hx => ((hr x hx).symm hsim).agree hown (hd x (List.mem_cons_of_mem _ hx))
    refine ⟨?_, ?_⟩
    · rw [answers, hanswer, hnext, ha, List.map_cons]
    · rw [serveAll, hnext, hs, List.flatMap_cons, S.view_append]

/-- The order of jobs with frames apart changes no answer, and the database only as far as `sim` allows. -/
theorem commute (hsim : Similarity S.toEngine sim)
    (hlocal : ∀ r ∈ rs, (S.handle r.1).Alike (F r) r.2 Eq (S.handle r.1)) (hself : ∀ r ∈ rs, (F r).agree d d)
    (hpair : rs.Pairwise fun r r' => (F r).Apart sim (F r')) (hperm : rs.Perm rs') :
    S.answers d rs' = rs'.map (fun r => (S.serve r.1 r.2 d).1) ∧ sim (S.serveAll d rs) (S.serveAll d rs') := by
  have hmem : ∀ r, r ∈ rs' → r ∈ rs := fun r => hperm.mem_iff.2
  obtain ⟨-, hs⟩ := answers_apart hsim hlocal hpair d hself hself
  obtain ⟨ha, hs'⟩ := answers_apart hsim (fun r hr => hlocal r (hmem r hr)) (hperm.pairwise hpair fun hij => hij.symm hsim)
    d (fun r hr => hself r (hmem r hr)) fun r hr => hself r (hmem r hr)
  refine ⟨ha, ?_⟩
  rw [hs, hs']
  refine hsim.view_perm hperm hpair (fun r hr => ?_) d
  exact (serve_alike (hlocal r hr) (hself r hr)).2.2

end Service

end ReadCommitted
