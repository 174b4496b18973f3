/-
# Where the columns of an asset come from

An asset is a row, or the object of a worker's session that will be written to the
row.  `Origin` lists what a step can make of the assets there are: it leaves them,
sets a status other than `done`, adds a new one, or takes what the processor left in
the object, with the path and `done` if it returned.

`Moves.origin` is the step lemma.  A property of the columns is an invariant when each
of these origins keeps it.
-/

import PoetryGenerator.Reachable

namespace PoetryGenerator

variable {cfg : Config} {t : JobType} {w w' : World} {s s' : Sys} {l : Label}

theorem Label.worker_inj {act act' : Act t} (h : Label.worker t act = .worker t act') : act = act' :=
  eq_of_heq (Label.worker.inj h).2

/-- The session of a call of `process`. -/
def Pc.session : Pc t → Option (Session t)
  | commitRunning s | call s | incr s _ | expire s _ _ | commitFinal s _ _ => some s
  | _ => none

theorem Pc.session_of_committing {pc : Pc t} {session : Session t} (h : pc.committing = some session) :
    pc.session = some session := by
  cases pc <;> simp only [Pc.committing, reduceCtorEq] at h
  all_goals exact h

section
variable (cfg : Config) (raw : Raw) (id : ℤ) (ph : Phase)

@[simp] theorem Pc.session_raised : (raised ph : Pc t).session = none := by cases ph <;> rfl

@[simp] theorem Pc.session_reenqueueRest (ids : List ℤ) : (reenqueueRest ph ids : Pc t).session = none := by
  cases ids <;> rfl

@[simp] theorem Pc.session_popped (moved : Option Raw) : (popped cfg moved : Pc t).session = none := by
  unfold popped
  split
  · rfl
  · split <;> rfl

@[simp] theorem Pc.session_gotJob (job : Option Job) : (gotJob raw id job : Pc t).session = none := by
  unfold gotJob
  split
  · rfl
  · split_ifs <;> rfl

@[simp] theorem Pc.session_processed (again : Bool) : (processed raw id again : Pc t).session = none := by
  cases again <;> rfl

end

/-- The columns the processor left in the asset, when it returned or raised. -/
def Act.attrs : Act t → Option (Attrs t)
  | returns _ attrs _ | raises _ attrs _ | unsupported _ attrs _ => some attrs
  | _ => none

/-- The session of an attempt whose call of the processor is over. -/
def Pc.attempted : Pc t → Option (Session t)
  | incr s _ | expire s _ _ | commitFinal s _ _ => some s
  | _ => none

theorem Pc.session_of_attempted {pc : Pc t} {session : Session t} (h : pc.attempted = some session) :
    pc.session = some session := by
  cases pc <;> simp only [Pc.attempted, reduceCtorEq] at h
  all_goals exact h

/-- An asset is a row, or what a session will write to it. -/
def Sys.HasAsset (s : Sys) (t : JobType) (ref : ℤ) (a : Asset t) : Prop :=
  s.world.db.asset t ref = some a ∨
    ∃ session, (s.workers t).session = some session ∧ session.job.loaded.refId = ref ∧
      session.asset.cur = a

/-- What an asset can be after a step. -/
inductive Origin (s : Sys) (l : Label) (t : JobType) : ℤ → Asset t → Prop
  | held {ref a} (h : s.HasAsset t ref a) : Origin s l t ref a
  | created {b ids r} (hl : l = .persist b ids r) (hr : r.takesEffect = true) (hw : b.wants t = true) :
      Origin s l t (ids.asset t) (newAsset b ids t)
  | status {ref a st} (h : s.HasAsset t ref a) (ha : a.status ≠ .done) (hst : st ≠ .done) :
      Origin s l t ref { a with status := st }
  | raised {session exc attrs wrote st} (hpc : s.workers t = .call session)
      (hl : l = .worker t (.raises exc attrs wrote) ∨ l = .worker t (.unsupported exc attrs wrote))
      (hst : st ≠ .done) :
      Origin s l t session.job.loaded.refId { session.asset.cur with attrs, status := st }
  | returned {session path attrs wrote} (hpc : s.workers t = .call session)
      (hl : l = .worker t (.returns path attrs wrote)) :
      Origin s l t session.job.loaded.refId
        { session.asset.cur with attrs, path := some path, status := .done }

/-- **A row after a step** was there, is new, or was committed. -/
theorem Moves.asset_cases (h : Moves cfg s l s') (hs : s.Ok cfg) {ref : ℤ} {a : Asset t}
    (ha : s'.world.db.asset t ref = some a) : Origin s l t ref a := by
  cases h with
  | @persist b ids r hf hr =>
      have hrow := (asset_persistPoem s.world.db b ids t ref).symm.trans ha
      split_ifs at hrow with hnew
      · obtain ⟨hwants, rfl⟩ := hnew
        obtain rfl := Option.some.inj hrow
        exact .created rfl hr hwants
      · exact .held (.inl hrow)
  | push => exact .held (.inl ((congrArg (Db.asset · t ref) (World.db_rpush ..)).symm.trans ha))
  | @deleteOp i r pc w next hi hd =>
      cases hd with
      | @commit p loaded =>
          cases hr : r.takesEffect with
          | false => exact .held (.inl (s.world.commit_eq_self r _ hr ▸ ha))
          | true =>
              have hrow : (s.world.db.deleteRows p fun t => (loaded t).map Prod.fst).asset t ref = some a :=
                (congrArg (World.db · |>.asset t ref) (s.world.commit_eq r _ hr)).symm.trans ha
              exact .held (.inl ((Db.asset_deleteRows ..).1 hrow).1)
      | _ => exact .held (.inl ha)
  | @worker u act w pc hw =>
      rcases hw.db (hs.workers u) with hdb | ⟨session, db, hc, hcommit, rfl⟩
      · exact .held (.inl ((congrArg (Db.asset · t ref) hdb).symm.trans ha))
      · have hrw := ((hs.workers u).committing hc).rewrites hcommit
        by_cases hu : t = u
        · subst hu
          have hrow := (hrw.asset ref).symm.trans ha
          split_ifs at hrow with href
          · obtain ⟨b, -, rfl⟩ := Option.map_eq_some_iff.1 hrow
            exact .held (.inr ⟨session, Pc.session_of_committing hc, href.symm, rfl⟩)
          · exact .held (.inl hrow)
        · exact .held (.inl ((hrw.other t hu ref).symm.trans ha))
  | _ => exact .held (.inl ha)

/-- A failed attempt sets only a status. -/
theorem asset_handleJobFailure (maxRetries : ℤ) (exc : Str) (attempts : Option ℕ) (job : Job)
    (asset : Asset t) : ∃ st : AssetStatus, st ≠ .done ∧
      (handleJobFailure maxRetries exc attempts job asset).2.1 = { asset with status := st } := by
  unfold handleJobFailure
  split
  · exact ⟨.failed, by decide, rfl⟩
  · split_ifs
    · exact ⟨.pending, by decide, rfl⟩
    · exact ⟨.failed, by decide, rfl⟩

/-- During an attempt the asset is running. -/
theorem Session.Ok.status_running {session : Session t} (h : session.Ok w) (ha : session.Attempting) :
    session.asset.cur.status = .running := by
  rw [h.agree.status, ha.job, ha.status]
  rfl

theorem Session.Ok.status_ne_done {session : Session t} (h : session.Ok w) (ha : session.Attempting) :
    session.asset.cur.status ≠ .done := by
  rw [h.status_running ha]
  decide

/-- An attempt that failed. -/
theorem origin_failed {session : Session t} (hok : session.Ok w) (ha : session.Attempting)
    (hsession : (s.workers t).session = some session) (exc : Str) (attempts : Option ℕ) (maxRetries : ℤ) :
    Origin s l t session.job.loaded.refId
      (handleJobFailure maxRetries exc attempts session.job.cur session.asset.cur).2.1 := by
  obtain ⟨st, hst, he⟩ := asset_handleJobFailure maxRetries exc attempts session.job.cur session.asset.cur
  rw [he]
  exact .status (.inr ⟨session, hsession, rfl, rfl⟩) (hok.status_ne_done ha) hst

/-- The operations after which a worker is in a session. -/
inductive InSession (cfg : Config) (w : World) : Pc t → Act t → Pc t → Prop
  | opened {raw id job a r} (ha : w.db.asset t job.refId = some a) :
      InSession cfg w (.getAsset raw id job) (.reply r) (.commitRunning (.start raw id job a))
  | committed {session r} : InSession cfg w (.commitRunning session) (.reply r) (.call session.committed)
  | returns {session path attrs wrote} :
      InSession cfg w (.call session) (.returns path attrs wrote)
        (.ended cfg (session.withAttrs attrs) (.finished path))
  | raises {session exc attrs wrote} :
      InSession cfg w (.call session) (.raises exc attrs wrote) (.incr (session.withAttrs attrs) exc)
  | unsupported {session exc attrs wrote} :
      InSession cfg w (.call session) (.unsupported exc attrs wrote)
        (.afterUnsupported cfg (session.withAttrs attrs) exc)
  | counted {session exc n r} :
      InSession cfg w (.incr session exc) (.reply r) (.expire session exc n)
  | uncounted {session exc r} :
      InSession cfg w (.incr session exc) (.reply r) (.ended cfg session (.failed exc none))
  | expired {session exc n attempts r} :
      InSession cfg w (.expire session exc n) (.reply r) (.ended cfg session (.failed exc attempts))

theorem Performs.inSession {pc pc' : Pc t} {act : Act t} (h : Performs cfg t w pc act w' pc')
    {session : Session t} (hsession : pc'.session = some session) : InSession cfg w pc act pc' := by
  cases h with
  | @getAsset raw id job r =>
      split_ifs at hsession ⊢
      · cases ha : w.db.asset t job.refId with
        | none => rw [ha] at hsession; cases hsession
        | some a => exact .opened ha
      · cases hsession
  | commitRunning =>
      split_ifs at hsession ⊢
      · exact .committed
      · cases hsession
  | returns => exact .returns
  | raises => exact .raises
  | unsupported => exact .unsupported
  | incr =>
      split_ifs
      · exact .counted
      · exact .uncounted
  | expire => exact .expired
  | pop | popEmpty => split at hsession <;> first | cases hsession | simp at hsession
  | kill | start | staleMissing | staleRunning | staleFinal => cases hsession
  | select | selectRaised => simp at hsession
  | reap | drained | readQueue | readProcessing | reenqueue | getJob | commitMissing | commitFinal
  | requeue | ack | tick => split_ifs at hsession <;> first | cases hsession | simp at hsession

/-- **What a session writes after an operation** of its worker. -/
theorem InSession.origin {pc pc' : Pc t} {act : Act t} (h : InSession cfg s.world pc act pc')
    (hpc : pc.Ok cfg s.world) (hw : s.world.RowsOk) (hworker : s.workers t = pc)
    {session' : Session t} (hsession : pc'.session = some session') :
    Origin s (.worker t act) t session'.job.loaded.refId session'.asset.cur := by
  cases h with
  | @opened raw id job a r ha =>
      obtain rfl := Option.some.inj hsession
      obtain ⟨-, hx, -, hd, hrow⟩ := hpc
      obtain ⟨row, hr⟩ := Option.isSome_iff_exists.1 ((hw.job_isSome_iff hx).2 (by rw [ha]; rfl))
      obtain rfl := hrow row hr
      refine .status (.inl ha) ?_ (by decide)
      rw [(hw.agree hx hr ha).status]
      exact fun h => hd (by cases hst : row.status <;> rw [hst] at h <;> first | rfl | cases h)
  | @committed session r =>
      obtain rfl := Option.some.inj hsession
      exact .held (.inr ⟨session, hworker ▸ rfl, hpc.1.refId.symm, rfl⟩)
  | @returns session path attrs wrote =>
      obtain rfl := Option.some.inj hsession
      exact @Origin.returned _ _ _ session path attrs wrote hworker rfl
  | @raises session exc attrs wrote =>
      obtain rfl := Option.some.inj hsession
      exact @Origin.raised _ _ _ session exc attrs wrote _ hworker (.inl rfl) (hpc.1.status_ne_done hpc.2)
  | @unsupported session exc attrs wrote =>
      cases t with
      | image =>
          obtain rfl := Option.some.inj hsession
          exact @Origin.raised _ _ _ session exc attrs wrote _ hworker (.inr rfl) (hpc.1.status_ne_done hpc.2)
      | audio =>
          obtain rfl := Option.some.inj hsession
          exact @Origin.raised _ _ _ session exc attrs wrote .failed hworker (.inr rfl) (by decide)
  | @counted session exc n r =>
      obtain rfl := Option.some.inj hsession
      exact .held (.inr ⟨session, hworker ▸ rfl, rfl, rfl⟩)
  | @uncounted session exc r =>
      obtain rfl := Option.some.inj hsession
      exact origin_failed hpc.1 hpc.2 (hworker ▸ rfl) exc none cfg.maxRetries
  | @expired session exc n attempts r =>
      obtain rfl := Option.some.inj hsession
      exact origin_failed hpc.1 hpc.2 (hworker ▸ rfl) exc attempts cfg.maxRetries

/-- **Step lemma.**  Every asset after a step comes from those before. -/
theorem Moves.origin (h : Moves cfg s l s') (hs : s.Ok cfg) {ref : ℤ} {a : Asset t}
    (ha : s'.HasAsset t ref a) : Origin s l t ref a := by
  rcases ha with hrow | ⟨session, hsession, rfl, rfl⟩
  · exact h.asset_cases hs hrow
  · rcases h.worker_cases t with ⟨act, rfl, hw⟩ | ⟨-, hsame⟩
    · exact (hw.inSession hsession).origin (hs.workers t) hs.rows rfl hsession
    · exact .held (.inr ⟨session, hsame ▸ hsession, rfl, rfl⟩)

/-- The session of a worker is in order. -/
theorem Pc.Ok.session {pc : Pc t} (h : pc.Ok cfg w) {session : Session t} (hs : pc.session = some session) :
    session.Ok w := by
  cases pc <;> simp only [Pc.session, Option.some.injEq, reduceCtorEq] at hs
  case commitRunning | call | incr | expire => exact hs ▸ h.1
  case commitFinal => exact hs ▸ h.final.1

/-- An asset has its job in the history. -/
theorem Sys.HasAsset.known {ref : ℤ} {a : Asset t} (h : s.HasAsset t ref a) (hs : s.Ok cfg) :
    ∃ id, (id, t, ref) ∈ s.world.hist.jobs := by
  rcases h with hrow | ⟨session, hsession, rfl, -⟩
  · obtain ⟨id, job, hjob, rfl, rfl⟩ := hs.rows.asset_job hrow
    exact ⟨id, hs.rows.job_known hjob⟩
  · exact ⟨_, ((hs.workers t).session hsession).known⟩

/-- What a session is about to write. -/
theorem Sys.hasAsset_of_attempted {session : Session t} (h : (s.workers t).attempted = some session) :
    s.HasAsset t session.job.loaded.refId session.asset.cur :=
  .inr ⟨session, Pc.session_of_attempted h, rfl, rfl⟩

theorem Sys.hasAsset_of_call {session : Session t} (h : s.workers t = .call session) :
    s.HasAsset t session.job.loaded.refId session.asset.cur :=
  .inr ⟨session, h ▸ rfl, rfl, rfl⟩

/-- While the processor is called for an asset, it is running, as a row and in the session. -/
theorem Sys.HasAsset.running_of_call {session : Session t} {a : Asset t} (hs : s.Ok cfg)
    (hpc : s.workers t = .call session) (h : s.HasAsset t session.job.loaded.refId a) :
    a.status = .running := by
  have hworker := hs.workers t
  rw [hpc] at hworker
  obtain ⟨hok, hattempt⟩ := hworker
  rcases h with hrow | ⟨session', hsession, -, rfl⟩
  · have hrow' := (hs.rows.job_isSome_iff hok.known).2 (by rw [hrow]; rfl)
    obtain ⟨job, hjob⟩ := Option.isSome_iff_exists.1 hrow'
    rw [(hs.rows.agree hok.known hjob hrow).status, hok.job job hjob, hattempt.status]
    rfl
  · rw [hpc] at hsession
    obtain rfl := Option.some.inj hsession
    exact hok.status_running hattempt

/-- A new asset has a key that no other has. -/
theorem Sys.HasAsset.ne_fresh {ref : ℤ} {a : Asset t} (h : s.HasAsset t ref a) (hs : s.Ok cfg)
    {ids : NewIds} (hf : s.world.hist.Fresh ids) : ref ≠ ids.asset t := by
  obtain ⟨id, hid⟩ := h.known hs
  rintro rfl
  exact (hf.2.2 t _ hid).2 rfl

/-- The columns of a failed attempt are those it had. -/
theorem attrs_ended_failed (cfg : Config) (session : Session t) (exc : Str) (attempts : Option ℕ)
    {session' : Session t} (h : (Pc.ended cfg session (.failed exc attempts)).attempted = some session') :
    session'.job.loaded.refId = session.job.loaded.refId ∧
      session'.asset.cur.attrs = session.asset.cur.attrs := by
  obtain rfl := Option.some.inj h
  obtain ⟨st, -, he⟩ := asset_handleJobFailure cfg.maxRetries exc attempts session.job.cur session.asset.cur
  have hattrs := congrArg Asset.attrs he
  exact ⟨rfl, hattrs⟩

theorem Moves.fresh_of_persist {b : PersistArgs} {ids : NewIds} {r : Reply}
    (h : Moves cfg s (.persist b ids r) s') : s.world.hist.Fresh ids := by
  cases h <;> assumption

/-- **The columns at the end of an attempt** are those of the processor. -/
theorem InSession.attempted_cases {pc pc' : Pc t} {act : Act t} (h : InSession cfg w pc act pc')
    {session' : Session t} (hsession : pc'.attempted = some session') :
    (∃ session, pc.attempted = some session ∧ act.attrs = none ∧
      session'.job.loaded.refId = session.job.loaded.refId ∧
        session'.asset.cur.attrs = session.asset.cur.attrs) ∨
    ∃ session, pc = .call session ∧ session'.job.loaded.refId = session.job.loaded.refId ∧
      act.attrs = some session'.asset.cur.attrs := by
  cases h with
  | opened | committed => cases hsession
  | @returns session path attrs wrote =>
      obtain rfl := Option.some.inj hsession
      exact .inr ⟨session, rfl, rfl, rfl⟩
  | @raises session exc attrs wrote =>
      obtain rfl := Option.some.inj hsession
      exact .inr ⟨session, rfl, rfl, rfl⟩
  | @unsupported session exc attrs wrote =>
      cases t <;>
        · obtain rfl := Option.some.inj hsession
          exact .inr ⟨session, rfl, rfl, rfl⟩
  | @counted session exc n r =>
      obtain rfl := Option.some.inj hsession
      exact .inl ⟨session, rfl, rfl, rfl, rfl⟩
  | @uncounted session exc r =>
      obtain ⟨href, hattrs⟩ := attrs_ended_failed cfg session exc none hsession
      exact .inl ⟨session, rfl, rfl, href, hattrs⟩
  | @expired session exc n attempts r =>
      obtain ⟨href, hattrs⟩ := attrs_ended_failed cfg session exc attempts hsession
      exact .inl ⟨session, rfl, rfl, href, hattrs⟩

end PoetryGenerator
