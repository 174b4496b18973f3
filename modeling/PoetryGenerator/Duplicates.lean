/-
# How often an id is on the lists

The reconciler reads the two lists and then the database, the API commits a job
and then pushes its id, and these five operations may come in any order.  When
the reconciler reads the queue before the push and the database after the
commit, it pushes an id that the API pushes as well.

That is the only source of a second copy while nothing crashes and every Redis
command succeeds: an id is on the lists at most once more than the reconciler
pushed it (`copies_le`), the reconciler pushes it at most once in the whole run,
and never in a pass that began after the API pushed it (`Spared`).
-/

import PoetryGenerator.NoLoss

namespace PoetryGenerator

open Numerals

variable {cfg : Config} {w w' : World} {s s' : Sys} {l : Label} {t : JobType} {id : ℤ}

/-- The next operation is one on the database. -/
def Pc.atDb : Pc t → Bool
  | select .. | getJob .. | getAsset .. | commitMissing .. | commitRunning _ | commitFinal .. => true
  | _ => false

/-- Nothing crashes in this step, and its Redis command succeeds. -/
def Sys.healthy (s : Sys) : Label → Bool
  | .push _ r => r = .ok
  | .abandon _ | .replaceLists .. | .worker _ .kill => false
  | .worker t (.reply r) => (s.workers t).atDb || r = .ok
  | _ => true

theorem Sys.keepsLists_of_healthy (s : Sys) (h : s.healthy l = true) : l.keepsLists = true := by
  cases l <;> first | rfl | exact h

/-- The step is a push of the id by the reconciler. -/
def reconciles (t : JobType) (id : ℤ) (s : Sys) : Label → Sys → Bool
  | .worker u (.reply r), _ => u = t && r.takesEffect &&
    match s.workers t with
    | .reenqueue _ (i :: _) => i = id
    | _ => false
  | _, _ => false

/-! ### The reconciler spares what was pushed -/

/-- The pass under way, if there is one, will not push the id. -/
def Pc.Spares (w : World) (id : ℤ) : Pc t → Prop
  | readProcessing ph seen =>
    id ∈ w.db.jobIds t ph.statuses → id ∈ seen ∨ encodeInt id ∈ w.redis.processing t
  | select ph seen => id ∈ w.db.jobIds t ph.statuses → id ∈ seen
  | reenqueue _ ids => id ∉ ids
  | _ => True

/-- The id was pushed, and the pass under way will not push it. -/
structure Spared (s : Sys) (t : JobType) (id : ℤ) : Prop where
  pushed : id ∈ s.world.hist.pushed
  spares : (s.workers t).Spares s.world id

/-- The ids a pass pushes are distinct. -/
def Pc.Distinct : Pc t → Prop
  | reenqueue _ ids => ids.Nodup
  | _ => True

theorem Pc.distinct_raised (ph : Phase) : (raised ph : Pc t).Distinct := by cases ph <;> trivial

theorem Pc.distinct_reenqueueRest {ph : Phase} {ids : List ℤ} (h : ids.Nodup) :
    (reenqueueRest ph ids : Pc t).Distinct := by
  cases ids with
  | nil => trivial
  | cons => exact h

theorem Pc.spares_raised (ph : Phase) : (raised ph : Pc t).Spares w id := by cases ph <;> trivial

theorem Pc.spares_reenqueueRest {ph : Phase} {ids : List ℤ} (h : id ∉ ids) :
    (reenqueueRest ph ids : Pc t).Spares w id := by
  cases ids with
  | nil => trivial
  | cons => exact h

/-- The program counters outside a pass are the ones that hold nothing of it. -/
def Pc.inPass : Pc t → Bool
  | readProcessing .. | select .. | reenqueue .. => true
  | _ => false

theorem Pc.spares_of_inPass {pc : Pc t} (h : pc.inPass = false) : pc.Spares w id := by
  cases pc <;> trivial

theorem Pc.distinct_of_inPass {pc : Pc t} (h : pc.inPass = false) : pc.Distinct := by
  cases pc <;> trivial

/-- A worker outside a pass begins one by reading the queue. -/
theorem Performs.inPass {pc pc' : Pc t} {a : Act t} (h : Performs cfg t w pc a w' pc')
    (hpc : pc.inPass = false) : pc'.inPass = false ∨ ∃ ph, pc = .readQueue ph ∧ w' = w ∧
      pc' = .readProcessing ph (idsOf (w.redis.queue t)) := by
  have hraised : ∀ ph : Phase, (Pc.raised ph : Pc t).inPass = false := fun ph => by cases ph <;> rfl
  cases h with
  | @readQueue ph r =>
      split_ifs
      · exact .inr ⟨ph, rfl, rfl, rfl⟩
      · exact .inl (hraised ph)
  | reap | drained =>
      split_ifs
      · exact .inl rfl
      · exact .inl (hraised _)
  | readProcessing | select | selectRaised | reenqueue => cases hpc
  | @pop r raw =>
      rcases r with _ | (_ | _) | (_ | _)
      · simp only [Pc.popped]
        cases cfg.jobId raw <;> exact .inl rfl
      all_goals exact .inl rfl
  | @popEmpty r => rcases r with _ | (_ | _) | (_ | _) <;> exact .inl rfl
  | @getJob raw i r =>
      split_ifs
      · cases w.db.job i with
        | none => exact .inl rfl
        | some job =>
            simp only [Pc.gotJob]
            split_ifs <;> exact .inl rfl
      · exact .inl rfl
  | @getAsset raw i job r =>
      split_ifs
      · cases w.db.asset t job.refId <;> exact .inl rfl
      · exact .inl rfl
  | unsupported => cases t <;> exact .inl rfl
  | @commitFinal session e again r =>
      split_ifs
      · cases again <;> exact .inl rfl
      · exact .inl rfl
  | commitMissing | commitRunning | incr | requeue | ack | tick => split_ifs <;> exact .inl rfl
  | _ => exact .inl rfl

theorem Performs.distinct {pc pc' : Pc t} {a : Act t} (h : Performs cfg t w pc a w' pc')
    (hpc : pc.Distinct) : pc'.Distinct := by
  cases hin : pc.inPass with
  | false =>
      rcases h.inPass hin with hout | ⟨_, -, -, rfl⟩
      · exact Pc.distinct_of_inPass hout
      · trivial
  | true =>
      cases h with
      | select hp =>
          refine Pc.distinct_reenqueueRest (List.Nodup.filter _ (hp.nodup_iff.2 ?_))
          exact Table.nodup_selectKeys ..
      | selectRaised => exact Pc.distinct_raised _
      | reenqueue =>
          split_ifs
          · exact Pc.distinct_reenqueueRest (List.nodup_cons.1 hpc).2
          · exact Pc.distinct_raised _
      | readProcessing =>
          split_ifs
          · trivial
          · exact Pc.distinct_raised _
      | kill => trivial
      | _ => cases hin

/-- **A pushed id stays spared by its worker's own operations.** -/
theorem Performs.spares {pc pc' : Pc t} {a : Act t} (h : Performs cfg t w pc a w' pc') (hw : w.RowsOk)
    (hdel : ∀ id job, w.Waits id job → encodeInt id ∈ w.redis.entries job.type)
    (hp : id ∈ w.hist.pushed) (hs : pc.Spares w id) : pc'.Spares w' id := by
  cases hin : pc.inPass with
  | false =>
      rcases h.inPass hin with hout | ⟨ph, rfl, rfl, rfl⟩
      · exact Pc.spares_of_inPass hout
      · -- a selectable job waits, so its id is on the lists
        intro hsel
        obtain ⟨job, hj, rfl, hst⟩ := Db.mem_jobIds.1 hsel
        have hwaits : w'.Waits id job := by
          refine ⟨hj, ?_⟩
          cases ph <;> simp only [Phase.statuses, startupStatuses, maintenanceStatuses,
            List.mem_cons, List.not_mem_nil, or_false] at hst
          · exact hst.symm.imp_right fun hq => ⟨hq, hp⟩
          · exact .inr ⟨hst, hp⟩
        refine (List.mem_append.1 (hdel id job hwaits)).imp_left fun hq => ?_
        exact mem_idsOf.2 ⟨_, hq, denotes_encodeInt (hw.isKey_of_pushed hp)⟩
  | true =>
      cases h with
      | readProcessing =>
          split_ifs
          · intro hsel
            rw [List.mem_append]
            refine (hs hsel).imp_right fun hproc => ?_
            exact mem_idsOf.2 ⟨_, hproc, denotes_encodeInt (hw.isKey_of_pushed hp)⟩
          · exact Pc.spares_raised _
      | select hperm =>
          refine Pc.spares_reenqueueRest fun hmem => ?_
          obtain ⟨hmem, hnot⟩ := List.mem_filter.1 hmem
          rw [decide_eq_true_eq] at hnot
          exact hnot (hs (hperm.mem_iff.1 hmem))
      | selectRaised => exact Pc.spares_raised _
      | reenqueue =>
          split_ifs
          · exact Pc.spares_reenqueueRest fun hmem => hs (List.mem_cons_of_mem _ hmem)
          · exact Pc.spares_raised _
      | kill => trivial
      | _ => cases hin

/-- What others do leaves a spared id spared. -/
theorem Pc.Spares.keeps {pc : Pc t} (hs : pc.Spares w id) (hw : w.RowsOk) (hw' : w'.RowsOk)
    (hp : id ∈ w.hist.pushed) (hk : w.Keeps t w')
    (hproc : w'.redis.processing t = w.redis.processing t) : pc.Spares w' id := by
  have hsel : ∀ statuses, id ∈ w'.db.jobIds t statuses → id ∈ w.db.jobIds t statuses := by
    intro statuses hmem
    obtain ⟨job, hj, rfl, hst⟩ := Db.mem_jobIds.1 hmem
    obtain ⟨x, hx, rfl⟩ := hw.hist.pushed id hp
    have he := hw'.hist.jobs_id _ (hk.jobs hx) _ (hw'.job_known hj) rfl
    exact Db.mem_jobIds.2 ⟨job, hk.job (he ▸ hx) hj, rfl, hst⟩
  cases pc with
  | readProcessing ph seen => exact fun hmem => hproc ▸ hs (hsel _ hmem)
  | select ph seen => exact fun hmem => hs (hsel _ hmem)
  | reenqueue ph ids => exact hs
  | _ => trivial

/-- No id is taken back. -/
theorem Moves.pushed (h : Moves cfg s l s') (hs : s.Ok cfg) :
    s.world.hist.pushed ⊆ s'.world.hist.pushed := by
  have hpush : ∀ (r : Reply) (t : JobType) (i : ℤ),
      s.world.hist.pushed ⊆ (s.world.rpush r t i).hist.pushed := by
    intro r t i
    rw [World.pushed_rpush]
    split_ifs
    · exact List.subset_cons_self ..
    · exact List.Subset.refl _
  cases h with
  | push => exact hpush ..
  | deleteOp hi hd =>
      rw [(hd.ok hs.rows (hs.deletes _ (List.mem_of_getElem? hi))).2.1]
      exact List.Subset.refl _
  | @worker t a w pc hw =>
      have hsame : w.hist = s.world.hist → s.world.hist.pushed ⊆ w.hist.pushed :=
        fun he => he ▸ List.Subset.refl _
      cases hw.sends with
      | nothing _ hh => exact hsame hh
      | lists _ he => exact hsame (he ▸ World.hist_command ..)
      | count _ he => exact hsame (he ▸ World.hist_command ..)
      | push _ he => exact he ▸ hpush ..
  | _ => exact List.Subset.refl _

/-- What holds of every state of a run that keeps the lists. -/
structure Sys.Steady (cfg : Config) (s : Sys) : Prop where
  ok : s.Ok cfg
  delivers : s.Delivers
  distinct : ∀ t, (s.workers t).Distinct

theorem Sys.steady_init : Sys.init.Steady cfg := ⟨Sys.ok_init, Sys.delivers_init, fun _ => trivial⟩

theorem Moves.steady (h : Moves cfg s l s') (hkept : l.keepsLists = true) (hs : s.Steady cfg) :
    s'.Steady cfg where
  ok := h.ok hs.ok
  delivers := h.delivers hs.ok hkept hs.delivers
  distinct t := by
    rcases h.worker_cases t with ⟨a, -, hw⟩ | ⟨-, hsame⟩
    · exact hw.distinct (hs.distinct t)
    · rw [hsame]
      exact hs.distinct t

/-- **Step lemma.**  A spared id stays spared, and the step does not reconcile it. -/
theorem Spared.moves (hsp : Spared s t id) (hs : s.Steady cfg) (h : Moves cfg s l s')
    (hkept : l.keepsLists = true) : Spared s' t id ∧ reconciles t id s l s' = false := by
  have hpushed := h.pushed hs.ok hsp.pushed
  rcases h.worker_cases t with ⟨a, rfl, hw⟩ | ⟨hl, hsame⟩
  · refine ⟨⟨hpushed, hw.spares hs.ok.rows hs.delivers.jobs hsp.pushed hsp.spares⟩, ?_⟩
    have hspares := hsp.spares
    cases a with
    | reply r =>
        simp only [reconciles]
        split
        · rename_i i ids hpc
          rw [hpc] at hspares
          have hne : i ≠ id := fun he => hspares (he ▸ List.mem_cons_self ..)
          simp [hne]
        · simp
    | _ => rfl
  · refine ⟨⟨hpushed, ?_⟩, ?_⟩
    · rw [hsame]
      exact hsp.spares.keeps hs.ok.rows (h.ok hs.ok).rows hsp.pushed (h.keeps hs.ok hl)
        (h.feeds hs.ok hl hkept).processing
    · cases l with
      | worker u a =>
          have hu : u ≠ t := fun he => hl (he ▸ a) (by subst he; rfl)
          cases a <;> simp [reconciles, hu]
      | _ => rfl

/-- **After the reconciler pushed an id it spares it.** -/
theorem Moves.spared_of_reconciles (h : Moves cfg s l s') (hs : s.Steady cfg)
    (hre : reconciles t id s l s' = true) : Spared s' t id := by
  cases h with
  | @worker u a w pc hw =>
      cases a with
      | reply r =>
          simp only [reconciles, Bool.and_eq_true, decide_eq_true_eq] at hre
          obtain ⟨⟨rfl, hr⟩, hpc⟩ := hre
          split at hpc
          · rename_i i ids hpc'
            obtain rfl := of_decide_eq_true hpc
            have hdistinct := hs.distinct u
            rw [hpc'] at hw hdistinct
            cases hw with
            | reenqueue =>
                constructor
                · show i ∈ (s.world.rpush r u i).hist.pushed
                  rw [World.pushed_rpush, if_pos hr]
                  exact List.mem_cons_self ..
                · show (Function.update s.workers u _ u).Spares _ i
                  rw [Function.update_self]
                  split_ifs
                  · exact Pc.spares_reenqueueRest (List.nodup_cons.1 hdistinct).1
                  · exact Pc.spares_raised _
          · cases hpc
      | _ => cases hre
  | _ => cases hre

/-! ### Counting copies -/

/-- How often the id is on the lists of a type. -/
def Redis.copies (r : Redis) (t : JobType) (id : ℤ) : ℕ := (r.entries t).count (encodeInt id)

/-- How often an API request has the id still to push. -/
def Sys.unsent (s : Sys) (t : JobType) (id : ℤ) : ℕ := s.requests.flatten.count (t, id)

/-- One copy is about to be acknowledged. -/
def Pc.acking : Pc t → ℤ → ℕ
  | ack raw, id => if raw = encodeInt id then 1 else 0
  | _, _ => 0

theorem World.copies_rpush (w : World) (t u : JobType) (i id : ℤ) :
    (w.rpush .ok u i).redis.copies t id =
      w.redis.copies t id + if u = t ∧ i = id then 1 else 0 := by
  rw [Redis.copies, Redis.entries, World.queue_rpush, World.processing_rpush, Redis.copies,
    Redis.entries]
  by_cases hu : t = u
  · subst hu
    rw [if_pos ⟨rfl, rfl⟩, List.count_append, List.count_append, List.count_append]
    by_cases hi : i = id
    · subst hi
      simp
      omega
    · have hne : encodeInt i ≠ encodeInt id := fun he => hi (encodeInt_injective he)
      simp [hi, hne]
  · rw [if_neg fun h => hu h.2, if_neg fun h => hu h.1.symm, Nat.add_zero]

/-- A request that pushes its next id has it no longer to push. -/
theorem count_flatten_set {α : Type} [BEq α] {ls : List (List α)} {i : ℕ} {x y : α}
    {rest : List α} (h : ls[i]? = some (x :: rest)) :
    ls.flatten.count y = (ls.set i rest).flatten.count y + if x == y then 1 else 0 := by
  induction ls generalizing i with
  | nil => cases h
  | cons l ls ih =>
      cases i with
      | zero =>
          obtain rfl := Option.some.inj h
          rw [List.set_cons_zero, List.flatten_cons, List.flatten_cons, List.count_append,
            List.count_append, List.count_cons]
          omega
      | succ i =>
          rw [List.set_cons_succ, List.flatten_cons, List.flatten_cons, List.count_append,
            List.count_append, ih h]
          omega

/-- A job id is created once, so a new request has it to push once. -/
theorem count_persistPoem_le (db : Db) (a : PersistArgs) (ids : NewIds) (x : JobType × ℤ) :
    (persistPoem db a ids).2.count x ≤ 1 := by
  refine List.nodup_iff_count_le_one.1 ?_ x
  rw [persistPoem]
  refine List.Nodup.map (fun t u he => (Prod.mk.inj he).1) (List.Nodup.filter _ ?_)
  decide

/-- An id no job was created with is nowhere. -/
theorem Sys.Ok.copies_of_not_created (hs : s.Ok cfg) (h : ¬ s.world.Created t id) :
    s.world.redis.copies t id = 0 ∧ s.unsent t id = 0 := by
  rw [Redis.copies, Sys.unsent, List.count_eq_zero, List.count_eq_zero]
  refine ⟨fun hmem => ?_, fun hmem => ?_⟩
  · obtain ⟨id', hc, he⟩ := World.typed_iff.1 (hs.lists t) _ hmem
    exact h (encodeInt_injective he ▸ hc)
  · obtain ⟨request, hr, hx⟩ := List.mem_flatten.1 hmem
    exact h (hs.requests request hr _ hx)

/-- The reconciler is about to push the id. -/
def Pc.reconciling : Pc t → ℤ → ℕ
  | reenqueue _ (i :: _), id => if i = id then 1 else 0
  | _, _ => 0

/-- **Copies in an operation of the worker** that succeeds: only a push adds one,
and a retry's push is made up for by the acknowledgement that follows. -/
theorem Performs.copies {pc pc' : Pc t} {a : Act t} (h : Performs cfg t w pc a w' pc') (id : ℤ)
    (hpc : pc.Ok cfg w) (hp : pc.Parked w) (hkill : a ≠ .kill)
    (hreply : ∀ r, a = .reply r → pc.atDb = true ∨ r = .ok) :
    w'.redis.copies t id + pc.acking id ≤
      w.redis.copies t id + pc.reconciling id + pc'.acking id := by
  have hsame : ∀ {n : ℕ}, w'.redis = w.redis →
      w'.redis.copies t id + 0 ≤ w.redis.copies t id + 0 + n := fun he => by rw [he]; omega
  have hperm : ∀ {n : ℕ} (q p : List Raw), (q ++ p).Perm (w.redis.entries t) →
      (w.redis.setLists t q p).copies t id + 0 ≤ w.redis.copies t id + 0 + n := by
    intro n q p hperm
    have hcount := hperm.count_eq (encodeInt id)
    simp only [Redis.copies, Redis.entries, Redis.queue_setLists, Redis.processing_setLists]
      at hcount ⊢
    omega
  cases h with
  | kill => exact absurd rfl hkill
  | @reap ph r raw rest hproc =>
      obtain rfl := (hreply r rfl).resolve_left Bool.false_ne_true
      refine hperm _ _ ?_
      rw [Redis.entries, hproc]
      exact List.perm_middle.symm
  | @pop r raw rest hq =>
      obtain rfl := (hreply r rfl).resolve_left Bool.false_ne_true
      refine hperm _ _ ?_
      rw [Redis.entries, hq, List.cons_append, ← List.append_assoc]
      exact (List.perm_append_singleton ..)
  | @incr session exc r =>
      obtain rfl := (hreply r rfl).resolve_left Bool.false_ne_true
      show w.redis.copies t id + 0 ≤ w.redis.copies t id + 0 + _
      omega
  | @reenqueue ph i ids r =>
      obtain rfl := (hreply r rfl).resolve_left Bool.false_ne_true
      rw [World.copies_rpush]
      simp only [Pc.acking, Pc.reconciling, true_and]
      omega
  | @requeue raw i r =>
      obtain rfl := (hreply r rfl).resolve_left Bool.false_ne_true
      obtain ⟨rfl, -⟩ := hpc
      rw [World.copies_rpush, if_pos rfl]
      simp only [Pc.acking, Pc.reconciling, true_and, encodeInt_injective.eq_iff]
      omega
  | @ack raw r =>
      obtain rfl := (hreply r rfl).resolve_left Bool.false_ne_true
      show (w.redis.lrem t raw).copies t id + _ ≤ _
      simp only [Redis.copies, Redis.entries, Redis.queue_lrem, Redis.processing_lrem,
        List.count_append, List.count_erase, Pc.acking, beq_iff_eq]
      split_ifs with hraw
      · have hmem : 0 < (w.redis.processing t).count (encodeInt id) :=
          List.count_pos_iff.2 (hraw ▸ hp.inHand raw rfl)
        omega
      · omega
  | commitMissing | commitRunning | commitFinal => exact hsame (World.redis_commit ..)
  | _ => exact hsame rfl

theorem Performs.reconciling_eq {a : Act t} {pc : Pc t}
    (h : Performs cfg t s.world (s.workers t) a w pc) (s' : Sys) (hkill : a ≠ .kill)
    (hreply : ∀ r, a = .reply r → (s.workers t).atDb = true ∨ r = .ok) :
    (s.workers t).reconciling id = (reconciles t id s (.worker t a) s').toNat := by
  cases hpc : s.workers t with
  | reenqueue ph ids =>
      rw [hpc] at h hreply
      cases h with
      | kill => exact absurd rfl hkill
      | @reenqueue _ i ids r =>
          obtain rfl := (hreply r rfl).resolve_left Bool.false_ne_true
          simp only [reconciles, hpc, Pc.reconciling]
          by_cases hi : i = id <;> simp [hi, Reply.takesEffect]
  | _ => cases a <;> simp [reconciles, hpc, Pc.reconciling]

/-- **Step lemma.**  Copies and unsent ids, in a step in which nothing crashes and
the Redis command succeeds. -/
theorem Moves.copies {n : ℕ} (h : Moves cfg s l s') (hs : s.Steady cfg) (hl : s.healthy l = true)
    (hn : s.world.redis.copies t id + s.unsent t id ≤ 1 + n + (s.workers t).acking id) :
    s'.world.redis.copies t id + s'.unsent t id ≤
      1 + (n + (reconciles t id s l s').toNat) + (s'.workers t).acking id := by
  cases h with
  | @persist a ids r hf hr =>
      by_cases hmem : (t, id) ∈ (persistPoem s.world.db a ids).2
      · -- the id is new, so there is no copy of it yet
        obtain ⟨-, rfl⟩ := mem_persistPoem_jobs.1 hmem
        have hnew : ¬ s.world.Created t (ids.job t) := fun ⟨_, hx⟩ => (hf.2.2 t _ hx).1 rfl
        obtain ⟨hcopies, hunsent⟩ := hs.ok.copies_of_not_created hnew
        have hone := count_persistPoem_le s.world.db a ids (t, ids.job t)
        show s.world.redis.copies t (ids.job t) + Sys.unsent _ t (ids.job t) ≤ _
        rw [Sys.unsent] at hunsent ⊢
        dsimp only
        split_ifs
        · rw [List.flatten_append, List.count_append, List.flatten_singleton]
          omega
        · omega
      · have hzero := List.count_eq_zero.2 hmem
        show s.world.redis.copies t id + Sys.unsent _ t id ≤ 1 + (n + 0) + (s.workers t).acking id
        rw [Sys.unsent] at hn ⊢
        dsimp only
        split_ifs
        · rw [List.flatten_append, List.count_append, List.flatten_singleton]
          omega
        · omega
  | @push i r u id' rest hi =>
      obtain rfl : r = .ok := of_decide_eq_true hl
      show (s.world.rpush .ok u id').redis.copies t id + (s.requests.set i rest).flatten.count (t, id)
        ≤ 1 + (n + 0) + (s.workers t).acking id
      have hflat := count_flatten_set (y := (t, id)) hi
      rw [World.copies_rpush]
      rw [Sys.unsent] at hn
      simp only [beq_iff_eq, Prod.mk.injEq] at hflat
      omega
  | abandon | replaceLists => cases hl
  | deleteOp hi hd =>
      have hredis := (hd.ok hs.ok.rows (hs.ok.deletes _ (List.mem_of_getElem? hi))).1
      show (World.redis _).copies t id + s.unsent t id ≤ 1 + (n + 0) + (s.workers t).acking id
      rw [hredis]
      exact hn
  | @worker u a w pc hw =>
      show w.redis.copies t id + s.unsent t id ≤
        1 + (n + _) + (Function.update s.workers u pc t).acking id
      have hkill : a ≠ .kill := by rintro rfl; cases hl
      have hreply : ∀ r, a = .reply r → (s.workers u).atDb = true ∨ r = .ok := by
        rintro r rfl
        simpa [Sys.healthy] using hl
      by_cases hu : t = u
      · subst hu
        rw [Function.update_self]
        have hstep := hw.copies id (hs.ok.workers t) (hs.delivers.workers t) hkill hreply
        rw [hw.reconciling_eq { s with world := w, workers := Function.update s.workers t pc } hkill
          hreply] at hstep
        omega
      · rw [Function.update_of_ne hu]
        obtain ⟨hq, hp⟩ := hw.lists_other hu
        rw [Redis.copies, Redis.entries, hq, hp]
        exact hn.trans (by omega)
  | _ => exact hn

/-! ### Runs -/

theorem steady_of_run {ls : List Label} (hr : run cfg Sys.init ls = some s)
    (hkept : Runs.Along (step cfg) (fun _ l => l.keepsLists = true) Sys.init ls) : s.Steady cfg :=
  Runs.run_invariant (fun _ _ _ hI hl h => (moves_of_step h).steady hl hI) Sys.steady_init hkept hr

/-- A spared id is not reconciled in any continuation that keeps the lists. -/
theorem Spared.countRun_eq_zero {ls : List Label} (hsp : Spared s t id) (hs : s.Steady cfg)
    (hkept : Runs.Along (step cfg) (fun _ l => l.keepsLists = true) s ls)
    (hr : run cfg s ls = some s') : Runs.countRun (step cfg) (reconciles t id) s ls = 0 := by
  refine (Runs.countRun_invariant (J := fun n s => n = 0 ∧ s.Steady cfg ∧ Spared s t id)
    (fun n s l s' hJ hl h => ?_) ⟨rfl, hs, hsp⟩ hkept hr).1
  obtain ⟨rfl, hs, hsp⟩ := hJ
  have hm := moves_of_step h
  obtain ⟨hsp', hre⟩ := hsp.moves hs hm hl
  exact ⟨by rw [hre]; rfl, hm.steady hl hs, hsp'⟩

/-- The reconciler pushes an id at most once in a run that keeps the lists. -/
theorem reconciles_le_one {ls : List Label} (hr : run cfg Sys.init ls = some s)
    (hkept : Runs.Along (step cfg) (fun _ l => l.keepsLists = true) Sys.init ls) (t : JobType)
    (id : ℤ) : Runs.countRun (step cfg) (reconciles t id) Sys.init ls ≤ 1 := by
  have hJ := Runs.countRun_invariant (p := reconciles t id)
    (J := fun n s => s.Steady cfg ∧ (n = 0 ∨ n = 1 ∧ Spared s t id))
    (fun n s l s' hJ hl h => ?_) ⟨Sys.steady_init, .inl rfl⟩ hkept hr
  · omega
  · have hm := moves_of_step h
    refine ⟨hm.steady hl hJ.1, ?_⟩
    rcases hJ.2 with rfl | ⟨rfl, hsp⟩
    · cases hre : reconciles t id s l s' with
      | false => exact .inl rfl
      | true => exact .inr ⟨rfl, hm.spared_of_reconciles hJ.1 hre⟩
    · obtain ⟨hsp', hre⟩ := hsp.moves hJ.1 hm hl
      exact .inr ⟨by rw [hre]; rfl, hsp'⟩

/-- **Copies in a run** in which nothing crashes and every Redis command
succeeds, between two iterations of the worker's loop. -/
theorem copies_le {ls : List Label} (hr : run cfg Sys.init ls = some s)
    (hhealthy : Runs.Along (step cfg) (fun s l => s.healthy l = true) Sys.init ls)
    (hpop : s.workers t = .pop) (id : ℤ) :
    s.world.redis.copies t id ≤ 1 + Runs.countRun (step cfg) (reconciles t id) Sys.init ls := by
  have hinit : Sys.init.world.redis.copies t id + Sys.init.unsent t id ≤
      1 + 0 + (Sys.init.workers t).acking id := Nat.zero_le _
  have hJ := (Runs.countRun_invariant (p := reconciles t id)
    (J := fun n s => s.Steady cfg ∧
      s.world.redis.copies t id + s.unsent t id ≤ 1 + n + (s.workers t).acking id)
    (fun n s l s' hJ hl h => ⟨(moves_of_step h).steady (s.keepsLists_of_healthy hl) hJ.1,
      (moves_of_step h).copies hJ.1 hl hJ.2⟩) ⟨Sys.steady_init, hinit⟩ hhealthy hr).2
  rw [hpop] at hJ
  exact (Nat.le_add_right _ _).trans hJ

/-- A job id on the queue twice, with nothing crashed and no command failed: the
API commits the job, the worker's startup pass finds it in the database and not
in Redis and pushes it, and then the API pushes it. -/
theorem recovery_duplicates : ∃ s, run (Sample.config 1) Sys.init Sample.raced = some s ∧
    Runs.Along (step (Sample.config 1)) (fun s l => s.healthy l = true) Sys.init Sample.raced ∧
    s.workers .image = .pop ∧
    (s.world.redis.queue .image ++ s.world.redis.processing .image).count (encodeInt 1) = 2 :=
  ⟨_, rfl, by decide, rfl, by decide⟩

/-- **How often recovery duplicates a healthy job.**  While nothing crashes and
every Redis command succeeds, between two iterations of the worker's loop an id
is on the lists at most once more than the reconciler has pushed it; the
reconciler pushes it at most once; and after the API has pushed it, no pass that
begins later pushes it. -/
theorem copies_of_run {ls : List Label} (hr : run cfg Sys.init ls = some s)
    (hhealthy : Runs.Along (step cfg) (fun s l => s.healthy l = true) Sys.init ls) (t : JobType)
    (id : ℤ) :
    (s.workers t = .pop → (s.world.redis.queue t ++ s.world.redis.processing t).count (encodeInt id) ≤
      1 + Runs.countRun (step cfg) (reconciles t id) Sys.init ls) ∧
    Runs.countRun (step cfg) (reconciles t id) Sys.init ls ≤ 1 ∧
    (id ∈ s.world.hist.pushed → (s.workers t).inPass = false → ∀ ls' s', run cfg s ls' = some s' →
      Runs.Along (step cfg) (fun s l => s.healthy l = true) s ls' →
        Runs.countRun (step cfg) (reconciles t id) s ls' = 0) := by
  have hkept : ∀ {s₀ ls₀}, Runs.Along (step cfg) (fun s l => s.healthy l = true) s₀ ls₀ →
      Runs.Along (step cfg) (fun _ l => l.keepsLists = true) s₀ ls₀ := fun h =>
    h.mono fun s _ => s.keepsLists_of_healthy
  refine ⟨fun hpop => copies_le hr hhealthy hpop id, reconciles_le_one hr (hkept hhealthy) t id,
    fun hpushed hpass ls' s' hr' hhealthy' => ?_⟩
  have hsp : Spared s t id := ⟨hpushed, Pc.spares_of_inPass hpass⟩
  exact hsp.countRun_eq_zero (steady_of_run hr (hkept hhealthy)) (hkept hhealthy') hr'

/-- The raced job: two copies, and one push of the reconciler. -/
theorem copies_of_run_raced : ∃ s, run (Sample.config 1) Sys.init Sample.raced = some s ∧
    s.workers .image = .pop ∧
    (s.world.redis.queue .image ++ s.world.redis.processing .image).count (encodeInt 1) ≤
      1 + Runs.countRun (step (Sample.config 1)) (reconciles .image 1) Sys.init Sample.raced ∧
    Runs.countRun (step (Sample.config 1)) (reconciles .image 1) Sys.init Sample.raced ≤ 1 := by
  have hraced : ∃ s, run (Sample.config 1) Sys.init Sample.raced = some s ∧
      s.workers .image = .pop := ⟨_, rfl, rfl⟩
  obtain ⟨s, hr, hpop⟩ := hraced
  obtain ⟨hcopies, hone, -⟩ := copies_of_run hr (by decide) .image 1
  exact ⟨s, hr, hpop, hcopies hpop, hone⟩

end PoetryGenerator
