import Dagger.TimeWheeling

/-! # References to connections

The wheel, its tasks and the owner's thread all release connections.  A connection is kept
alive by one reference: it is in the wheel, or a task for it is decided or queued (`refs`); `delete`
takes the reference.

`Owned` is the invariant of the runs in which no owner destroys a connection that the wheel is
evicting.  It is shown here to survive the steps of the main thread, and the changes that others
make to a loop or to a connection. -/

namespace Dagger

open TcpConnection Transition

namespace TimerWheelingPolicy

variable {ι : Type} (w : TimerWheelingPolicy ι)

/-- The bucket that is checked is not the one that is filled. -/
theorem checkIndex_ne : w.checkIndex ≠ w.curBucketIndex := by
  intro h
  have hv := congrArg Fin.val h
  have hlt := w.curBucketIndex.isLt
  simp only [checkIndex, MAX_IDLE_SECONDS] at hv hlt
  omega

theorem checkIndex_congr {w w' : TimerWheelingPolicy ι}
    (h : w.curBucketIndex = w'.curBucketIndex) : w.checkIndex = w'.checkIndex := by
  apply Fin.ext
  simp only [checkIndex, h]

/-- The bucket that is filled now is checked next time. -/
theorem checkIndex_timeElasped : w.timeElasped.checkIndex = w.curBucketIndex := by
  apply Fin.ext
  have hlt := w.curBucketIndex.isLt
  simp only [checkIndex, timeElasped, MAX_IDLE_SECONDS] at hlt ⊢
  omega

theorem curBucketIndex_timeElasped_ne : w.timeElasped.curBucketIndex ≠ w.curBucketIndex := by
  intro h
  have hv := congrArg Fin.val h
  have hlt := w.curBucketIndex.isLt
  simp only [timeElasped, MAX_IDLE_SECONDS] at hv hlt
  omega

theorem wheeling_addNewConnection_self (c : ι) :
    (w.addNewConnection c).wheeling w.curBucketIndex = w.wheeling w.curBucketIndex ++ [c] := by
  simp only [addNewConnection, Function.update_self]

theorem wheeling_addNewConnection (c : ι) {b : Fin MAX_IDLE_SECONDS} (h : b ≠ w.curBucketIndex) :
    (w.addNewConnection c).wheeling b = w.wheeling b := by
  simp only [addNewConnection, Function.update_of_ne h]

theorem wheeling_filled : w.clear.timeElasped.wheeling w.curBucketIndex =
    w.wheeling w.curBucketIndex := by
  show Function.update w.wheeling w.checkIndex [] w.curBucketIndex = _
  rw [Function.update_of_ne w.checkIndex_ne.symm]

/-- After the check all connections are in the bucket that was filled. -/
theorem wheeling_empty {b : Fin MAX_IDLE_SECONDS}
    (h : ∀ b, b ≠ w.curBucketIndex → b ≠ w.checkIndex → w.wheeling b = [])
    (hb : b ≠ w.curBucketIndex) : w.clear.timeElasped.wheeling b = [] := by
  show Function.update w.wheeling w.checkIndex [] b = []
  by_cases hc : b = w.checkIndex
  · subst hc
    exact Function.update_self _ _ _
  · rw [Function.update_of_ne hc]
    exact h b hb hc

end TimerWheelingPolicy

namespace IdleConnectionsManager

variable {ι : Type} [DecidableEq ι] (s : IdleConnectionsManager ι)

/-- The connections of the bucket that are still to be looked at, or being looked at. -/
def mainRefs : List ι :=
  match s.main with
  | .idle => s.wheelPolicy.wheeling s.wheelPolicy.checkIndex
  | .scan rest => rest
  | .notClosed c rest => c :: rest
  | .established c rest => c :: rest
  | .decided task rest => task.conn :: rest

def wheelRefs : List ι := s.mainRefs ++ s.wheelPolicy.wheeling s.wheelPolicy.curBucketIndex

def taskRefs (l : LoopId) : List ι := (s.loops l).queued.map Task.conn

/-- How often `c` is in the wheel or has a task. -/
def refs (c : ι) : ℕ := s.wheelRefs.count c + (s.taskRefs (s.conns c).loop).count c

/-- `task` will be run. -/
def Due (task : Task ι) : Prop :=
  (∃ rest, s.main = .decided task rest) ∨ ∃ l, task ∈ (s.loops l).queued

/-- The wheel is evicting `c`. -/
def Evicting (c : ι) : Prop :=
  (∃ rest, s.main = .established c rest ∧ s.isIdle c = true) ∨ s.Due (.destoryThenDeleteConn c)

/-- No connection is destroyed by a step of its owner while the wheel is evicting it. -/
def SparesEvicting : Act ι → Prop
  | .event l script write => ∀ c revents batch,
      (s.loops l).pc = .handling ((c, revents) :: batch) →
        TcpServer.Destroys { conn := s.conns c } (.event revents s.timeInProcess script write) →
          ¬ s.Evicting c
  | .activeClose l => ∀ c batch, (s.loops l).pc = .callback c batch →
      TcpServer.Destroys { conn := s.conns c } .activeClose → ¬ s.Evicting c
  | _ => True

/-- What the counters of a connection say about each other and about its state. -/
structure Sound (c : TcpConnection) : Prop where
  state : c.state = if c.destroys = 0 then .ESTABLISHED else .CLOSED
  once : c.destroys ≤ 1
  deleted : 0 < c.deletes → 0 < c.destroys

theorem Sound.of_closed {c : TcpConnection} (h : Sound c) (hs : c.state = .CLOSED) :
    0 < c.destroys := by
  have hst := h.state
  rw [hs] at hst
  split_ifs at hst with hd
  omega

theorem Sound.of_established {c : TcpConnection} (h : Sound c) (hs : c.state = .ESTABLISHED) :
    c.destroys = 0 := by
  have hst := h.state
  rw [hs] at hst
  split_ifs at hst with hd
  exact hd

structure Owned : Prop where
  fault : s.fault = false
  wired : ∀ c, s.accepted c = true → (s.conns c).Wired
  sound : ∀ c, Sound (s.conns c)
  token : ∀ c, s.refs c + (s.conns c).deletes ≤ (s.accepted c).toNat
  queued : ∀ l task, task ∈ (s.loops l).queued →
    s.accepted task.conn = true ∧ (s.conns task.conn).loop = l
  deletes : ∀ c, s.Due (.deleteConn c) → 0 < (s.conns c).destroys
  evicts : ∀ c, s.Due (.destoryThenDeleteConn c) → (s.conns c).destroys = 0
  established : ∀ c rest, s.main = .established c rest →
    (s.conns c).destroys = 0 ∨ s.isIdle c = false
  batch : ∀ l c revents, (c, revents) ∈ (s.loops l).pc.batch →
    s.accepted c = true ∧ (s.conns c).loop = l ∧ (s.conns c).destroys = 0
  nodup : ∀ l, ((s.loops l).pc.batch.map Prod.fst).Nodup
  callback : ∀ l c batch, (s.loops l).pc = .callback c batch →
    s.accepted c = true ∧ (s.conns c).loop = l ∧ c ∉ batch.map Prod.fst
  buckets : ∀ b, b ≠ s.wheelPolicy.curBucketIndex → b ≠ s.wheelPolicy.checkIndex →
    s.wheelPolicy.wheeling b = []

variable {s} {t : IdleConnectionsManager ι} {c : ι} {l : LoopId} {conn : TcpConnection}

/-! ### What the invariant gives -/

theorem refs_pos_of_mem_wheelRefs (h : c ∈ s.wheelRefs) : 0 < s.refs c := by
  have hc := List.count_pos_iff.mpr h
  unfold refs
  omega

/-- A connection with a reference is accepted, and not deleted. -/
theorem Owned.of_refs_pos (h : s.Owned) (hc : 0 < s.refs c) :
    s.refs c = 1 ∧ (s.conns c).deletes = 0 ∧ s.accepted c = true := by
  have ht := h.token c
  have ha : (s.accepted c).toNat ≤ 1 := Bool.toNat_le _
  refine ⟨by omega, by omega, ?_⟩
  by_contra hn
  rw [Bool.not_eq_true] at hn
  rw [hn] at ht
  simp only [Bool.toNat_false] at ht
  omega

theorem Owned.of_mainRefs (h : s.Owned) (hc : c ∈ s.mainRefs) : (s.conns c).deletes = 0 :=
  (h.of_refs_pos (refs_pos_of_mem_wheelRefs (List.mem_append_left _ hc))).2.1

omit [DecidableEq ι] in
theorem mem_mainRefs_of_established {rest : List ι} (h : s.main = .established c rest) :
    c ∈ s.mainRefs := by
  unfold mainRefs
  rw [h]
  exact List.mem_cons_self

omit [DecidableEq ι] in
theorem mem_mainRefs_of_decided {task : Task ι} {rest : List ι} (h : s.main = .decided task rest) :
    task.conn ∈ s.mainRefs := by
  unfold mainRefs
  rw [h]
  exact List.mem_cons_self

theorem refs_pos_of_due {task : Task ι}
    (hq : ∀ l, task ∈ (s.loops l).queued → (s.conns task.conn).loop = l) (h : s.Due task) :
    0 < s.refs task.conn := by
  rcases h with ⟨rest, hm⟩ | ⟨l, hl⟩
  · apply refs_pos_of_mem_wheelRefs
    exact List.mem_append_left _ (mem_mainRefs_of_decided hm)
  · have hmem : task.conn ∈ s.taskRefs (s.conns task.conn).loop := by
      rw [hq l hl]
      exact List.mem_map_of_mem hl
    have hc := List.count_pos_iff.mpr hmem
    unfold refs
    omega

theorem Owned.not_deleted (h : s.Owned) (hd : (s.conns c).destroys = 0) :
    (s.conns c).deletes = 0 := by
  have hs := (h.sound c).deleted
  omega

/-! ### The wheel -/

theorem use_of_mem (h : s.Owned) (hc : c ∈ s.mainRefs) (t : IdleConnectionsManager ι) :
    s.use c t = t := by
  have hd := h.of_mainRefs hc
  unfold use
  rw [if_neg (by omega)]

/-- Steps of the main thread that touch neither connections nor loops. -/
theorem Owned.setMain (h : s.Owned) {time : UInt32} {w : TimerWheelingPolicy ι} {main : WheelPc ι}
    (ht : t = { s with timeInProcess := time, wheelPolicy := w, main })
    (hrefs : ∀ c, t.wheelRefs.count c ≤ s.wheelRefs.count c)
    (hbuckets : ∀ b, b ≠ w.curBucketIndex → b ≠ w.checkIndex → w.wheeling b = [])
    (hdelete : ∀ c rest, main = .decided (.deleteConn c) rest → 0 < (s.conns c).destroys)
    (hevict : ∀ c rest, main = .decided (.destoryThenDeleteConn c) rest →
      (s.conns c).destroys = 0)
    (hest : ∀ c rest, main = .established c rest →
      (s.conns c).destroys = 0 ∨ t.isIdle c = false) : t.Owned := by
  subst ht
  refine ⟨h.fault, h.wired, h.sound, fun c => ?_, h.queued, ?_, ?_, hest, h.batch, h.nodup,
    h.callback, hbuckets⟩
  · exact (Nat.add_le_add_right (Nat.add_le_add_right (hrefs c) _) _).trans (h.token c)
  · rintro c (⟨rest, hm⟩ | hq)
    · exact hdelete c rest hm
    · exact h.deletes c (Or.inr hq)
  · rintro c (⟨rest, hm⟩ | hq)
    · exact hevict c rest hm
    · exact h.evicts c (Or.inr hq)

omit [DecidableEq ι] in
theorem queued_runInLoop (task : Task ι) (l' : LoopId) :
    ((s.runInLoop l task).loops l').queued =
      (s.loops l').queued ++ if l' = l then [task] else [] := by
  unfold runInLoop OwnerLoop.queued
  by_cases hl : l' = l
  · subst hl
    simp
  · simp [hl]

omit [DecidableEq ι] in
theorem pc_runInLoop (task : Task ι) (l' : LoopId) :
    ((s.runInLoop l task).loops l').pc = (s.loops l').pc := by
  unfold runInLoop
  by_cases hl : l' = l
  · subst hl
    simp
  · simp [hl]

/-- The reference to a connection moves from the wheel to its owner's queue. -/
theorem Owned.enqueue (h : s.Owned) {task : Task ι} {rest : List ι}
    (hm : s.main = .decided task rest) (hl : (s.conns task.conn).loop = l) :
    Owned { s.runInLoop l task with main := .scan rest } := by
  have hmain := mem_mainRefs_of_decided hm
  have hacc := (h.of_refs_pos (refs_pos_of_mem_wheelRefs (List.mem_append_left _ hmain))).2.2
  have hdue : ∀ task', Due { s.runInLoop l task with main := .scan rest } task' →
      s.Due task' := by
    rintro task' (⟨rest', hr⟩ | ⟨l', hq⟩)
    · cases hr
    · have hq : task' ∈ ((s.runInLoop l task).loops l').queued := hq
      rw [queued_runInLoop, List.mem_append] at hq
      rcases hq with hq | hq
      · exact Or.inr ⟨l', hq⟩
      · split_ifs at hq
        · rw [List.mem_singleton.mp hq]
          exact Or.inl ⟨rest, hm⟩
        · cases hq
  refine ⟨h.fault, h.wired, h.sound, fun c => ?_, fun l' task' hq => ?_,
    fun c hd => h.deletes c (hdue _ hd), fun c hd => h.evicts c (hdue _ hd), nofun,
    fun l' c revents hb => ?_, fun l' => ?_, fun l' c batch hc => ?_, h.buckets⟩
  · refine Nat.le_trans (Nat.add_le_add_right ?_ _) (h.token c)
    -- the connection of the task leaves the wheel as it enters the queue
    show (rest ++ s.wheelPolicy.wheeling s.wheelPolicy.curBucketIndex).count c +
      (((s.runInLoop l task).loops (s.conns c).loop).queued.map Task.conn).count c ≤ s.refs c
    unfold refs wheelRefs mainRefs taskRefs
    rw [hm, queued_runInLoop]
    simp only [List.map_append, List.count_append, List.count_cons, List.cons_append]
    by_cases hc : task.conn = c
    · subst hc
      simp only [hl, if_true, List.map_cons, List.map_nil, List.count_cons, List.count_nil,
        beq_self_eq_true]
      omega
    · have hbeq : (task.conn == c) = false := beq_eq_false_iff_ne.mpr hc
      have hnone :
          (List.map Task.conn (if (s.conns c).loop = l then [task] else [])).count c = 0 := by
        split_ifs
        · exact List.count_eq_zero.mpr fun hin => hc (List.mem_singleton.mp hin).symm
        · rfl
      simp only [hnone, hbeq, Bool.false_eq_true, if_false]
      omega
  · have hq : task' ∈ ((s.runInLoop l task).loops l').queued := hq
    rw [queued_runInLoop, List.mem_append] at hq
    rcases hq with hq | hq
    · exact h.queued l' task' hq
    · split_ifs at hq with hl'
      · rw [List.mem_singleton.mp hq, hl']
        exact ⟨hacc, hl⟩
      · cases hq
  · have hb : (c, revents) ∈ ((s.runInLoop l task).loops l').pc.batch := hb
    rw [pc_runInLoop] at hb
    exact h.batch l' c revents hb
  · show (((s.runInLoop l task).loops l').pc.batch.map Prod.fst).Nodup
    rw [pc_runInLoop]
    exact h.nodup l'
  · have hc : ((s.runInLoop l task).loops l').pc = .callback c batch := hc
    rw [pc_runInLoop] at hc
    exact h.callback l' c batch hc

theorem owned_decided {task : Task ι} {rest : List ι} (h : s.Owned)
    (hm : s.main = .decided task rest) (hs : s.wheelStep = some t) : t.Owned := by
  simp only [wheelStep, hm, use_of_mem h (mem_mainRefs_of_decided hm)] at hs
  obtain rfl := Option.some.inj hs
  exact h.enqueue hm rfl

theorem owned_notClosed {rest : List ι} (h : s.Owned) (hm : s.main = .notClosed c rest)
    (hs : s.wheelStep = some t) : t.Owned := by
  have hmem : c ∈ s.mainRefs := by
    unfold mainRefs
    rw [hm]
    exact List.mem_cons_self
  simp only [wheelStep, hm, use_of_mem h hmem] at hs
  obtain rfl := Option.some.inj hs
  refine h.setMain rfl (fun c' => ?_) h.buckets ?_ ?_ ?_
  · unfold wheelRefs mainRefs
    rw [hm]
    split_ifs
    · exact Nat.le_refl _
    · simp only [List.count_append, List.count_cons]
      omega
  · intro c' rest' hd
    split_ifs at hd
  · intro c' rest' hd
    split_ifs at hd
  · intro c' rest' he
    split_ifs at he with hst
    obtain ⟨rfl, -⟩ := WheelPc.established.inj he
    exact Or.inl ((h.sound c).of_established hst)

theorem owned_established {rest : List ι} (h : s.Owned) (hm : s.main = .established c rest)
    (hs : s.wheelStep = some t) : t.Owned := by
  simp only [wheelStep, hm, use_of_mem h (mem_mainRefs_of_established hm)] at hs
  obtain rfl := Option.some.inj hs
  split_ifs with hidle
  · refine h.setMain rfl (fun c' => ?_) h.buckets nofun ?_ nofun
    · unfold wheelRefs mainRefs
      rw [hm]
      exact Nat.le_refl _
    · intro c' rest' he
      obtain ⟨he, -⟩ := WheelPc.decided.inj he
      obtain rfl := Task.destoryThenDeleteConn.inj he
      apply (h.established c rest hm).resolve_right
      rw [hidle]
      exact nofun
  · refine h.setMain rfl (fun c' => ?_) ?_ nofun nofun nofun
    · unfold wheelRefs mainRefs
      rw [hm]
      dsimp only
      have hcur : (s.wheelPolicy.addNewConnection c).curBucketIndex =
          s.wheelPolicy.curBucketIndex := rfl
      rw [hcur, TimerWheelingPolicy.wheeling_addNewConnection_self]
      simp only [List.count_append, List.count_cons, List.count_nil]
      omega
    · intro b hb hb'
      rw [s.wheelPolicy.wheeling_addNewConnection c hb]
      exact h.buckets b hb hb'

/-- At the end of the bucket the wheel turns. -/
theorem owned_scan_nil (h : s.Owned) (hm : s.main = .scan []) (hs : s.wheelStep = some t) :
    t.Owned := by
  have hbuckets := h.buckets
  simp only [wheelStep, hm] at hs
  obtain rfl := Option.some.inj hs
  have hcheck : s.wheelPolicy.clear.timeElasped.checkIndex =
      s.wheelPolicy.curBucketIndex := s.wheelPolicy.clear.checkIndex_timeElasped
  have hcur : s.wheelPolicy.clear.timeElasped.curBucketIndex ≠
      s.wheelPolicy.curBucketIndex := s.wheelPolicy.clear.curBucketIndex_timeElasped_ne
  refine h.setMain rfl (fun c' => ?_) ?_ nofun nofun nofun
  · unfold wheelRefs mainRefs
    rw [hm]
    dsimp only
    rw [hcheck, TimerWheelingPolicy.wheeling_filled,
      TimerWheelingPolicy.wheeling_empty _ hbuckets hcur, List.append_nil, List.nil_append]
  · intro b hb hb'
    rw [hcheck] at hb'
    exact TimerWheelingPolicy.wheeling_empty _ hbuckets hb'

theorem owned_scan_cons {rest : List ι} (h : s.Owned) (hm : s.main = .scan (c :: rest))
    (hs : s.wheelStep = some t) : t.Owned := by
  have hmem : c ∈ s.mainRefs := by
    unfold mainRefs
    rw [hm]
    exact List.mem_cons_self
  simp only [wheelStep, hm, use_of_mem h hmem] at hs
  obtain rfl := Option.some.inj hs
  refine h.setMain rfl (fun c' => ?_) h.buckets ?_ ?_ ?_
  · unfold wheelRefs mainRefs
    rw [hm]
    split_ifs <;> exact Nat.le_refl _
  · intro c' rest' hd
    split_ifs at hd with hst
    obtain ⟨hd, -⟩ := WheelPc.decided.inj hd
    obtain rfl := Task.deleteConn.inj hd
    exact (h.sound c).of_closed hst
  · intro c' rest' hd
    split_ifs at hd
    cases hd
  · intro c' rest' he
    split_ifs at he

/-- The main thread's steps through the bucket. -/
theorem owned_wheel (h : s.Owned) (hs : s.wheelStep = some t) : t.Owned := by
  cases hm : s.main with
  | idle => simp [wheelStep, hm] at hs
  | decided task rest => exact owned_decided h hm hs
  | notClosed c rest => exact owned_notClosed h hm hs
  | established c rest => exact owned_established h hm hs
  | scan rest =>
      cases rest with
      | nil => exact owned_scan_nil h hm hs
      | cons c rest => exact owned_scan_cons h hm hs

theorem owned_tick (h : s.Owned) (hm : s.main = .idle) :
    Owned { s with
      timeInProcess := s.timeInProcess + 1
      main := .scan (s.wheelPolicy.wheeling s.wheelPolicy.checkIndex) } := by
  refine h.setMain rfl (fun c => ?_) h.buckets nofun nofun nofun
  unfold wheelRefs mainRefs
  rw [hm]

/-! ### Changes of a loop -/

omit [DecidableEq ι] in
theorem queued_setLoop {o : OwnerLoop ι} (hq : o.queued = (s.loops l).queued) (l' : LoopId) :
    (Function.update s.loops l o l').queued = (s.loops l').queued := by
  by_cases hl : l' = l
  · subst hl
    rw [Function.update_self]
    exact hq
  · rw [Function.update_of_ne hl]

omit [DecidableEq ι] in
theorem due_setLoop {o : OwnerLoop ι} (hq : o.queued = (s.loops l).queued) {task : Task ι}
    (h : Due { s with loops := Function.update s.loops l o } task) : s.Due task := by
  rcases h with hm | ⟨l', hl'⟩
  · exact Or.inl hm
  · rw [queued_setLoop hq] at hl'
    exact Or.inr ⟨l', hl'⟩

omit [DecidableEq ι] in
theorem evicting_setLoop {o : OwnerLoop ι} (hq : o.queued = (s.loops l).queued)
    (h : Evicting { s with loops := Function.update s.loops l o } c) : s.Evicting c := by
  rcases h with hest | hdue
  · exact Or.inl hest
  · exact Or.inr (due_setLoop hq hdue)

/-- A loop goes on without a change of its tasks. -/
theorem Owned.setLoop (h : s.Owned) {o : OwnerLoop ι} (hq : o.queued = (s.loops l).queued)
    (hbatch : ∀ c revents, (c, revents) ∈ o.pc.batch →
      s.accepted c = true ∧ (s.conns c).loop = l ∧ (s.conns c).destroys = 0)
    (hnodup : (o.pc.batch.map Prod.fst).Nodup)
    (hcallback : ∀ c batch, o.pc = .callback c batch →
      s.accepted c = true ∧ (s.conns c).loop = l ∧ c ∉ batch.map Prod.fst) :
    Owned { s with loops := Function.update s.loops l o } := by
  refine ⟨h.fault, h.wired, h.sound, fun c => ?_, fun l' task ht => ?_,
    fun c hd => h.deletes c (due_setLoop hq hd), fun c hd => h.evicts c (due_setLoop hq hd),
    h.established, fun l' c revents hb => ?_, fun l' => ?_, fun l' c batch hc => ?_, h.buckets⟩
  · have hrefs : refs { s with loops := Function.update s.loops l o } c = s.refs c := by
      unfold refs taskRefs
      rw [queued_setLoop hq]
      rfl
    rw [hrefs]
    exact h.token c
  · rw [queued_setLoop hq] at ht
    exact h.queued l' task ht
  · by_cases hl : l' = l
    · subst hl
      simp only [Function.update_self] at hb
      exact hbatch c revents hb
    · simp only [Function.update_of_ne hl] at hb
      exact h.batch l' c revents hb
  · by_cases hl : l' = l
    · subst hl
      simp only [Function.update_self]
      exact hnodup
    · simp only [Function.update_of_ne hl]
      exact h.nodup l'
  · by_cases hl : l' = l
    · subst hl
      simp only [Function.update_self] at hc
      exact hcallback c batch hc
    · simp only [Function.update_of_ne hl] at hc
      exact h.callback l' c batch hc

theorem Owned.setLoop_of_batch_nil (h : s.Owned) {o : OwnerLoop ι}
    (hq : o.queued = (s.loops l).queued) (hb : o.pc.batch = [])
    (hcallback : ∀ c batch, o.pc ≠ .callback c batch) :
    Owned { s with loops := Function.update s.loops l o } := by
  refine h.setLoop hq ?_ ?_ fun c batch hc => absurd hc (hcallback c batch)
  · intro c revents hin
    rw [hb] at hin
    cases hin
  · rw [hb]
    exact List.nodup_nil

/-! ### Changes of a connection -/

@[simp] theorem conns_setConn_self : (s.setConn c conn).conns c = conn := by
  simp only [setConn, Function.update_self]

theorem conns_setConn_of_ne {c' : ι} (h : c' ≠ c) : (s.setConn c conn).conns c' = s.conns c' := by
  simp only [setConn, Function.update_of_ne h]

theorem loop_setConn (hloop : conn.loop = (s.conns c).loop) (c' : ι) :
    ((s.setConn c conn).conns c').loop = (s.conns c').loop := by
  by_cases hc : c' = c
  · subst hc
    rw [conns_setConn_self, hloop]
  · rw [conns_setConn_of_ne hc]

theorem refs_setConn (hloop : conn.loop = (s.conns c).loop) (c' : ι) :
    (s.setConn c conn).refs c' = s.refs c' := by
  unfold refs
  rw [loop_setConn hloop]
  rfl

/-- A live connection that is not in any batch changes: it stays alive, or it is destroyed while
the wheel is not evicting it. -/
theorem Owned.setConn (h : s.Owned) (hacc : s.accepted c = true)
    (hd : (s.conns c).destroys = 0) (hw : conn.Wired) (hloop : conn.loop = (s.conns c).loop)
    (hdel : conn.deletes = (s.conns c).deletes)
    (hcase : (conn.destroys = 0 ∧ conn.state = .ESTABLISHED) ∨
      (conn.destroys = 1 ∧ conn.state = .CLOSED ∧
        conn.lastReceiveTime = (s.conns c).lastReceiveTime ∧ ¬ s.Evicting c ∧
        ∀ l revents, (c, revents) ∉ (s.loops l).pc.batch)) :
    (s.setConn c conn).Owned := by
  have hdeletes := h.not_deleted hd
  refine ⟨h.fault, fun c' ha => ?_, fun c' => ?_, fun c' => ?_, fun l task ht => ?_,
    fun c' hdue => ?_, fun c' hdue => ?_, fun c' rest hm => ?_, fun l c' revents hb => ?_,
    h.nodup, fun l c' batch hc => ?_, h.buckets⟩
  · by_cases hc : c' = c
    · subst hc
      rw [conns_setConn_self]
      exact hw
    · rw [conns_setConn_of_ne hc]
      exact h.wired c' ha
  · by_cases hc : c' = c
    · subst hc
      rw [conns_setConn_self]
      rcases hcase with ⟨h0, hst⟩ | ⟨h1, hst, -⟩
      · refine ⟨by rw [hst, h0, if_pos rfl], by omega, fun hpos => ?_⟩
        omega
      · refine ⟨by rw [hst, h1, if_neg (by omega)], by omega, fun _ => ?_⟩
        omega
    · rw [conns_setConn_of_ne hc]
      exact h.sound c'
  · have ht := h.token c'
    rw [refs_setConn hloop]
    by_cases hc : c' = c
    · subst hc
      rw [conns_setConn_self, hdel]
      exact ht
    · rw [conns_setConn_of_ne hc]
      exact ht
  · rw [loop_setConn hloop]
    exact h.queued l task ht
  · have hpos : 0 < (s.conns c').destroys := h.deletes c' hdue
    have hc : c' ≠ c := by
      rintro rfl
      omega
    rw [conns_setConn_of_ne hc]
    exact hpos
  · have hzero : (s.conns c').destroys = 0 := h.evicts c' hdue
    by_cases hc : c' = c
    · subst hc
      rw [conns_setConn_self]
      rcases hcase with ⟨h0, -⟩ | ⟨-, -, -, hev, -⟩
      · exact h0
      · exact absurd (Or.inr hdue) hev
    · rw [conns_setConn_of_ne hc]
      exact hzero
  · have hest := h.established c' rest hm
    unfold isIdle at hest ⊢
    by_cases hc : c' = c
    · subst hc
      rw [conns_setConn_self]
      rcases hcase with ⟨h0, -⟩ | ⟨-, -, htime, hev, -⟩
      · exact Or.inl h0
      · rw [htime]
        refine Or.inr ?_
        by_contra hidle
        rw [Bool.not_eq_false] at hidle
        exact hev (Or.inl ⟨rest, hm, hidle⟩)
    · rw [conns_setConn_of_ne hc]
      exact hest
  · obtain ⟨ha, hl, hz⟩ := h.batch l c' revents hb
    refine ⟨ha, (loop_setConn hloop c').trans hl, ?_⟩
    by_cases hc : c' = c
    · subst hc
      rw [conns_setConn_self]
      rcases hcase with ⟨h0, -⟩ | ⟨-, -, -, -, hnot⟩
      · exact h0
      · exact absurd hb (hnot l revents)
    · rw [conns_setConn_of_ne hc]
      exact hz
  · obtain ⟨ha, hl, hnot⟩ := h.callback l c' batch hc
    exact ⟨ha, (loop_setConn hloop c').trans hl, hnot⟩

end IdleConnectionsManager

end Dagger
