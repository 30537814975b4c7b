import Dagger.ConnectionRefs

/-! # Who releases a connection

The wheel decides to evict a connection on a state it read earlier, and the owner handles events
before it runs the task: if an event destroys the connection in between, the task destroys it
again.  `released_once` proves that nothing else goes wrong: in all other runs a connection and its
event are released once, and not used afterwards. -/

namespace Dagger

open TcpConnection Transition

namespace IdleConnectionsManager

variable {ι : Type} [DecidableEq ι] {s t : IdleConnectionsManager ι} {c : ι} {l : LoopId}
  {conn : TcpConnection}

/-! ### The owner's steps -/

variable {server : TcpServer} {batch : List (ι × EpollFlags)}

/-- What the owner does to a connection whose event it has taken off the batch. -/
theorem Owned.stepped (h : s.Owned) {delivers destroys : Prop}
    (hidle : server.idleConnectionsManager = true)
    (hacc : s.accepted c = true) (hd : (s.conns c).destroys = 0) (hw : conn.Wired)
    (hs : server.Stepped (s.conns c) conn delivers destroys)
    (hspare : destroys → ¬ s.Evicting c)
    (hbatch : ∀ l revents, (c, revents) ∉ (s.loops l).pc.batch) : (s.setConn c conn).Owned := by
  have hst := (h.sound c).state
  rw [if_pos hd] at hst
  by_cases hdes : destroys
  · obtain ⟨h1, hdel, hclosed, htime⟩ := hs.destroyed hdes
    rw [hidle] at hdel
    refine h.setConn hacc hd hw hs.loop hdel (Or.inr ⟨?_, hclosed, htime, hspare hdes, hbatch⟩)
    omega
  · obtain ⟨h0, hdel, hstate⟩ := hs.kept hdes
    exact h.setConn hacc hd hw hs.loop hdel (Or.inl ⟨h0.trans hd, hstate.trans hst⟩)

/-- A connection of loop `l` that is not in its batch is in no batch. -/
theorem Owned.notMem_batch (h : s.Owned) (hl : (s.conns c).loop = l)
    (hnot : c ∉ (s.loops l).pc.batch.map Prod.fst) (l' : LoopId) (revents : EpollFlags) :
    (c, revents) ∉ (s.loops l').pc.batch := by
  intro hin
  have hl' := (h.batch l' c revents hin).2.1
  rw [← hl', hl] at hin
  exact hnot (List.mem_map_of_mem hin)

/-- The first event of the batch is taken off it. -/
theorem Owned.take (h : s.Owned) {revents : EpollFlags} {pc : OwnerPc ι}
    (hpc : (s.loops l).pc = .handling ((c, revents) :: batch))
    (hcase : pc = .handling batch ∨ pc = .callback c batch) :
    (s.setPc l pc).Owned ∧ OwnerLoop.queued { s.loops l with pc } = (s.loops l).queued ∧
      c ∉ ((s.setPc l pc).loops l).pc.batch.map Prod.fst := by
  have hnodup := h.nodup l
  have hq : OwnerLoop.queued { s.loops l with pc } = (s.loops l).queued := by
    unfold OwnerLoop.queued
    rw [hpc]
    rcases hcase with rfl | rfl <;> rfl
  have hb : pc.batch = batch := by
    rcases hcase with rfl | rfl <;> rfl
  have hmem : (c, revents) ∈ (s.loops l).pc.batch := by
    rw [hpc]
    exact List.mem_cons_self
  obtain ⟨hacc, hloop, -⟩ := h.batch l c revents hmem
  rw [hpc] at hnodup
  simp only [OwnerPc.batch, List.map_cons, List.nodup_cons] at hnodup
  refine ⟨h.setLoop hq (fun c' revents' hin => ?_) ?_ (fun c' batch' hc => ?_), hq, ?_⟩
  · rw [hb] at hin
    apply h.batch l c' revents'
    rw [hpc]
    exact List.mem_cons_of_mem _ hin
  · rw [hb]
    exact hnodup.2
  · rcases hcase with rfl | rfl
    · cases hc
    · obtain ⟨rfl, rfl⟩ := OwnerPc.callback.inj hc
      exact ⟨hacc, hloop, hnodup.1⟩
  · simp only [setPc, Function.update_self, hb]
    exact hnodup.1

theorem owned_event (h : s.Owned) (hidle : server.idleConnectionsManager = true)
    {script : List ReadResult} {write : WriteResult} (hl : (Act.event l script write).Legal s)
    (hguard : s.SparesEvicting (.event l script write))
    (hs : s.step server (.event l script write) = some t) : t.Owned := by
  obtain ⟨hdel, hanswers⟩ := hl
  obtain ⟨c, revents, batch, hpc, hs⟩ := step_event hs
  have hmem : (c, revents) ∈ (s.loops l).pc.batch := by
    rw [hpc]
    exact List.mem_cons_self
  obtain ⟨hacc, hloop, hd⟩ := h.batch l c revents hmem
  have hlive : ¬ s.Freed c := by
    have hdeletes := h.not_deleted hd
    unfold Freed
    omega
  obtain ⟨r, hr, hs⟩ := Option.bind_eq_some_iff.mp (hs.resolve_left fun hf => hlive hf.1).2
  obtain rfl := Option.some.inj hs
  have hwired : Session.conn { conn := s.conns c } |>.Wired := h.wired c hacc
  obtain ⟨hstepped, hw⟩ :=
    TcpServer.handle_spec hwired hdel (hanswers c revents batch hpc) hr
  have hcase : (if r.control = .loop then OwnerPc.handling batch else .callback c batch) =
      .handling batch ∨
      (if r.control = .loop then OwnerPc.handling batch else .callback c batch) =
      .callback c batch := by
    split_ifs
    · exact Or.inl rfl
    · exact Or.inr rfl
  obtain ⟨ho, hq, hnot⟩ := h.take hpc hcase
  refine ho.stepped hidle hacc hd hw hstepped (fun hdes hev => ?_) (ho.notMem_batch hloop hnot)
  exact hguard c revents batch hpc hdes (evicting_setLoop hq hev)

theorem owned_activeClose (h : s.Owned) (hidle : server.idleConnectionsManager = true)
    (hl : (Act.activeClose l).Legal s) (hguard : s.SparesEvicting (.activeClose l))
    (hs : s.step server (.activeClose l) = some t) : t.Owned := by
  obtain ⟨c', batch', hpc', hd⟩ := hl
  obtain ⟨c, batch, conn, hpc, hc, rfl⟩ := step_activeClose hs
  obtain ⟨rfl, -⟩ := OwnerPc.callback.inj (hpc.symm.trans hpc')
  obtain ⟨hacc, hloop, hnot⟩ := h.callback l c batch hpc
  have hclose := TcpServer.closeConnection_eq hc
  have hw := (h.wired c hacc).effect (closeWith_effect hclose)
  have hb : c ∉ (s.loops l).pc.batch.map Prod.fst := by
    rw [hpc]
    exact hnot
  have hstepped : server.Stepped (s.conns c) conn False ((s.conns c).writeBuffer.bytes = []) :=
    .close hclose Iff.rfl
  refine h.stepped hidle hacc hd hw hstepped ?_ (h.notMem_batch hloop hb)
  intro hdes
  exact hguard c batch hpc hdes

theorem owned_send (h : s.Owned) {str : List Byte} (hl : (Act.send l c str).Legal s)
    (hs : s.step server (.send l c str) = some t) : t.Owned := by
  obtain ⟨-, hacc, -, hd, hstr⟩ := hl
  simp only [step, sendStr_eq hstr, Option.bind_eq_bind, Option.bind_some] at hs
  obtain rfl := Option.some.inj hs
  have hst := (h.sound c).state
  rw [if_pos hd] at hst
  exact h.setConn hacc hd ((h.wired c hacc).queue str) rfl rfl (Or.inl ⟨hd, hst⟩)

/-! ### The tasks -/

omit [DecidableEq ι] in
theorem queued_running {task : Task ι} {curTask : List (Task ι)}
    (hpc : (s.loops l).pc = .running (task :: curTask)) :
    (s.loops l).queued = task :: (OwnerLoop.queued { s.loops l with pc := .running curTask }) := by
  unfold OwnerLoop.queued
  rw [hpc]
  rfl

/-- The reference that a task carries is given up when the task is started. -/
theorem refs_running {task : Task ι} {curTask : List (Task ι)}
    (hpc : (s.loops l).pc = .running (task :: curTask)) (hl : (s.conns task.conn).loop = l)
    (c : ι) :
    s.refs c = (s.setPc l (.running curTask)).refs c + if c = task.conn then 1 else 0 := by
  have hw : (s.setPc l (.running curTask)).wheelRefs = s.wheelRefs := rfl
  have hc : (s.setPc l (.running curTask)).conns = s.conns := rfl
  unfold refs
  rw [hw, hc]
  unfold taskRefs setPc
  dsimp only
  by_cases hcl : (s.conns c).loop = l
  · rw [hcl, Function.update_self, queued_running hpc, List.map_cons, List.count_cons]
    simp only [beq_iff_eq, @eq_comm ι task.conn c]
    omega
  · rw [Function.update_of_ne hcl, if_neg (fun he => hcl (by rw [he]; exact hl))]
    rfl

omit [DecidableEq ι] in
theorem mem_queued_running {task task' : Task ι} {curTask : List (Task ι)}
    (hpc : (s.loops l).pc = .running (task :: curTask)) {l' : LoopId}
    (h : task' ∈ ((s.setPc l (.running curTask)).loops l').queued) :
    task' ∈ (s.loops l').queued := by
  unfold setPc at h
  by_cases hl : l' = l
  · subst hl
    simp only [Function.update_self] at h
    rw [queued_running hpc]
    exact List.mem_cons_of_mem _ h
  · simp only [Function.update_of_ne hl] at h
    exact h

omit [DecidableEq ι] in
theorem batch_running {curTask : List (Task ι)} (l' : LoopId) :
    ((s.setPc l (.running curTask)).loops l').pc.batch =
      if l' = l then [] else (s.loops l').pc.batch := by
  unfold setPc
  split_ifs with hl
  · subst hl
    simp only [Function.update_self]
    rfl
  · simp only [Function.update_of_ne hl]

/-- With the last reference to `c` taken, no task is due for it. -/
theorem Owned.due_running (h : s.Owned) {task task' : Task ι} {curTask : List (Task ι)}
    (hpc : (s.loops l).pc = .running (task :: curTask))
    (hzero : (s.setPc l (.running curTask)).refs c = 0)
    (hdue : (s.setPc l (.running curTask)).Due task') : s.Due task' ∧ task'.conn ≠ c := by
  constructor
  · rcases hdue with hm | ⟨l', hq⟩
    · exact Or.inl hm
    · exact Or.inr ⟨l', mem_queued_running hpc hq⟩
  · rintro rfl
    have hpos := refs_pos_of_due
      (fun l' hq => (h.queued l' task' (mem_queued_running hpc hq)).2) hdue
    omega

/-- While its owner runs tasks, no batch has an event of `c`. -/
theorem Owned.mem_batch_running (h : s.Owned) (hl : (s.conns c).loop = l)
    {curTask : List (Task ι)} {l' : LoopId} {c' : ι} {revents : EpollFlags}
    (hin : (c', revents) ∈ ((s.setPc l (.running curTask)).loops l').pc.batch) :
    (c', revents) ∈ (s.loops l').pc.batch ∧ c' ≠ c := by
  rw [batch_running] at hin
  split_ifs at hin with hl'
  · cases hin
  · refine ⟨hin, ?_⟩
    rintro rfl
    exact hl' ((h.batch l' _ revents hin).2.1.symm.trans hl)

theorem Owned.callback_running (h : s.Owned) {curTask : List (Task ι)} {l' : LoopId}
    {batch : List (ι × EpollFlags)}
    (hc : ((s.setPc l (.running curTask)).loops l').pc = .callback c batch) :
    s.accepted c = true ∧ (s.conns c).loop = l' ∧ c ∉ batch.map Prod.fst := by
  unfold setPc at hc
  by_cases hl' : l' = l
  · subst hl'
    simp only [Function.update_self] at hc
    cases hc
  · simp only [Function.update_of_ne hl'] at hc
    exact h.callback l' c batch hc

/-- A task that is started has the only reference to its connection. -/
theorem Owned.refs_running_self (h : s.Owned) {task : Task ι} {curTask : List (Task ι)}
    (hpc : (s.loops l).pc = .running (task :: curTask)) :
    (s.setPc l (.running curTask)).refs task.conn = 0 := by
  have hmem : task ∈ (s.loops l).queued := by
    rw [queued_running hpc]
    exact List.mem_cons_self
  have hpos := refs_pos_of_due (fun l hq => (h.queued l task hq).2) (Or.inr ⟨l, hmem⟩)
  have hone := (h.of_refs_pos hpos).1
  have hr := refs_running hpc (h.queued l task hmem).2 task.conn
  rw [if_pos rfl] at hr
  omega

/-- A task takes the last reference to its connection and leaves it destroyed and deleted. -/
theorem Owned.release (h : s.Owned) {task : Task ι} {curTask : List (Task ι)}
    (hpc : (s.loops l).pc = .running (task :: curTask)) (hc : task.conn = c) (hw : conn.Wired)
    (hloop : conn.loop = (s.conns c).loop) (hdestroys : conn.destroys = 1)
    (hdeletes : conn.deletes = 1) (hstate : conn.state = .CLOSED) :
    ((s.setPc l (.running curTask)).setConn c conn).Owned := by
  subst hc
  have hmem : task ∈ (s.loops l).queued := by
    rw [queued_running hpc]
    exact List.mem_cons_self
  obtain ⟨hacc, hl⟩ := h.queued l task hmem
  have hrefs := refs_running hpc hl
  have hzero := h.refs_running_self hpc
  -- nothing else is due for the connection, and nobody looks at it
  refine ⟨h.fault, fun c ha => ?_, fun c => ?_, fun c => ?_, fun l' task' hq => ?_,
    fun c hdue => ?_, fun c hdue => ?_, fun c rest hm => ?_, fun l' c revents hin => ?_,
    fun l' => ?_, fun l' c batch hc => ?_, h.buckets⟩
  · by_cases hc : c = task.conn
    · subst hc
      rw [conns_setConn_self]
      exact hw
    · rw [conns_setConn_of_ne hc]
      exact h.wired c ha
  · by_cases hc : c = task.conn
    · subst hc
      rw [conns_setConn_self]
      refine ⟨by rw [hstate, hdestroys, if_neg (by omega)], by omega, fun _ => by omega⟩
    · rw [conns_setConn_of_ne hc]
      exact h.sound c
  · have hr : ((s.setPc l (.running curTask)).setConn task.conn conn).refs c =
        (s.setPc l (.running curTask)).refs c :=
      refs_setConn (s := s.setPc l (.running curTask)) hloop c
    have ht := h.token c
    rw [hrefs c] at ht
    rw [hr]
    by_cases hc : c = task.conn
    · subst hc
      rw [conns_setConn_self, hzero, hdeletes]
      have ha : ((s.setPc l (.running curTask)).setConn task.conn conn).accepted task.conn = true :=
        hacc
      rw [ha]
      decide
    · rw [conns_setConn_of_ne hc]
      rw [if_neg hc] at ht
      exact ht
  · obtain ⟨ha, hl'⟩ := h.queued l' task' (mem_queued_running hpc hq)
    exact ⟨ha, (loop_setConn hloop _).trans hl'⟩
  · obtain ⟨hdue', hc⟩ := h.due_running hpc hzero hdue
    have hc : c ≠ task.conn := hc
    rw [conns_setConn_of_ne hc]
    exact h.deletes c hdue'
  · obtain ⟨hdue', hc⟩ := h.due_running hpc hzero hdue
    have hc : c ≠ task.conn := hc
    rw [conns_setConn_of_ne hc]
    exact h.evicts c hdue'
  · have hm : s.main = .established c rest := hm
    have hpos : 0 < (s.setPc l (.running curTask)).refs c :=
      refs_pos_of_mem_wheelRefs (List.mem_append_left _ (mem_mainRefs_of_established hm))
    have hc : c ≠ task.conn := by
      rintro rfl
      omega
    have hest := h.established c rest hm
    unfold isIdle at hest ⊢
    rw [conns_setConn_of_ne hc]
    exact hest
  · obtain ⟨hin', hc⟩ := h.mem_batch_running hl hin
    rw [conns_setConn_of_ne hc]
    exact h.batch l' c revents hin'
  · show (((s.setPc l (.running curTask)).loops l').pc.batch.map Prod.fst).Nodup
    rw [batch_running]
    split_ifs
    · exact List.nodup_nil
    · exact h.nodup l'
  · obtain ⟨ha, hcl, hnot⟩ := h.callback_running hc
    exact ⟨ha, (loop_setConn hloop c).trans hcl, hnot⟩

theorem runConnTask_deleteConn (hdel : (s.conns c).deletes = 0) :
    s.runConnTask (.deleteConn c) = s.setConn c (s.conns c).delete := by
  have hf : decide (0 < (s.conns c).deletes) = false := decide_eq_false (by omega)
  simp only [runConnTask, hf, Bool.or_false]
  rfl

theorem runConnTask_destoryThenDeleteConn (hd : (s.conns c).destroys = 0)
    (hdel : (s.conns c).deletes = 0) : s.runConnTask (.destoryThenDeleteConn c) =
      s.setConn c (s.conns c).destroy.delete := by
  have hf : decide (s.Freed c) = false := by
    apply decide_eq_false
    unfold Freed
    omega
  simp only [runConnTask, hf, Bool.or_false]
  rfl

theorem owned_runTask (h : s.Owned) (hs : s.step server (.runTask l) = some t) : t.Owned := by
  obtain ⟨task, curTask, hpc, rfl⟩ := step_runTask hs
  have hmem : task ∈ (s.loops l).queued := by
    rw [queued_running hpc]
    exact List.mem_cons_self
  have hpos := refs_pos_of_due (fun l hq => (h.queued l task hq).2) (Or.inr ⟨l, hmem⟩)
  obtain ⟨-, hdel, hacc⟩ := h.of_refs_pos hpos
  have hw := h.wired task.conn hacc
  have hsound := h.sound task.conn
  cases task with
  | deleteConn c =>
      have hdel : (s.conns c).deletes = 0 := hdel
      have hsound : Sound (s.conns c) := hsound
      have hd : 0 < (s.conns c).destroys := h.deletes c (Or.inr ⟨l, hmem⟩)
      have hst := hsound.state
      rw [if_neg (by omega)] at hst
      have hrun := @runConnTask_deleteConn _ _ (s.setPc l (.running curTask)) c hdel
      rw [hrun]
      refine h.release hpc rfl ⟨hw.plain, hw.readCallback, hw.writeCallback⟩ rfl ?_ ?_ hst
      · exact Nat.le_antisymm hsound.once hd
      · show (s.conns c).deletes + 1 = 1
        omega
  | destoryThenDeleteConn c =>
      have hdel : (s.conns c).deletes = 0 := hdel
      have hd : (s.conns c).destroys = 0 := h.evicts c (Or.inr ⟨l, hmem⟩)
      have hrun := @runConnTask_destoryThenDeleteConn _ _ (s.setPc l (.running curTask)) c hd hdel
      rw [hrun]
      refine h.release hpc rfl ⟨hw.plain, hw.readCallback, hw.writeCallback⟩ rfl ?_ ?_ rfl
      · show (s.conns c).destroys + 1 = 1
        omega
      · show (s.conns c).deletes + 1 = 1
        omega

theorem refs_acceptCallback (hm : s.main = .idle) (c' : ι) : (s.acceptCallback c l).refs c' =
    s.wheelRefs.count c' + (if c = c' then 1 else 0) +
      (s.taskRefs ((s.acceptCallback c l).conns c').loop).count c' := by
  have hmain : (s.acceptCallback c l).main = .idle := hm
  have hcheck : (s.wheelPolicy.addNewConnection c).wheeling s.wheelPolicy.checkIndex =
      s.wheelPolicy.wheeling s.wheelPolicy.checkIndex :=
    s.wheelPolicy.wheeling_addNewConnection c s.wheelPolicy.checkIndex_ne
  have hwheel : (s.acceptCallback c l).wheelRefs = s.wheelRefs ++ [c] := by
    unfold wheelRefs mainRefs
    rw [hmain, hm]
    show (s.wheelPolicy.addNewConnection c).wheeling s.wheelPolicy.checkIndex ++
      (s.wheelPolicy.addNewConnection c).wheeling s.wheelPolicy.curBucketIndex = _
    rw [hcheck, TimerWheelingPolicy.wheeling_addNewConnection_self, List.append_assoc]
  unfold refs
  rw [hwheel]
  simp only [List.count_append, List.count_cons, List.count_nil, beq_iff_eq, Nat.zero_add]
  rfl

/-- A new connection gets its reference from the wheel. -/
theorem owned_accept (h : s.Owned) (hm : s.main = .idle) (hnot : s.accepted c = false) :
    (s.acceptCallback c l).Owned := by
  have hself : (s.acceptCallback c l).conns c = TcpServer.accepted l s.timeInProcess :=
    conns_setConn_self
  have hother : ∀ c', c' ≠ c → (s.acceptCallback c l).conns c' = s.conns c' :=
    fun c' hc => conns_setConn_of_ne hc
  have hne : ∀ c', s.accepted c' = true → c' ≠ c := by
    rintro _ ha rfl
    rw [hnot] at ha
    cases ha
  have hacc : ∀ c', s.accepted c' = true → (s.acceptCallback c l).accepted c' = true := by
    intro c' ha
    simp only [acceptCallback, Function.update_of_ne (hne c' ha)]
    exact ha
  have htask : ∀ l' task, task ∈ (s.loops l').queued → task.conn ≠ c :=
    fun l' task hq => hne _ (h.queued l' task hq).1
  have hdue : ∀ task, (s.acceptCallback c l).Due task → s.Due task ∧ task.conn ≠ c := by
    rintro task (⟨rest, he⟩ | ⟨l', hq⟩)
    · have he : s.main = _ := he
      rw [hm] at he
      cases he
    · exact ⟨Or.inr ⟨l', hq⟩, htask l' task hq⟩
  refine ⟨h.fault, fun c' ha => ?_, fun c' => ?_, fun c' => ?_, fun l' task hq => ?_,
    fun c' hd => ?_, fun c' hd => ?_, fun c' rest he => ?_, fun l' c' revents hb => ?_, h.nodup,
    fun l' c' batch hc => ?_, fun b hb hb' => ?_⟩
  · by_cases hc : c' = c
    · subst hc
      rw [hself]
      exact ⟨⟨rfl, rfl, rfl, rfl, rfl⟩, rfl, nofun⟩
    · rw [hother c' hc]
      apply h.wired c'
      simpa only [acceptCallback, Function.update_of_ne hc] using ha
  · by_cases hc : c' = c
    · subst hc
      rw [hself]
      exact ⟨rfl, Nat.zero_le _, nofun⟩
    · rw [hother c' hc]
      exact h.sound c'
  · have ht := h.token c'
    rw [refs_acceptCallback hm]
    by_cases hc : c' = c
    · subst hc
      have hq : (s.taskRefs l).count c' = 0 := by
        apply List.count_eq_zero.mpr
        intro hin
        obtain ⟨task, hq, he⟩ := List.mem_map.mp hin
        exact htask l task hq he
      have ha : (s.acceptCallback c' l).accepted c' = true := by simp [acceptCallback]
      have hl : (TcpServer.accepted l s.timeInProcess).loop = l := rfl
      have hd : (TcpServer.accepted l s.timeInProcess).deletes = 0 := rfl
      unfold refs at ht
      rw [hnot, Bool.toNat_false] at ht
      rw [hself, hl, hd, hq, ha, if_pos rfl, Bool.toNat_true]
      omega
    · have ha : (s.acceptCallback c l).accepted c' = s.accepted c' := by
        simp [acceptCallback, Function.update_of_ne hc]
      rw [hother c' hc, if_neg (Ne.symm hc), ha]
      exact ht
  · obtain ⟨ha, hl⟩ := h.queued l' task hq
    rw [hother _ (hne _ ha)]
    exact ⟨hacc _ ha, hl⟩
  · obtain ⟨hd', hc⟩ := hdue _ hd
    have hc : c' ≠ c := hc
    rw [hother c' hc]
    exact h.deletes c' hd'
  · obtain ⟨hd', hc⟩ := hdue _ hd
    have hc : c' ≠ c := hc
    rw [hother c' hc]
    exact h.evicts c' hd'
  · have he : s.main = _ := he
    rw [hm] at he
    cases he
  · obtain ⟨ha, hl, hd⟩ := h.batch l' c' revents hb
    rw [hother c' (hne _ ha)]
    exact ⟨hacc _ ha, hl, hd⟩
  · obtain ⟨ha, hl, hd⟩ := h.callback l' c' batch hc
    rw [hother c' (hne _ ha)]
    exact ⟨hacc _ ha, hl, hd⟩
  · have hcur : b ≠ s.wheelPolicy.curBucketIndex := hb
    exact (s.wheelPolicy.wheeling_addNewConnection c hcur).trans (h.buckets b hcur hb')

theorem owned_step (hidle : server.idleConnectionsManager = true) (h : s.Owned) {a : Act ι}
    (hs : ((system ι server).guarded SparesEvicting).Step s a t) : t.Owned := by
  obtain ⟨⟨-, hl, hs⟩, hguard⟩ := hs
  cases a with
  | accept c l =>
      obtain rfl := Option.some.inj hs
      exact owned_accept h hl.1 hl.2
  | tick =>
      obtain rfl := Option.some.inj hs
      exact owned_tick h hl
  | wheel => exact owned_wheel h hs
  | poll l batch =>
      obtain rfl := Option.some.inj hs
      obtain ⟨hpc, hnodup, hlive⟩ := hl
      refine h.setLoop ?_ (fun c revents hin => ?_) hnodup fun c batch' hc => ?_
      · unfold OwnerLoop.queued
        rw [hpc]
        rfl
      · obtain ⟨ha, hloop, hd, -⟩ := hlive c revents hin
        exact ⟨ha, hloop, hd⟩
      · cases hc
  | event l script write => exact owned_event h hidle hl hguard hs
  | send l c str => exact owned_send h hl hs
  | activeClose l => exact owned_activeClose h hidle hl hguard hs
  | ret l =>
      obtain ⟨c, batch, hpc, rfl⟩ := step_ret hs
      have hb := h.batch l
      have hn := h.nodup l
      rw [hpc] at hb hn
      refine h.setLoop ?_ hb hn fun c' batch' hc => by cases hc
      unfold OwnerLoop.queued
      rw [hpc]
      rfl
  | swap l =>
      obtain ⟨hpc, rfl⟩ := step_swap hs
      refine h.setLoop_of_batch_nil ?_ rfl fun c batch hc => by cases hc
      unfold OwnerLoop.queued
      rw [hpc]
      simp [OwnerPc.curTask]
  | runTask l => exact owned_runTask h hs
  | endTasks l =>
      obtain ⟨hpc, rfl⟩ := step_endTasks hs
      refine h.setLoop_of_batch_nil ?_ rfl fun c batch hc => by cases hc
      unfold OwnerLoop.queued
      rw [hpc]
      rfl

theorem owned_of_reachable (hidle : server.idleConnectionsManager = true)
    (h : Reachable ((system ι server).guarded SparesEvicting) s) : s.Owned := by
  apply h.invariant
  · rintro _ rfl
    refine ⟨rfl, nofun, fun _ => ⟨rfl, Nat.zero_le _, nofun⟩, fun _ => Nat.le_refl 0, nofun, ?_, ?_,
      nofun, nofun, fun _ => List.nodup_nil, nofun, fun _ _ _ => rfl⟩
    · rintro c (⟨rest, hm⟩ | ⟨l, hq⟩)
      · cases hm
      · cases hq
    · rintro c (⟨rest, hm⟩ | ⟨l, hq⟩)
      · cases hm
      · cases hq
  · intro s a t ho hs
    exact owned_step hidle ho hs

/-! ### A silent connection -/

omit [DecidableEq ι] in
theorem wheelStep_established {rest : List ι} (hm : s.main = .established c rest)
    (hdel : (s.conns c).deletes = 0) : s.wheelStep = some (
      if s.isIdle c then { s with main := .decided (.destoryThenDeleteConn c) rest }
      else { s with wheelPolicy := s.wheelPolicy.addNewConnection c, main := .scan rest }) := by
  simp only [wheelStep, hm, use, if_neg (by omega : ¬ 0 < (s.conns c).deletes)]

/-- A server with idle connections management that waits for more data after every read. -/
def managed : TcpServer := ⟨fun b => (false, b), false, false, true⟩

/-- The only connection of the wheel is in the bucket that is checked next. -/
def Alone (w : TimerWheelingPolicy Unit) : Prop :=
  w.wheeling w.checkIndex = [()] ∧ ∀ b, b ≠ w.checkIndex → w.wheeling b = []

/-- A connection that is the only one stays so, in the next bucket. -/
theorem alone_next {w : TimerWheelingPolicy Unit}
    (h : ∀ b, b ≠ w.checkIndex → w.wheeling b = []) :
    Alone (w.addNewConnection ()).clear.timeElasped := by
  have hempty : ∀ b, b ≠ (w.addNewConnection ()).curBucketIndex →
      b ≠ (w.addNewConnection ()).checkIndex → (w.addNewConnection ()).wheeling b = [] := by
    intro b hb hb'
    rw [w.wheeling_addNewConnection () hb]
    exact h b hb'
  have hcheck : (w.addNewConnection ()).clear.timeElasped.checkIndex =
      (w.addNewConnection ()).curBucketIndex :=
    (w.addNewConnection ()).clear.checkIndex_timeElasped
  constructor
  · rw [hcheck, TimerWheelingPolicy.wheeling_filled]
    refine (w.wheeling_addNewConnection_self ()).trans ?_
    rw [h _ w.checkIndex_ne.symm]
    rfl
  · intro b hb
    rw [hcheck] at hb
    exact TimerWheelingPolicy.wheeling_empty _ hempty hb

/-- A connection was accepted in second 0, and it is second `k`. -/
def silent (w : TimerWheelingPolicy Unit) (k : ℕ) (main : WheelPc Unit) :
    IdleConnectionsManager Unit where
  conns := Function.update (fun _ => {}) () (TcpServer.accepted 0 0)
  accepted := Function.update (fun _ => false) () true
  timeInProcess := .ofNat k
  wheelPolicy := w
  main := main

section path
variable {s t : IdleConnectionsManager Unit} {w : TimerWheelingPolicy Unit} {k : ℕ}

theorem wheel_step (hf : s.fault = false) (h : s.wheelStep = some t) :
    (system Unit server).Step s .wheel t :=
  ⟨hf, trivial, h⟩

theorem tick_step {rest : List Unit} (h : w.wheeling w.checkIndex = rest) :
    (system Unit server).Step (silent w k .idle) .tick (silent w (k + 1) (.scan rest)) := by
  subst h
  refine ⟨rfl, rfl, ?_⟩
  unfold step silent
  rw [UInt32.ofNat_add]
  rfl

/-- Second 0: the connection is accepted; second 1: the empty bucket is checked. -/
theorem path_silent_one : ∃ w, Alone w ∧ Path (system Unit server) {}
    [.accept () 0, .tick, .wheel] (silent w 1 .idle) := by
  let w : TimerWheelingPolicy Unit := TimerWheelingPolicy.addNewConnection () {}
  have hempty : w.wheeling w.checkIndex = [] :=
    TimerWheelingPolicy.wheeling_addNewConnection {} () (TimerWheelingPolicy.checkIndex_ne {})
  have haccept : (system Unit server).Step {} (.accept () 0) (silent w 0 .idle) :=
    ⟨rfl, ⟨rfl, rfl⟩, rfl⟩
  have halone : Alone w.clear.timeElasped := alone_next fun _ _ => rfl
  refine ⟨_, halone, ?_⟩
  exact .cons haccept (.cons (tick_step hempty) (.cons (wheel_step rfl rfl) (.nil _)))

theorem isIdle_silent {main : WheelPc Unit} (hk : k ≤ 601) :
    (silent w k main).isIdle () = decide (600 < k) := by
  have htime : (silent w k main).timeInProcess -
      ((silent w k main).conns ()).lastReceiveTime = .ofNat k := UInt32.sub_zero _
  unfold isIdle
  have hsize : k < UInt32.size := Nat.lt_of_le_of_lt hk (by decide)
  rw [htime, UInt32.toNat_ofNat_of_lt' hsize]

/-- The check looks at the state of the connection twice. -/
theorem path_look (hw : Alone w) : Path (system Unit server)
    (silent w k .idle) [.tick, .wheel, .wheel] (silent w (k + 1) (.established () [])) := by
  have h1 : (system Unit server).Step
      (silent w (k + 1) (.scan [()])) .wheel (silent w (k + 1) (.notClosed () [])) :=
    wheel_step rfl rfl
  have h2 : (system Unit server).Step
      (silent w (k + 1) (.notClosed () [])) .wheel (silent w (k + 1) (.established () [])) :=
    wheel_step rfl rfl
  exact .cons (tick_step hw.1) (.cons h1 (.cons h2 (.nil _)))

/-- A check that finds the connection not idle. -/
def quietTick : List (Act Unit) := [.tick, .wheel, .wheel, .wheel, .wheel]

theorem path_quietTick (hw : Alone w) (hk : k < 600) : ∃ w', Alone w' ∧
    Path (system Unit server) (silent w k .idle) quietTick (silent w' (k + 1) .idle) := by
  have hidle : (silent w (k + 1) (.established () [])).isIdle () = false := by
    rw [isIdle_silent (by omega)]
    exact decide_eq_false (by omega)
  have h1 : (system Unit server).Step
      (silent w (k + 1) (.established () [])) .wheel
      (silent (w.addNewConnection ()) (k + 1) (.scan [])) := by
    refine wheel_step rfl ((wheelStep_established rfl rfl).trans ?_)
    rw [if_neg (by rw [hidle]; exact Bool.false_ne_true)]
    rfl
  have h2 : (system Unit server).Step
      (silent (w.addNewConnection ()) (k + 1) (.scan [])) .wheel
      (silent (w.addNewConnection ()).clear.timeElasped (k + 1) .idle) := wheel_step rfl rfl
  refine ⟨_, alone_next hw.2, ?_⟩
  exact (path_look hw).append (.cons h1 (.cons h2 (.nil _)))

theorem path_quietTicks (hw : Alone w) {n : ℕ} (hn : n < 600) : ∃ w', Alone w' ∧
    Path (system Unit server) (silent w 1 .idle)
      (List.replicate n quietTick).flatten (silent w' (n + 1) .idle) := by
  induction n with
  | zero => exact ⟨w, hw, .nil _⟩
  | succ n ih =>
      obtain ⟨w₁, hw₁, h₁⟩ := ih (by omega)
      obtain ⟨w₂, hw₂, h₂⟩ := path_quietTick hw₁ hn
      refine ⟨w₂, hw₂, ?_⟩
      rw [List.replicate_succ', List.flatten_append, List.flatten_singleton]
      exact h₁.append h₂

/-- The check in second 601 gives the connection to its owner for eviction. -/
def evictingTick : List (Act Unit) := [.tick, .wheel, .wheel, .wheel, .wheel, .wheel]

/-- The server after that check. -/
def evicted (w : TimerWheelingPolicy Unit) : IdleConnectionsManager Unit :=
  { silent w 601 .idle with
    loops := Function.update (fun _ => {}) 0 { tasks := [.destoryThenDeleteConn ()] } }

theorem path_evictingTick (hw : Alone w) :
    Path (system Unit server) (silent w 600 .idle) evictingTick (evicted w.clear.timeElasped) := by
  have hidle : (silent w 601 (.established () [])).isIdle () = true := by
    rw [isIdle_silent (by omega)]
    exact decide_eq_true (by omega)
  have h1 : (system Unit server).Step
      (silent w 601 (.established () [])) .wheel
      (silent w 601 (.decided (.destoryThenDeleteConn ()) [])) := by
    refine wheel_step rfl ((wheelStep_established rfl rfl).trans ?_)
    rw [if_pos hidle]
    rfl
  have h2 : (system Unit server).Step
      (silent w 601 (.decided (.destoryThenDeleteConn ()) [])) .wheel
      { evicted w with main := .scan [] } := wheel_step rfl rfl
  have h3 : (system Unit server).Step
      { evicted w with main := .scan [] } .wheel (evicted w.clear.timeElasped) :=
    wheel_step rfl rfl
  exact (path_look hw).append (.cons h1 (.cons h2 (.cons h3 (.nil _))))

/-- Ten minutes and a second of silence. -/
def silence : List (Act Unit) :=
  [.accept () 0, .tick, .wheel] ++ (List.replicate 599 quietTick).flatten ++ evictingTick

theorem path_silence : ∃ w, Path (system Unit server) {} silence (evicted w) := by
  obtain ⟨w₁, hw₁, h₁⟩ := path_silent_one
  obtain ⟨w₂, hw₂, h₂⟩ := path_quietTicks (n := 599) hw₁ (by omega)
  exact ⟨_, (h₁.append h₂).append (path_evictingTick hw₂)⟩

/-- Only the main thread makes steps. -/
theorem mem_silence {a : Act Unit} (h : a ∈ silence) :
    a = .accept () 0 ∨ a = .tick ∨ a = .wheel := by
  rcases List.mem_append.mp h with h | h
  · rcases List.mem_append.mp h with h | h
    · simpa using h
    · obtain ⟨acts, hacts, h⟩ := List.mem_flatten.mp h
      rw [List.eq_of_mem_replicate hacts] at h
      simp only [quietTick, List.mem_cons, List.not_mem_nil, or_false] at h
      tauto
  · simp only [evictingTick, List.mem_cons, List.not_mem_nil, or_false] at h
    tauto

end path

/-! ### Releases -/

/-- A read event that starts no message callback. -/
theorem step_event_read {revents : EpollFlags} {script : List ReadResult} {write : WriteResult}
    (hpc : (s.loops l).pc = .handling ((c, revents) :: batch)) (hlive : ¬ s.Freed c)
    (hh : ((s.conns c).report revents).event.handle = some .preConnMsgCallback)
    (h : server.preConnMsgCallback l s.timeInProcess script ((s.conns c).report revents) =
      some (conn, .loop)) : s.step server (.event l script write) =
        some ((s.setPc l (.handling batch)).setConn c conn) := by
  have hs : Session.handle server.source l revents s.timeInProcess script write
      { conn := s.conns c } = some { conn, control := .loop } := Session.step_read hh h
  unfold step
  simp only [hpc, if_neg hlive, handleConn, hs, Option.bind_eq_bind, Option.bind_some, if_true]

/-- **Connections are released once**, in every run in which no step of an owner destroys a
connection that the wheel is evicting: `destroy()` and `delete` run at most once for each, and no
step uses an event or a connection that was freed. -/
theorem released_once (hidle : server.idleConnectionsManager = true)
    (h : Reachable ((system ι server).guarded SparesEvicting) s) :
    s.fault = false ∧ ∀ c, (s.conns c).destroys ≤ 1 ∧ (s.conns c).deletes ≤ 1 := by
  have ho := owned_of_reachable hidle h
  refine ⟨ho.fault, fun c => ⟨(ho.sound c).once, ?_⟩⟩
  have ht := ho.token c
  have ha : (s.accepted c).toNat ≤ 1 := Bool.toNat_le _
  omega

/-- The owner runs the task. -/
def eviction : List (Act Unit) := [.poll 0 [], .swap 0, .runTask 0]

/-- The silent connection is evicted, and released once. -/
theorem released_once_silence : ∃ s : IdleConnectionsManager Unit,
    Path ((system Unit managed).guarded SparesEvicting) {} (silence ++ eviction) s ∧
      (s.conns ()).deletes = 1 ∧ s.fault = false ∧
        ∀ c, (s.conns c).destroys ≤ 1 ∧ (s.conns c).deletes ≤ 1 := by
  obtain ⟨w, hsilence⟩ := @path_silence managed
  have hguarded := hsilence.guarded_of (C := SparesEvicting) fun a ha s => by
    rcases mem_silence ha with rfl | rfl | rfl <;> trivial
  have hpath : ∃ s : IdleConnectionsManager Unit,
      Path ((system Unit managed).guarded SparesEvicting) (evicted w) eviction s ∧
        (s.conns ()).deletes = 1 := by
    refine ⟨_, .cons ⟨⟨rfl, ?_, rfl⟩, trivial⟩ (.cons ⟨⟨rfl, trivial, rfl⟩, trivial⟩
      (.cons ⟨⟨rfl, trivial, rfl⟩, trivial⟩ (.nil _))), rfl⟩
    exact ⟨rfl, List.nodup_nil, nofun⟩
  obtain ⟨s, hpath, hdel⟩ := hpath
  have hp := hguarded.append hpath
  exact ⟨s, hp, hdel, released_once rfl (hp.reachable (.init rfl))⟩

/-- The peer closes before the owner runs the task: the end of the file is handled first. -/
def lateClose : List (Act Unit) :=
  [.poll 0 [((), { EPOLLIN := true })], .event 0 [.data []] (.accepted 0), .swap 0, .runTask 0]

/-- In this run the task destroys the connection again, and uses its freed event. -/
theorem released_twice : ∃ s : IdleConnectionsManager Unit,
    Path (system Unit managed) {} (silence ++ lateClose) s ∧ (s.conns ()).destroys = 2 ∧
      s.fault = true := by
  obtain ⟨w, hsilence⟩ := path_silence
  have hpath : ∃ s : IdleConnectionsManager Unit,
      Path (system Unit managed) (evicted w) lateClose s ∧ (s.conns ()).destroys = 2 ∧
        s.fault = true := by
    let c₀ := (TcpServer.accepted 0 0).report { EPOLLIN := true }
    obtain ⟨rb, hread⟩ : ∃ readBuffer : ValidBuffer IO_BUFFER_SIZE,
        managed.preConnMsgCallback 0 601 [.data []] c₀ =
          some (closeNow false false { c₀ with data := some 0, readBuffer }, .loop) :=
      TcpServer.preConnMsgCallback_of_nonpos (by decide) (by decide) rfl
    let s₁ := (evicted w).setPc 0 (.handling [((), { EPOLLIN := true })])
    let s₂ := (s₁.setPc 0 (.handling [])).setConn ()
      (closeNow false false { c₀ with data := some 0, readBuffer := rb })
    have hevent : s₁.step managed (.event 0 [.data []] (.accepted 0)) = some s₂ :=
      step_event_read rfl (by rintro (hd | hd) <;> cases hd) rfl hread
    refine ⟨_, .cons ⟨rfl, ?_, rfl⟩ (.cons ⟨rfl, ⟨by decide, ?_⟩, hevent⟩
      (.cons ⟨rfl, trivial, rfl⟩ (.cons ⟨rfl, trivial, rfl⟩ (.nil _)))), rfl, rfl⟩
    · refine ⟨rfl, by decide, fun c revents hin => ?_⟩
      simp only [List.mem_singleton, Prod.mk.injEq] at hin
      obtain ⟨-, rfl⟩ := hin
      exact ⟨rfl, rfl, rfl, EpollFlags.reportable_read rfl⟩
    · intro c revents batch _
      exact Nat.zero_le _
  obtain ⟨s, hpath, hs⟩ := hpath
  exact ⟨s, hsilence.append hpath, hs⟩

end IdleConnectionsManager

end Dagger
