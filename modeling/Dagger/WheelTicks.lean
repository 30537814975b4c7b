import Dagger.ConnectionRefs

/-! # The ticks of the wheel

The runs of one server in which `eraseIdleConnections` is not interrupted: connections are added,
receive and are closed between two ticks.  `timeInProcess` may wrap around; the history counts the
ticks themselves, and records what was handed to `runInLoop`.

`checkConn` is one round of the loop; `tick_path` shows that the steps of the main thread in
`TimeWheeling.lean` come to these rounds when nothing happens in between. -/

namespace Dagger

open Transition

/-- A server's wheel with its history. -/
structure WheelRun (ι : Type) where
  manager : IdleConnectionsManager ι := {}
  ticks : ℕ := 0
  /-- The ticks before the connection received last, or was added. -/
  receivedAt : ι → ℕ := fun _ => 0
  /-- The tasks handed to `runInLoop`. -/
  handed : List (Task ι) := []

namespace WheelRun

variable {ι : Type}

inductive Act (ι : Type) where
  /-- `acceptCallback`. -/
  | add (c : ι) (l : LoopId)
  /-- `lastReceiveTime = timeInProcess`. -/
  | receive (c : ι)
  /-- `state_ = CLOSED`. -/
  | close (c : ι)
  | tick

def Act.isTick : Act ι → Bool
  | tick => true
  | _ => false

section Defs

variable (s : WheelRun ι)

/-- `c` was handed to `runInLoop`. -/
def HandedOver (c : ι) : Prop := c ∈ s.handed.map Task.conn

def conn (c : ι) : TcpConnection := s.manager.conns c

def wheel : TimerWheelingPolicy ι := s.manager.wheelPolicy

def bucket (b : Fin MAX_IDLE_SECONDS) : List ι := s.wheel.wheeling b

/-- `conn->eventLoop()->runInLoop(..)`. -/
def handOver (task : Task ι) : WheelRun ι :=
  { s with
    manager := s.manager.runInLoop (s.conn task.conn).loop task
    handed := s.handed ++ [task] }

def addNewConnection (c : ι) : WheelRun ι :=
  { s with manager := { s.manager with wheelPolicy := s.wheel.addNewConnection c } }

/-- One round of the loop in `eraseIdleConnections`. -/
def checkConn (c : ι) : WheelRun ι :=
  if (s.conn c).state = .CLOSED then s.handOver (.deleteConn c)
  else if (s.conn c).state = .ESTABLISHED then
    if s.manager.isIdle c then s.handOver (.destoryThenDeleteConn c) else s.addNewConnection c
  else s

def eraseIdleConnections : WheelRun ι :=
  let t := (s.bucket s.wheel.checkIndex).foldl checkConn s
  { t with manager := { t.manager with wheelPolicy := t.wheel.clear.timeElasped } }

/-- The state in which a tick looks at the connections. -/
def ticked : WheelRun ι :=
  { s with
    manager := { s.manager with timeInProcess := s.manager.timeInProcess + 1 }
    ticks := s.ticks + 1 }

/-- The tick callback. -/
def tick : WheelRun ι := s.ticked.eraseIdleConnections

variable [DecidableEq ι]

def next : Act ι → WheelRun ι
  | .add c l => { s with
      manager := s.manager.acceptCallback c l
      receivedAt := Function.update s.receivedAt c s.ticks }
  | .receive c => { s with
      manager := s.manager.setConn c
        { s.conn c with lastReceiveTime := s.manager.timeInProcess }
      receivedAt := Function.update s.receivedAt c s.ticks }
  | .close c => { s with manager := s.manager.setConn c { s.conn c with state := .CLOSED } }
  | .tick => s.tick

def Legal : Act ι → Prop
  | .add c _ => s.manager.accepted c = false
  | .receive c => s.manager.accepted c = true ∧ (s.conn c).state = .ESTABLISHED
  | .close c => s.manager.accepted c = true
  | .tick => True

end Defs

/-- The runs from a server without connections, at any value of the counter. -/
def system (ι : Type) [DecidableEq ι] : System (WheelRun ι) (Act ι) where
  Init s := ∃ time, s = { manager := .start time }
  Step s a t := s.Legal a ∧ t = s.next a

variable {s t : WheelRun ι} {c : ι} {a : Act ι}

/-! ### The loop over a bucket -/

/-- What becomes of a connection that is looked at. -/
def verdict (s : WheelRun ι) (c : ι) : Option (Task ι) :=
  if (s.conn c).state = .CLOSED then some (.deleteConn c)
  else if s.manager.isIdle c then some (.destoryThenDeleteConn c)
  else none

theorem verdict_of_closed (h : (s.conn c).state = .CLOSED) :
    s.verdict c = some (.deleteConn c) := if_pos h

theorem verdict_of_established (h : (s.conn c).state = .ESTABLISHED) :
    s.verdict c = if s.manager.isIdle c then some (.destoryThenDeleteConn c) else none := by
  have hne : (s.conn c).state ≠ .CLOSED := by simp [h]
  exact if_neg hne

/-- The rounds of the loop change neither connections nor times. -/
structure Frame (s t : WheelRun ι) : Prop where
  conns : t.manager.conns = s.manager.conns
  accepted : t.manager.accepted = s.manager.accepted
  time : t.manager.timeInProcess = s.manager.timeInProcess
  ticks : t.ticks = s.ticks
  receivedAt : t.receivedAt = s.receivedAt
  index : t.wheel.curBucketIndex = s.wheel.curBucketIndex

theorem Frame.verdict (h : Frame s t) : t.verdict = s.verdict := by
  funext c
  unfold WheelRun.verdict IdleConnectionsManager.isIdle conn
  rw [h.conns, h.time]

/-- A round hands the connection over, or moves it to the current bucket. -/
theorem checkConn_spec (hst : (s.conn c).state = .ESTABLISHED ∨ (s.conn c).state = .CLOSED) :
    Frame s (s.checkConn c) ∧ (s.checkConn c).handed = s.handed ++ (s.verdict c).toList ∧
      (s.checkConn c).wheel.wheeling = Function.update s.wheel.wheeling s.wheel.curBucketIndex
        (s.bucket s.wheel.curBucketIndex ++ if (s.verdict c).isNone then [c] else []) := by
  unfold checkConn
  by_cases hc : (s.conn c).state = .CLOSED
  · rw [verdict_of_closed hc, if_pos hc]
    refine ⟨⟨rfl, rfl, rfl, rfl, rfl, rfl⟩, rfl, ?_⟩
    simp [bucket, handOver, wheel, IdleConnectionsManager.runInLoop]
  · have he := hst.resolve_right hc
    rw [verdict_of_established he, if_neg hc, if_pos he]
    by_cases hidle : s.manager.isIdle c = true
    · simp only [hidle, if_true]
      refine ⟨⟨rfl, rfl, rfl, rfl, rfl, rfl⟩, rfl, ?_⟩
      simp [bucket, handOver, wheel, IdleConnectionsManager.runInLoop]
    · simp only [hidle, if_false, Bool.false_eq_true]
      refine ⟨⟨rfl, rfl, rfl, rfl, rfl, rfl⟩, ?_, rfl⟩
      simp [addNewConnection]

/-- The connections of the bucket go to `runInLoop` or to the current bucket, in order. -/
theorem foldl_checkConn : ∀ (cs : List ι) {s : WheelRun ι},
    (∀ c ∈ cs, (s.conn c).state = .ESTABLISHED ∨ (s.conn c).state = .CLOSED) →
    Frame s (cs.foldl checkConn s) ∧
      (cs.foldl checkConn s).handed = s.handed ++ cs.filterMap s.verdict ∧
      (cs.foldl checkConn s).wheel.wheeling =
        Function.update s.wheel.wheeling s.wheel.curBucketIndex
          (s.bucket s.wheel.curBucketIndex ++ cs.filter fun c => (s.verdict c).isNone)
  | [], s, _ => by
      refine ⟨⟨rfl, rfl, rfl, rfl, rfl, rfl⟩, by simp, ?_⟩
      simp [bucket]
  | c :: cs, s, h => by
      obtain ⟨hf, hh, hw⟩ := checkConn_spec (h c List.mem_cons_self)
      have hst : ∀ c' ∈ cs, ((s.checkConn c).conn c').state = .ESTABLISHED ∨
          ((s.checkConn c).conn c').state = .CLOSED := by
        intro c' hc'
        unfold conn
        rw [hf.conns]
        exact h c' (List.mem_cons_of_mem _ hc')
      obtain ⟨hf', hh', hw'⟩ := foldl_checkConn cs hst
      refine ⟨?_, ?_, ?_⟩
      · exact ⟨hf'.conns.trans hf.conns, hf'.accepted.trans hf.accepted, hf'.time.trans hf.time,
          hf'.ticks.trans hf.ticks, hf'.receivedAt.trans hf.receivedAt, hf'.index.trans hf.index⟩
      · rw [List.foldl_cons, hh', hf.verdict, hh, List.append_assoc]
        cases hv : s.verdict c <;> simp [hv]
      · rw [List.foldl_cons, hw', hf.verdict, hf.index]
        unfold bucket
        rw [hw, Function.update_self, Function.update_idem]
        cases hv : s.verdict c <;> simp [hv, bucket]

/-- What a tick does. -/
structure Ticked (s t : WheelRun ι) : Prop where
  conns : t.manager.conns = s.manager.conns
  accepted : t.manager.accepted = s.manager.accepted
  time : t.manager.timeInProcess = s.manager.timeInProcess + 1
  ticks : t.ticks = s.ticks + 1
  receivedAt : t.receivedAt = s.receivedAt
  checkIndex : t.wheel.checkIndex = s.wheel.curBucketIndex
  handed : t.handed = s.handed ++ (s.bucket s.wheel.checkIndex).filterMap s.ticked.verdict
  bucket : t.bucket s.wheel.curBucketIndex = s.bucket s.wheel.curBucketIndex ++
    (s.bucket s.wheel.checkIndex).filter fun c => (s.ticked.verdict c).isNone
  others : (∀ b, b ≠ s.wheel.curBucketIndex → b ≠ s.wheel.checkIndex → s.bucket b = []) →
    ∀ b, b ≠ s.wheel.curBucketIndex → t.bucket b = []

theorem tick_spec (h : ∀ c, (s.conn c).state = .ESTABLISHED ∨ (s.conn c).state = .CLOSED) :
    Ticked s s.tick := by
  obtain ⟨hf, hh, hw⟩ := foldl_checkConn (s.bucket s.wheel.checkIndex) (s := s.ticked)
    (fun c _ => h c)
  set u := (s.bucket s.wheel.checkIndex).foldl checkConn s.ticked with hu
  have htick : s.tick =
      { u with manager := { u.manager with wheelPolicy := u.wheel.clear.timeElasped } } := rfl
  have hindex : u.wheel.curBucketIndex = s.wheel.curBucketIndex := hf.index
  have hcheck : u.wheel.checkIndex = s.wheel.checkIndex :=
    TimerWheelingPolicy.checkIndex_congr hindex
  have hbucket : ∀ b, s.tick.bucket b = u.wheel.clear.timeElasped.wheeling b := fun _ => rfl
  refine ⟨?_, ?_, ?_, ?_, ?_, ?_, ?_, ?_, ?_⟩
  · exact hf.conns
  · exact hf.accepted
  · exact hf.time
  · exact hf.ticks
  · exact hf.receivedAt
  · exact (u.wheel.clear.checkIndex_timeElasped).trans hindex
  · exact hh
  · rw [hbucket, ← hindex, u.wheel.wheeling_filled, hw, hindex]
    exact Function.update_self _ _ _
  · intro ho b hb
    rw [hbucket]
    refine u.wheel.wheeling_empty (fun b hb hb' => ?_) (by rwa [hindex])
    rw [hindex] at hb
    rw [hcheck] at hb'
    rw [hw]
    exact (Function.update_of_ne hb _ _).trans (ho b hb hb')

/-! ### The invariant -/

variable [DecidableEq ι]

/-- How often `c` is in the wheel or was handed over. -/
def places (s : WheelRun ι) (c : ι) : ℕ :=
  (s.bucket s.wheel.curBucketIndex).count c + (s.bucket s.wheel.checkIndex).count c +
    (s.handed.map Task.conn).count c

/-- Every connection that was added is in one of the two buckets in use, or was handed over. -/
structure Turning (s : WheelRun ι) : Prop where
  state : ∀ c, (s.conn c).state = .ESTABLISHED ∨ (s.conn c).state = .CLOSED
  /-- The counter knows the time since the last receive up to its wrap-around. -/
  elapsed : ∀ c, s.manager.accepted c = true → s.receivedAt c ≤ s.ticks ∧
    s.manager.timeInProcess - (s.conn c).lastReceiveTime = UInt32.ofNat (s.ticks - s.receivedAt c)
  once : ∀ c, s.places c = (s.manager.accepted c).toNat
  others : ∀ b, b ≠ s.wheel.curBucketIndex → b ≠ s.wheel.checkIndex → s.bucket b = []
  fresh : ∀ c ∈ s.bucket s.wheel.curBucketIndex, s.receivedAt c = s.ticks
  recent : ∀ c ∈ s.bucket s.wheel.checkIndex, (s.conn c).state = .ESTABLISHED →
    s.ticks - s.receivedAt c ≤ MAX_IDLE_SECONDS

omit [DecidableEq ι] in
theorem verdict_conn {task : Task ι} (h : s.verdict c = some task) : task.conn = c := by
  unfold verdict at h
  split_ifs at h
  · obtain rfl := Option.some.inj h
    rfl
  · obtain rfl := Option.some.inj h
    rfl

/-- No connection is lost or doubled by the loop. -/
theorem count_checked (s : WheelRun ι) (c : ι) : ∀ cs : List ι,
    (cs.filter fun c => (s.verdict c).isNone).count c +
      ((cs.filterMap s.verdict).map Task.conn).count c = cs.count c
  | [] => rfl
  | c' :: cs => by
      have ih := count_checked s c cs
      cases hv : s.verdict c' with
      | none =>
          simp only [hv, List.filter_cons, List.filterMap_cons, Option.isNone_none, if_true,
            List.count_cons]
          omega
      | some task =>
          simp only [hv, List.filter_cons, List.filterMap_cons, Option.isNone_some,
            Bool.false_eq_true, if_false, List.map_cons, List.count_cons, verdict_conn hv]
          omega

theorem Ticked.places (h : Ticked s t) (ho : ∀ b, b ≠ s.wheel.curBucketIndex →
    b ≠ s.wheel.checkIndex → s.bucket b = []) (c : ι) : t.places c = s.places c := by
  have hcur : t.wheel.curBucketIndex ≠ s.wheel.curBucketIndex := by
    rw [← h.checkIndex]
    exact t.wheel.checkIndex_ne.symm
  have hchecked := count_checked s.ticked c (s.bucket s.wheel.checkIndex)
  unfold WheelRun.places
  rw [h.others ho _ hcur, h.checkIndex, h.bucket, h.handed, List.map_append, List.count_append,
    List.count_append, List.count_nil]
  omega

/-- At a receive no time has passed. -/
theorem elapsed_now (n : UInt32) (k : ℕ) : n - n = UInt32.ofNat (k - k) := by
  rw [UInt32.sub_self, Nat.sub_self]
  rfl

/-- The connections of the bucket that stay have been heard of within `MAX_IDLE_SECONDS`. -/
theorem idle_iff (h : s.Turning) (ha : s.manager.accepted c = true)
    (hage : s.ticks - s.receivedAt c ≤ MAX_IDLE_SECONDS) :
    s.ticked.manager.isIdle c = true ↔ MAX_IDLE_SECONDS < s.ticks + 1 - s.receivedAt c := by
  obtain ⟨hle, helapsed⟩ := h.elapsed c ha
  have hnow : s.manager.timeInProcess + 1 - (s.conn c).lastReceiveTime =
      UInt32.ofNat (s.ticks - s.receivedAt c + 1) := by
    rw [UInt32.ofNat_add, ← helapsed]
    grind
  have hsucc : s.ticks - s.receivedAt c + 1 = s.ticks + 1 - s.receivedAt c := by omega
  unfold IdleConnectionsManager.isIdle
  rw [decide_eq_true_iff]
  show MAX_IDLE_SECONDS < (s.manager.timeInProcess + 1 - (s.conn c).lastReceiveTime).toNat ↔ _
  rw [hnow, UInt32.toNat_ofNat', hsucc, Nat.mod_eq_of_lt]
  simp only [MAX_IDLE_SECONDS] at hage
  omega

theorem Turning.accepted_of_mem (h : s.Turning) {b : Fin MAX_IDLE_SECONDS}
    (hc : c ∈ s.bucket b) : s.manager.accepted c = true := by
  have honce := h.once c
  have hpos := List.count_pos_iff.mpr hc
  unfold places at honce
  by_cases hcur : b = s.wheel.curBucketIndex
  · rw [← hcur] at honce
    exact Bool.toNat_eq_one.mp (by have := Bool.toNat_le (s.manager.accepted c); omega)
  · by_cases hcheck : b = s.wheel.checkIndex
    · rw [← hcheck] at honce
      exact Bool.toNat_eq_one.mp (by have := Bool.toNat_le (s.manager.accepted c); omega)
    · rw [h.others b hcur hcheck] at hc
      cases hc

/-! ### The steps -/

theorem turning_tick (h : s.Turning) : s.tick.Turning := by
  have ht := tick_spec h.state
  have hconn : s.tick.conn = s.conn := ht.conns
  refine ⟨fun c => ?_, fun c ha => ?_, fun c => ?_, fun b hb hb' => ?_, fun c hc => ?_,
    fun c hc he => ?_⟩
  · rw [hconn]
    exact h.state c
  · rw [ht.accepted] at ha
    obtain ⟨hle, helapsed⟩ := h.elapsed c ha
    rw [ht.receivedAt, ht.ticks, ht.time, hconn]
    have hsucc : s.ticks + 1 - s.receivedAt c = s.ticks - s.receivedAt c + 1 := by omega
    refine ⟨by omega, ?_⟩
    rw [hsucc, UInt32.ofNat_add, ← helapsed]
    grind
  · rw [ht.places h.others, ht.accepted]
    exact h.once c
  · rw [ht.checkIndex] at hb'
    exact ht.others h.others b hb'
  · -- the current bucket is empty
    have hcur : s.tick.wheel.curBucketIndex ≠ s.wheel.curBucketIndex := by
      rw [← ht.checkIndex]
      exact s.tick.wheel.checkIndex_ne.symm
    rw [ht.others h.others _ hcur] at hc
    cases hc
  · rw [ht.checkIndex, ht.bucket, List.mem_append, List.mem_filter] at hc
    rw [hconn] at he
    rw [ht.ticks, ht.receivedAt]
    rcases hc with hc | ⟨hc, hnone⟩
    · rw [h.fresh c hc]
      simp only [MAX_IDLE_SECONDS]
      omega
    · have ha := h.accepted_of_mem hc
      have hidle := idle_iff h ha (h.recent c hc he)
      have he' : (s.ticked.conn c).state = .ESTABLISHED := he
      have hnot : ¬ s.ticked.manager.isIdle c = true := by
        intro hi
        simp [verdict_of_established he', hi] at hnone
      rw [hidle] at hnot
      omega

theorem turning_add (h : s.Turning) (l : LoopId) (hl : s.manager.accepted c = false) :
    (s.next (.add c l)).Turning := by
  have hnone : s.places c = 0 := by
    rw [h.once c, hl]
    rfl
  have hcur : (s.next (.add c l)).bucket s.wheel.curBucketIndex =
      s.bucket s.wheel.curBucketIndex ++ [c] := s.wheel.wheeling_addNewConnection_self c
  have hne : ∀ b, b ≠ s.wheel.curBucketIndex → (s.next (.add c l)).bucket b = s.bucket b :=
    fun b hb => s.wheel.wheeling_addNewConnection c hb
  have hnew : (s.next (.add c l)).conn c = TcpServer.accepted l s.manager.timeInProcess :=
    Function.update_self ..
  have hold : ∀ c', c' ≠ c → (s.next (.add c l)).conn c' = s.conn c' ∧
      (s.next (.add c l)).manager.accepted c' = s.manager.accepted c' ∧
        (s.next (.add c l)).receivedAt c' = s.receivedAt c' := fun c' hc' =>
    ⟨Function.update_of_ne hc' _ _, Function.update_of_ne hc' _ _, Function.update_of_ne hc' _ _⟩
  have hreceived : (s.next (.add c l)).receivedAt c = s.ticks := Function.update_self ..
  refine ⟨fun c' => ?_, fun c' ha => ?_, fun c' => ?_, fun b hb hb' => ?_, fun c' hc' => ?_,
    fun c' hc' he => ?_⟩
  · by_cases hcc : c' = c
    · rw [hcc, hnew]
      exact Or.inl rfl
    · rw [(hold c' hcc).1]
      exact h.state c'
  · by_cases hcc : c' = c
    · rw [hcc, hnew, hreceived]
      exact ⟨Nat.le_refl _, elapsed_now _ _⟩
    · obtain ⟨h1, h2, h3⟩ := hold c' hcc
      rw [h2] at ha
      rw [h1, h3]
      exact h.elapsed c' ha
  · have hcount : (s.next (.add c l)).places c' = s.places c' + if c = c' then 1 else 0 := by
      have hcheck := hne s.wheel.checkIndex s.wheel.checkIndex_ne
      show ((s.next (.add c l)).bucket s.wheel.curBucketIndex).count c' +
        ((s.next (.add c l)).bucket s.wheel.checkIndex).count c' + _ = _
      rw [hcur, hcheck, List.count_append, List.count_singleton]
      unfold places
      show _ + (s.handed.map Task.conn).count c' = _
      simp only [beq_iff_eq]
      omega
    rw [hcount]
    by_cases hcc : c' = c
    · have ha : (s.next (.add c l)).manager.accepted c = true := Function.update_self ..
      rw [hcc, hnone, if_pos rfl, ha]
      rfl
    · rw [if_neg (Ne.symm hcc), (hold c' hcc).2.1]
      exact h.once c'
  · rw [hne b hb]
    exact h.others b hb hb'
  · have hc' : c' ∈ (s.next (.add c l)).bucket s.wheel.curBucketIndex := hc'
    rw [hcur, List.mem_append, List.mem_singleton] at hc'
    by_cases hcc : c' = c
    · rw [hcc]
      exact hreceived
    · rw [(hold c' hcc).2.2]
      exact h.fresh c' (hc'.resolve_right hcc)
  · have hc' : c' ∈ (s.next (.add c l)).bucket s.wheel.checkIndex := hc'
    rw [hne _ s.wheel.checkIndex_ne] at hc'
    have ha : s.manager.accepted c' = true := h.accepted_of_mem hc'
    have hcc : c' ≠ c := by
      rintro rfl
      rw [hl] at ha
      cases ha
    obtain ⟨h1, -, h3⟩ := hold c' hcc
    rw [h1] at he
    rw [h3]
    exact h.recent c' hc' he

theorem turning_receive (h : s.Turning) (hst : (s.conn c).state = .ESTABLISHED) :
    (s.next (.receive c)).Turning := by
  have hnew : (s.next (.receive c)).conn c =
      { s.conn c with lastReceiveTime := s.manager.timeInProcess } := Function.update_self ..
  have hreceived : (s.next (.receive c)).receivedAt c = s.ticks := Function.update_self ..
  have hold : ∀ c', c' ≠ c → (s.next (.receive c)).conn c' = s.conn c' ∧
      (s.next (.receive c)).receivedAt c' = s.receivedAt c' := fun c' hc' =>
    ⟨Function.update_of_ne hc' _ _, Function.update_of_ne hc' _ _⟩
  refine ⟨fun c' => ?_, fun c' ha => ?_, h.once, h.others, fun c' hc' => ?_, fun c' hc' he => ?_⟩
  · by_cases hcc : c' = c
    · rw [hcc, hnew]
      exact Or.inl hst
    · rw [(hold c' hcc).1]
      exact h.state c'
  · by_cases hcc : c' = c
    · rw [hcc, hnew, hreceived]
      exact ⟨Nat.le_refl _, elapsed_now _ _⟩
    · rw [(hold c' hcc).1, (hold c' hcc).2]
      exact h.elapsed c' ha
  · by_cases hcc : c' = c
    · rw [hcc]
      exact hreceived
    · rw [(hold c' hcc).2]
      exact h.fresh c' hc'
  · by_cases hcc : c' = c
    · rw [hcc, hreceived]
      show s.ticks - s.ticks ≤ _
      omega
    · rw [(hold c' hcc).1] at he
      rw [(hold c' hcc).2]
      exact h.recent c' hc' he

theorem turning_close (h : s.Turning) : (s.next (.close c)).Turning := by
  have hnew : (s.next (.close c)).conn c = { s.conn c with state := .CLOSED } :=
    Function.update_self ..
  have hold : ∀ c', c' ≠ c → (s.next (.close c)).conn c' = s.conn c' :=
    fun c' hc' => Function.update_of_ne hc' _ _
  refine ⟨fun c' => ?_, fun c' ha => ?_, h.once, h.others, h.fresh, fun c' hc' he => ?_⟩
  · by_cases hcc : c' = c
    · rw [hcc, hnew]
      exact Or.inr rfl
    · rw [hold c' hcc]
      exact h.state c'
  · by_cases hcc : c' = c
    · rw [hcc, hnew]
      exact h.elapsed c (hcc ▸ ha)
    · rw [hold c' hcc]
      exact h.elapsed c' ha
  · by_cases hcc : c' = c
    · rw [hcc, hnew] at he
      cases he
    · rw [hold c' hcc] at he
      exact h.recent c' hc' he

theorem turning_step (h : s.Turning) (hs : (system ι).Step s a t) : t.Turning := by
  obtain ⟨hl, rfl⟩ := hs
  cases a with
  | add c l => exact turning_add h l hl
  | receive c => exact turning_receive h hl.2
  | close c => exact turning_close h
  | tick => exact turning_tick h

theorem turning_of_reachable (h : Reachable (system ι) s) : s.Turning := by
  refine h.invariant ?_ (fun _ _ _ => turning_step)
  rintro _ ⟨time, rfl⟩
  exact ⟨fun _ => Or.inl rfl, nofun, fun _ => rfl, fun _ _ _ => rfl, nofun, nofun⟩

/-! ### What is handed over -/

/-- A connection that was not handed over is in one slot of the two buckets in use. -/
theorem Turning.in_wheel (h : s.Turning) (ha : s.manager.accepted c = true)
    (hn : ¬ s.HandedOver c) : (s.bucket s.wheel.curBucketIndex).count c +
      (s.bucket s.wheel.checkIndex).count c = 1 := by
  have honce := h.once c
  rw [ha] at honce
  unfold places at honce
  rw [List.count_eq_zero.mpr hn] at honce
  exact honce

theorem Turning.not_handedOver (h : s.Turning) {b : Fin MAX_IDLE_SECONDS}
    (hb : b = s.wheel.curBucketIndex ∨ b = s.wheel.checkIndex) (hc : c ∈ s.bucket b) :
    ¬ s.HandedOver c := by
  intro hh
  have honce := h.once c
  have hle := Bool.toNat_le (s.manager.accepted c)
  have hpos := List.count_pos_iff.mpr hc
  have hpos' := List.count_pos_iff.mpr hh
  unfold places at honce
  rcases hb with rfl | rfl <;> omega

/-- The tick at which a connection is handed over for destruction. -/
theorem evicted_tick (h : s.Turning) :
    (Task.destoryThenDeleteConn c ∈ s.tick.handed ∧ Task.destoryThenDeleteConn c ∉ s.handed) ↔
      s.manager.accepted c = true ∧ ¬ s.HandedOver c ∧ (s.conn c).state = .ESTABLISHED ∧
        MAX_IDLE_SECONDS < s.ticks + 1 - s.receivedAt c := by
  have ht := tick_spec h.state
  rw [ht.handed, List.mem_append, List.mem_filterMap]
  constructor
  · rintro ⟨hin | ⟨c', hc', hv⟩, hnot⟩
    · exact absurd hin hnot
    · obtain rfl : c = c' := verdict_conn hv
      have ha := h.accepted_of_mem hc'
      have he : (s.conn c).state = .ESTABLISHED := by
        refine (h.state c).resolve_right fun hcl => ?_
        have hcl' : (s.ticked.conn c).state = .CLOSED := hcl
        simp [verdict_of_closed hcl'] at hv
      have he' : (s.ticked.conn c).state = .ESTABLISHED := he
      have hidle : s.ticked.manager.isIdle c = true := by
        by_contra hidle
        simp [verdict_of_established he', hidle] at hv
      exact ⟨ha, h.not_handedOver (Or.inr rfl) hc', he,
        (idle_iff h ha (h.recent c hc' he)).mp hidle⟩
  · rintro ⟨ha, hn, he, hage⟩
    have hwheel := h.in_wheel ha hn
    have hcur : c ∉ s.bucket s.wheel.curBucketIndex := by
      intro hc
      rw [h.fresh c hc] at hage
      simp only [MAX_IDLE_SECONDS] at hage
      omega
    rw [List.count_eq_zero.mpr hcur, Nat.zero_add] at hwheel
    have hc : c ∈ s.bucket s.wheel.checkIndex := List.count_pos_iff.mp (by omega)
    have hidle := (idle_iff h ha (h.recent c hc he)).mpr hage
    have he' : (s.ticked.conn c).state = .ESTABLISHED := he
    refine ⟨Or.inr ⟨c, hc, by simp [verdict_of_established he', hidle]⟩, fun hin => ?_⟩
    exact hn (List.mem_map_of_mem hin)

/-- Only a tick hands connections over. -/
theorem handed_eq_of_ne (hs : (system ι).Step s a t) (ha : a ≠ .tick) : t.handed = s.handed := by
  obtain ⟨-, rfl⟩ := hs
  cases a with
  | tick => exact absurd rfl ha
  | _ => rfl

/-- `c` is closed, and was handed over for deletion or will be within `n` ticks. -/
def ClosedFor (c : ι) (s : WheelRun ι) : ℕ → Prop
  | 0 => .deleteConn c ∈ s.handed
  | 1 => (s.conn c).state = .CLOSED ∧ c ∈ s.bucket s.wheel.checkIndex
  | _ => (s.conn c).state = .CLOSED ∧ c ∈ s.bucket s.wheel.curBucketIndex

theorem Turning.closedFor (h : s.Turning) (ha : s.manager.accepted c = true)
    (hn : ¬ s.HandedOver c) (hc : (s.conn c).state = .CLOSED) : ∃ n ≤ 2, ClosedFor c s n := by
  have hwheel := h.in_wheel ha hn
  by_cases hcheck : c ∈ s.bucket s.wheel.checkIndex
  · exact ⟨1, by omega, hc, hcheck⟩
  · rw [List.count_eq_zero.mpr hcheck, Nat.add_zero] at hwheel
    exact ⟨2, Nat.le_refl _, hc, List.count_pos_iff.mp (by omega)⟩

/-- A tick takes a closed connection one place further. -/
theorem closedFor_tick (h : s.Turning) : ∀ {n : ℕ}, n ≤ 2 → ClosedFor c s n →
    ClosedFor c s.tick (n - 1)
  | 0, _, hc => by
      have hin : .deleteConn c ∈ s.handed := hc
      show _ ∈ s.tick.handed
      rw [(tick_spec h.state).handed]
      exact List.mem_append_left _ hin
  | 1, _, ⟨hst, hc⟩ => by
      show _ ∈ s.tick.handed
      rw [(tick_spec h.state).handed, List.mem_append, List.mem_filterMap]
      have hst' : (s.ticked.conn c).state = .CLOSED := hst
      exact Or.inr ⟨c, hc, verdict_of_closed hst'⟩
  | 2, _, ⟨hst, hc⟩ => by
      have ht := tick_spec h.state
      refine ⟨?_, ?_⟩
      · unfold conn
        rw [ht.conns]
        exact hst
      · rw [ht.checkIndex, ht.bucket]
        exact List.mem_append_left _ hc

/-- Between two ticks no connection leaves its bucket. -/
theorem mem_bucket_of_ne (ha : a ≠ .tick) {b : Fin MAX_IDLE_SECONDS} (hb : c ∈ s.bucket b) :
    c ∈ (s.next a).bucket b := by
  cases a with
  | add c' l =>
      show c ∈ (s.wheel.addNewConnection c').wheeling b
      by_cases hcur : b = s.wheel.curBucketIndex
      · rw [hcur] at hb ⊢
        rw [s.wheel.wheeling_addNewConnection_self]
        exact List.mem_append_left _ hb
      · rw [s.wheel.wheeling_addNewConnection c' hcur]
        exact hb
  | tick => exact absurd rfl ha
  | _ => exact hb

/-- A closed connection is not opened again. -/
theorem closed_of_ne (hacc : s.manager.accepted c = true) (hst : (s.conn c).state = .CLOSED)
    (hl : s.Legal a) (ha : a ≠ .tick) : ((s.next a).conn c).state = .CLOSED := by
  have hne : ∀ c' conn, c ≠ c' → (Function.update s.manager.conns c' conn c).state = .CLOSED := by
    intro c' conn hcc
    rw [Function.update_of_ne hcc]
    exact hst
  cases a with
  | add c' l =>
      refine hne c' _ ?_
      rintro rfl
      rw [show s.manager.accepted c = false from hl] at hacc
      cases hacc
  | receive c' =>
      refine hne c' _ ?_
      rintro rfl
      rw [hl.2] at hst
      cases hst
  | close c' =>
      by_cases hcc : c = c'
      · subst hcc
        show (Function.update s.manager.conns c _ c).state = _
        rw [Function.update_self]
      · exact hne c' _ hcc
  | tick => exact absurd rfl ha

/-- Between two ticks a closed connection stays where it is. -/
theorem closedFor_of_ne (h : s.Turning) {n : ℕ} (hc : ClosedFor c s n)
    (hs : (system ι).Step s a t) (ha : a ≠ .tick) : ClosedFor c t n := by
  have hhanded := handed_eq_of_ne hs ha
  obtain ⟨hl, rfl⟩ := hs
  have hindex : (s.next a).wheel.curBucketIndex = s.wheel.curBucketIndex ∧
      (s.next a).wheel.checkIndex = s.wheel.checkIndex := by
    cases a with
    | tick => exact absurd rfl ha
    | _ => exact ⟨rfl, rfl⟩
  match n, hc with
  | 0, hc =>
      show _ ∈ (s.next a).handed
      rw [hhanded]
      exact hc
  | 1, ⟨hst, hc⟩ =>
      refine ⟨closed_of_ne (h.accepted_of_mem hc) hst hl ha, ?_⟩
      rw [hindex.2]
      exact mem_bucket_of_ne ha hc
  | n + 2, ⟨hst, hc⟩ =>
      refine ⟨closed_of_ne (h.accepted_of_mem hc) hst hl ha, ?_⟩
      rw [hindex.1]
      exact mem_bucket_of_ne ha hc

theorem closed_handed {as : List (Act ι)} (hp : Path (system ι) s as t) (h : Reachable (system ι) s)
    {n : ℕ} (hn : n ≤ 2) (hc : ClosedFor c s n) : ClosedFor c t (n - as.countP Act.isTick) := by
  induction hp generalizing n with
  | nil => exact hc
  | @cons s u t a as hs _ ih =>
      have ht := turning_of_reachable h
      cases a with
      | tick =>
          obtain ⟨-, rfl⟩ := hs
          have htick := ih (h.step (a := .tick) ⟨trivial, rfl⟩) (by omega) (closedFor_tick ht hn hc)
          rw [List.countP_cons_of_pos rfl]
          rwa [Nat.sub_sub, Nat.add_comm] at htick
      | _ =>
          rw [List.countP_cons_of_neg Bool.false_ne_true]
          exact ih (h.step hs) hn (closedFor_of_ne ht hc hs nofun)

/-- **The wheel is correct** in every run, whatever the counter starts at.  A connection that was
added and not handed over is in exactly one slot of the current bucket and the one before it;
nothing is handed over twice; an established connection is handed over for destruction exactly at
the tick at which it has not received for more than `MAX_IDLE_SECONDS` ticks, and a closed one for
deletion within two ticks. -/
theorem wheel_correct (h : Reachable (system ι) s) :
    (∀ c, s.manager.accepted c = true → ¬ s.HandedOver c →
      (s.bucket s.wheel.curBucketIndex).count c + (s.bucket s.wheel.checkIndex).count c = 1 ∧
        ∀ b, b ≠ s.wheel.curBucketIndex → b ≠ s.wheel.checkIndex → c ∉ s.bucket b) ∧
    (∀ c, (s.handed.map Task.conn).count c ≤ 1) ∧
    (∀ c, s.manager.accepted c = true → ¬ s.HandedOver c → (s.conn c).state = .ESTABLISHED →
      s.ticks - s.receivedAt c ≤ MAX_IDLE_SECONDS) ∧
    (∀ c a t, (system ι).Step s a t →
      ((.destoryThenDeleteConn c ∈ t.handed ∧ .destoryThenDeleteConn c ∉ s.handed) ↔
        a = .tick ∧ s.manager.accepted c = true ∧ ¬ s.HandedOver c ∧
          (s.conn c).state = .ESTABLISHED ∧ MAX_IDLE_SECONDS < t.ticks - t.receivedAt c)) ∧
    ∀ c as t, s.manager.accepted c = true → ¬ s.HandedOver c → (s.conn c).state = .CLOSED →
      Path (system ι) s as t → 2 ≤ as.countP Act.isTick → .deleteConn c ∈ t.handed := by
  have ht := turning_of_reachable h
  refine ⟨fun c ha hn => ⟨ht.in_wheel ha hn, fun b hb hb' => ?_⟩, fun c => ?_,
    fun c ha hn he => ?_, fun c a t hs => ?_, fun c as t ha hn hst hp htwo => ?_⟩
  · rw [ht.others b hb hb']
    exact List.not_mem_nil
  · have honce := ht.once c
    have hle := Bool.toNat_le (s.manager.accepted c)
    unfold places at honce
    omega
  · have hwheel := ht.in_wheel ha hn
    by_cases hcur : c ∈ s.bucket s.wheel.curBucketIndex
    · rw [ht.fresh c hcur]
      omega
    · rw [List.count_eq_zero.mpr hcur, Nat.zero_add] at hwheel
      exact ht.recent c (List.count_pos_iff.mp (by omega)) he
  · by_cases ha : a = .tick
    · subst ha
      obtain ⟨-, rfl⟩ := hs
      have hspec := tick_spec ht.state
      have htick := evicted_tick (c := c) ht
      show (_ ∈ s.tick.handed ∧ _) ↔ _ ∧ _ ∧ _ ∧ _ ∧ _ < s.tick.ticks - s.tick.receivedAt c
      rw [hspec.ticks, hspec.receivedAt, htick]
      exact ⟨fun hx => ⟨rfl, hx⟩, fun hx => hx.2⟩
    · rw [handed_eq_of_ne hs ha]
      exact iff_of_false (fun hx => hx.2 hx.1) fun hx => ha hx.1
  · obtain ⟨n, hn2, hc⟩ := ht.closedFor ha hn hst
    have hend := closed_handed hp h hn2 hc
    have hzero : n - as.countP Act.isTick = 0 := by omega
    rw [hzero] at hend
    exact hend

/-- A connection is accepted at the last value of the counter, and closed. -/
def closedAtWrap : WheelRun Unit :=
  (next { manager := .start 0xFFFFFFFF } (.add () 0)).next (.close ())

theorem wheel_correct_closedAtWrap : Task.deleteConn () ∈ closedAtWrap.tick.tick.handed := by
  have h₀ : Reachable (system Unit) { manager := .start 0xFFFFFFFF } :=
    .init ⟨_, rfl⟩
  have hadd : (system Unit).Step { manager := .start 0xFFFFFFFF } (.add () 0)
      (next { manager := .start 0xFFFFFFFF } (.add () 0)) := ⟨rfl, rfl⟩
  have hclose : (system Unit).Step (next { manager := .start 0xFFFFFFFF }
      (.add () 0)) (.close ()) closedAtWrap := ⟨rfl, rfl⟩
  have h₁ : Reachable (system Unit) closedAtWrap := (h₀.step hadd).step hclose
  have hp : Path (system Unit) closedAtWrap [.tick, .tick] closedAtWrap.tick.tick :=
    .cons ⟨trivial, rfl⟩ (.cons ⟨trivial, rfl⟩ (.nil _))
  exact (wheel_correct h₁).2.2.2.2 () _ _ rfl nofun rfl hp (by decide)

/-! ### The steps of the main thread -/

/-- The manager while the main thread is at `main`. -/
def atPc (s : WheelRun ι) (main : WheelPc ι) : IdleConnectionsManager ι := { s.manager with main }

section Path

variable (server : TcpServer)

omit [DecidableEq ι] in
/-- Connections are looked at only while they are there. -/
theorem use_eq {m t : IdleConnectionsManager ι} (hd : (m.conns c).deletes = 0) : m.use c t = t :=
  if_neg (Nat.not_lt.mpr (Nat.le_of_eq hd))

/-- One round of the loop is made of steps of the main thread. -/
theorem checkConn_path (rest : List ι) (hf : s.manager.fault = false)
    (hd : (s.conn c).deletes = 0)
    (hst : (s.conn c).state = .ESTABLISHED ∨ (s.conn c).state = .CLOSED) :
    ∃ n, Path (IdleConnectionsManager.system ι server) (s.atPc (.scan (c :: rest)))
      (List.replicate n .wheel) ((s.checkConn c).atPc (.scan rest)) := by
  have hstep : ∀ {main : WheelPc ι} {t : IdleConnectionsManager ι},
      (s.atPc main).wheelStep = some t →
        (IdleConnectionsManager.system ι server).Step (s.atPc main) .wheel t :=
    fun hw => ⟨hf, trivial, hw⟩
  have hscan : (s.atPc (.scan (c :: rest))).wheelStep = some (s.atPc
      (if (s.conn c).state = .CLOSED then .decided (.deleteConn c) rest else .notClosed c rest)) :=
    congrArg some (use_eq hd)
  have hdecided : ∀ task : Task ι, task.conn = c →
      (s.atPc (.decided task rest)).wheelStep = some ((s.handOver task).atPc (.scan rest)) := by
    rintro task rfl
    exact congrArg some (use_eq hd)
  unfold checkConn
  by_cases hc : (s.conn c).state = .CLOSED
  · rw [if_pos hc] at hscan ⊢
    exact ⟨2, .cons (hstep hscan) (.cons (hstep (hdecided _ rfl)) (.nil _))⟩
  · have he := hst.resolve_right hc
    have hnot : (s.atPc (.notClosed c rest)).wheelStep = some (s.atPc
        (if (s.conn c).state = .ESTABLISHED then .established c rest else .scan rest)) :=
      congrArg some (use_eq hd)
    have hest : (s.atPc (.established c rest)).wheelStep = some (
        if s.manager.isIdle c then s.atPc (.decided (.destoryThenDeleteConn c) rest)
        else (s.addNewConnection c).atPc (.scan rest)) := congrArg some (use_eq hd)
    rw [if_neg hc] at hscan
    rw [if_pos he] at hnot
    rw [if_neg hc, if_pos he]
    by_cases hidle : s.manager.isIdle c = true
    · rw [if_pos hidle] at hest ⊢
      exact ⟨4, .cons (hstep hscan) (.cons (hstep hnot) (.cons (hstep hest)
        (.cons (hstep (hdecided _ rfl)) (.nil _))))⟩
    · rw [if_neg hidle] at hest ⊢
      exact ⟨3, .cons (hstep hscan) (.cons (hstep hnot) (.cons (hstep hest) (.nil _)))⟩

omit [DecidableEq ι] in
theorem fault_foldl (cs : List ι) : (cs.foldl checkConn s).manager.fault = s.manager.fault := by
  induction cs generalizing s with
  | nil => rfl
  | cons c cs ih =>
      rw [List.foldl_cons, ih]
      unfold checkConn
      split_ifs <;> rfl

/-- The whole loop is made of steps of the main thread, if the others wait meanwhile. -/
theorem foldl_path : ∀ (cs : List ι) {s : WheelRun ι}, s.manager.fault = false →
    (∀ c ∈ cs, (s.conn c).deletes = 0 ∧
      ((s.conn c).state = .ESTABLISHED ∨ (s.conn c).state = .CLOSED)) →
    ∃ n, Path (IdleConnectionsManager.system ι server) (s.atPc (.scan cs))
      (List.replicate n .wheel) ((cs.foldl checkConn s).atPc (.scan []))
  | [], s, _, _ => ⟨0, .nil _⟩
  | c :: cs, s, hf, h => by
      obtain ⟨hd, hst⟩ := h c List.mem_cons_self
      obtain ⟨n, hp⟩ := checkConn_path server cs hf hd hst
      have hconns := (checkConn_spec hst).1.conns
      have hfault : (s.checkConn c).manager.fault = false := (fault_foldl [c]).trans hf
      obtain ⟨m, hp'⟩ := foldl_path cs hfault (fun c' hc' => by
        unfold conn
        rw [hconns]
        exact h c' (List.mem_cons_of_mem _ hc'))
      refine ⟨n + m, ?_⟩
      rw [List.replicate_add]
      exact hp.append hp'

/-- **A tick that is not interrupted** is a run of the main thread in `TimeWheeling.lean`. -/
theorem tick_path (h : s.Turning) (hf : s.manager.fault = false) (hm : s.manager.main = .idle)
    (hd : ∀ c ∈ s.bucket s.wheel.checkIndex, (s.conn c).deletes = 0) :
    ∃ n, Path (IdleConnectionsManager.system ι server) s.manager (.tick :: List.replicate n .wheel)
      (s.tick.atPc .idle) := by
  obtain ⟨n, hp⟩ := foldl_path server (s.bucket s.wheel.checkIndex) (s := s.ticked) hf
    (fun c hc => ⟨hd c hc, h.state c⟩)
  have hfault := (fault_foldl (s := s.ticked) (s.bucket s.wheel.checkIndex)).trans hf
  refine ⟨n + 1, .cons ⟨hf, hm, rfl⟩ ?_⟩
  rw [List.replicate_succ']
  exact hp.append (.cons ⟨hfault, trivial, rfl⟩ (.nil _))

end Path

end WheelRun

end Dagger
