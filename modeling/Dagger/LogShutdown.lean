import Dagger.LogBuffers

/-! # Shutdown of the logger

After the final drain the background thread takes `mutex_` a second time, under the `lock_guard`
of the drain.  It stays there for good, and whoever called `stop` waits for a notification that
does not come (`shutdown_stuck`). -/

namespace Dagger

/-- In the loop of `backThread`. -/
def BackPhase.Serving : BackPhase → Prop
  | test | lock | check | waiting | collect | swap | refill | write => True
  | _ => False

/-- Not in `stop`. -/
def CallPhase.InLog : CallPhase → Prop
  | idle | logging _ | logged => True
  | _ => False

namespace Logger

open Transition

variable {ι : Type} {s t : Logger ι}

/-- A thread is about to take `mutex_` while it holds it. -/
def SelfLock (s : Logger ι) : Prop := ∃ k, s.AtLock k ∧ s.mutex = some k

/-- `SelfLock` is possible at one place only. -/
theorem selfLock_iff (h : s.Exclusive) : s.SelfLock ↔ s.back = .drainRelock := by
  constructor
  · rintro ⟨k, hk, hm⟩
    have hh := (h k).mpr hm
    cases k with
    | caller i =>
        have hk' : (s.callers i).AtLock := hk
        have hh' : (s.callers i).Holds := hh
        cases hp : s.callers i <;> rw [hp] at hk' hh' <;> first | exact hk'.elim | exact hh'.elim
    | background =>
        have hk' : s.back.AtLock := hk
        have hh' : s.back.Holds := hh
        cases hp : s.back <;> rw [hp] at hk' hh' <;>
          first | rfl | exact hk'.elim | exact hh'.elim
  · intro hb
    refine ⟨.background, ?_, (h .background).mp ?_⟩
    · unfold AtLock
      rw [hb]
      trivial
    · unfold Holds
      rw [hb]
      trivial

variable [DecidableEq ι]

/-- The background thread takes no step any more. -/
def Halted (s : Logger ι) : Prop :=
  ∀ as t, Path (system ι) s as t → ∀ r waiter, .back r waiter ∉ as

/-- `stop` waits, and no notification is to come. -/
def Forsaken (s : Logger ι) : Prop := (∃ i, s.callers i = .waiting) ∧ s.Halted

/-- `stop` is not called. -/
def NeverStops (_ : Logger ι) : Act ι → Prop
  | .stop _ => False
  | _ => True

/-! ### Runs without `stop` -/

/-- The background thread is in its loop, and no thread in `stop`. -/
structure Runs (s : Logger ι) : Prop where
  running : s.running = true
  back : s.back.Serving
  callers : ∀ i, (s.callers i).InLog

theorem Runs.setCaller (h : s.Runs) {i : ι} {phase : CallPhase} (hp : phase.InLog) :
    (s.setCaller i phase).Runs := by
  refine ⟨h.running, h.back, fun j => ?_⟩
  show (Function.update s.callers i phase j).InLog
  by_cases hj : j = i
  · rw [hj, Function.update_self]
    exact hp
  · rw [Function.update_of_ne hj]
    exact h.callers j

theorem runs_back (h : s.Runs) {r : WriteResult} {waiter : Option ι}
    (hs : s.backThread r waiter = some t) : t.Runs := by
  have hback := h.back
  cases back_cases hs with
  | leave hb hr => exact absurd h.running (by rw [hr]; nofun)
  | write hb hf hbs => exact ⟨h.running, hback, h.callers⟩
  | enter | lock | wait | pass | waken | collect | swap | refill | written =>
      exact ⟨h.running, trivial, h.callers⟩
  | drainLock hb | drainCollect hb | drainWrite hb | drained hb | drainRelock hb | notify hb
  | notifyOne hb | finished hb =>
      rw [hb] at hback
      exact hback.elim

theorem runs_step {a : Act ι} (h : s.Runs) (hs : ((system ι).guarded NeverStops).Step s a t) :
    t.Runs := by
  obtain ⟨⟨hl, hn⟩, hguard⟩ := hs
  -- no thread is inside `stop`
  have hout : ∀ i phase, s.callers i = phase → phase.InLog := fun i phase he => he ▸ h.callers i
  cases a with
  | log i level logline buf tv_usec =>
      obtain rfl | ⟨msg, rfl⟩ := log_cases hn
      · exact h
      · exact h.setCaller trivial
  | store i =>
      obtain ⟨⟨msg, hi⟩, hm⟩ := hl
      obtain ⟨u, hu, rfl⟩ := store_cases hi hn
      have hset : (s.setCaller i .logged).Runs := h.setCaller trivial
      obtain ⟨buf, ⟨-, rfl⟩ | ⟨-, rfl⟩⟩ := storeMsg_cases hu
      · exact ⟨hset.running, hset.back, hset.callers⟩
      · exact ⟨hset.running, hset.back, hset.callers⟩
  | endLog i =>
      obtain rfl := Option.some.inj hn
      have hset : (s.setCaller i .idle).Runs := h.setCaller trivial
      exact ⟨hset.running, hset.back, hset.callers⟩
  | setLogLevel level =>
      obtain rfl := Option.some.inj hn
      exact ⟨h.running, h.back, h.callers⟩
  | stop i => exact hguard.elim
  | lockStop i => exact (hout i _ hl.1).elim
  | waitStop i => exact (hout i _ hl).elim
  | wake i => exact (hout i _ hl).elim
  | relockStop i => exact (hout i _ hl.1).elim
  | endStop i => exact (hout i _ hl).elim
  | back r waiter => exact runs_back h hn

theorem runs_of_reachable (h : Reachable ((system ι).guarded NeverStops) s) : s.Runs := by
  refine h.invariant ?_ (fun _ _ _ => runs_step)
  rintro _ rfl
  exact ⟨rfl, trivial, fun _ => trivial⟩

/-! ### Runs with `stop` -/

/-- After a call of `stop` the background thread leaves its loop at the next test. -/
def Leaving (s : Logger ι) : Prop :=
  s.stopCalled = true → s.back.Serving → s.running = false

theorem leaving_back (h : s.Leaving) {r : WriteResult} {waiter : Option ι}
    (hs : s.backThread r waiter = some t) : t.Leaving := by
  unfold Leaving at h
  cases back_cases hs with
  | enter hb hr =>
      rw [hb] at h
      exact fun hc _ => absurd hr (by rw [h hc trivial]; nofun)
  | lock hb | wait hb | pass hb | waken hb | collect hb | swap hb | refill hb | written hb =>
      rw [hb] at h
      exact h
  | write | finished => exact h
  | leave | drainLock | drainCollect | drainWrite | drained | drainRelock | notify | notifyOne =>
      -- the loop has been left
      exact fun _ => False.elim

theorem leaving_step {a : Act ι} (h : s.Leaving) (hs : (system ι).Step s a t) : t.Leaving := by
  cases stepped hs with
  | store hi hm hu =>
      obtain ⟨buf, ⟨-, rfl⟩ | ⟨-, rfl⟩⟩ := storeMsg_cases hu
      · exact h
      · exact h
  | back hl ht => exact leaving_back h ht
  | aside hstop =>
      obtain ⟨rfl, rfl⟩ | rfl := hstop
      · exact h
      · exact fun _ _ => rfl

theorem leaving_of_reachable (h : Reachable (system ι) s) : s.Leaving := by
  refine h.invariant ?_ (fun _ _ _ => leaving_step)
  rintro _ rfl
  exact nofun

/-- The background thread can still get to its second `lock_guard`. -/
def Stuck (s : Logger ι) : Prop := ∃ as t, Path (system ι) s as t ∧ t.SelfLock

theorem Stuck.step {a : Act ι} (hs : (system ι).Step s a t) (h : t.Stuck) : s.Stuck := by
  obtain ⟨as, u, hp, hu⟩ := h
  exact ⟨a :: as, u, .cons hs hp, hu⟩

/-- A lock that the background thread waits for is released by the caller that holds it. -/
theorem stuck_of_free (hr : Reachable (system ι) s) (hb : ¬ s.back.Holds)
    (h : ∀ callers, Reachable (system ι) { s with callers, mutex := none } →
      Stuck { s with callers, mutex := none }) : s.Stuck := by
  have hx := exclusive_of_reachable hr
  cases hm : s.mutex with
  | none =>
      have he : s = { s with callers := s.callers, mutex := none } := by rw [← hm]
      rw [he] at hr ⊢
      exact h _ hr
  | some k =>
      have hk := (hx k).mpr hm
      cases k with
      | background => exact absurd hk hb
      | caller i =>
          have hfree : ∀ (a : Act ι) phase, s.Legal a →
              s.next a = some { s.setCaller i phase with mutex := none } → s.Stuck := by
            intro a phase hl hn
            have hs : (system ι).Step s a { s.setCaller i phase with mutex := none } := ⟨hl, hn⟩
            exact (h _ (hr.step hs)).step hs
          have hp : (s.callers i).Holds := hk
          cases hc : s.callers i with
          | logged => exact hfree (.endLog i) .idle hc rfl
          | stopLocked => exact hfree (.waitStop i) .waiting hc rfl
          | stopped => exact hfree (.endStop i) .idle hc rfl
          | _ =>
              rw [hc] at hp
              exact hp.elim

theorem stuck_of_drainRelock (hr : Reachable (system ι) s) (hb : s.back = .drainRelock) :
    s.Stuck :=
  ⟨[], s, .nil s, (selfLock_iff (exclusive_of_reachable hr)).mpr hb⟩

/-- The background thread goes one step further. -/
theorem stuck_of_back (hr : Reachable (system ι) s) (r : WriteResult)
    (hl : s.BackEnabled r none)
    (h : ∀ t, s.backThread r none = some t → Reachable (system ι) t → t.Stuck) : s.Stuck := by
  obtain ⟨t, ht⟩ :=
    Option.isSome_iff_exists.mp (isSome_backThread (filled_of_reachable hr) r none)
  have hs : (system ι).Step s (.back r none) t := ⟨hl, ht⟩
  exact (h t ht (hr.step hs)).step hs

theorem stuck_of_drainWrite : ∀ {rest : List Ptr} {s : Logger ι}, Reachable (system ι) s →
    s.back = .drainWrite rest → s.Stuck
  | [], s, hr, hb => by
      refine stuck_of_back hr (.accepted 0) ?_ fun t ht hr' => ?_
      · simp [BackEnabled, hb]
      · simp only [backThread, hb, Option.some.injEq] at ht
        exact stuck_of_drainRelock hr' (ht ▸ rfl)
  | ptr :: rest, s, hr, hb => by
      refine stuck_of_back hr (.accepted 0) ?_ fun t ht hr' => ?_
      · simp [BackEnabled, hb, WriteResult.Possible]
      · simp only [backThread, hb] at ht
        obtain ⟨u, -, rfl⟩ := Option.map_eq_some_iff.mp ht
        exact stuck_of_drainWrite hr' rfl

theorem stuck_of_drainCollect (hr : Reachable (system ι) s) (hb : s.back = .drainCollect) :
    s.Stuck := by
  refine stuck_of_back hr (.accepted 0) ?_ fun t ht hr' => ?_
  · simp [BackEnabled, hb]
  · simp only [backThread, hb, Option.some.injEq] at ht
    subst ht
    exact stuck_of_drainWrite hr' rfl

theorem stuck_of_drainLock (hr : Reachable (system ι) s) (hb : s.back = .drainLock) :
    s.Stuck := by
  refine stuck_of_free hr (by rw [hb]; exact id) fun callers hr₁ => ?_
  refine stuck_of_back hr₁ (.accepted 0) ?_ fun t ht hr₂ => ?_
  · simp [BackEnabled, hb]
  · simp only [backThread, hb, Option.some.injEq] at ht
    exact stuck_of_drainCollect hr₂ (ht ▸ rfl)

theorem stuck_of_test (hr : Reachable (system ι) s) (hb : s.back = .test)
    (hc : s.running = false) : s.Stuck := by
  refine stuck_of_back hr (.accepted 0) ?_ fun t ht hr' => ?_
  · simp [BackEnabled, hb]
  · simp only [backThread, hb, hc, Option.some.injEq] at ht
    exact stuck_of_drainLock hr' (ht ▸ rfl)

theorem stuck_of_write : ∀ {n : ℕ} {s : Logger ι}, s.fullBuffers.length = n →
    Reachable (system ι) s → s.back = .write → s.running = false → s.Stuck
  | 0, s, hn, hr, hb, hc => by
      have hf := List.eq_nil_of_length_eq_zero hn
      refine stuck_of_back hr (.accepted 0) ?_ fun t ht hr' => ?_
      · simp [BackEnabled, hb, hf]
      · simp only [backThread, hb, hf, Option.some.injEq] at ht
        subst ht
        exact stuck_of_test hr' rfl hc
  | n + 1, s, hn, hr, hb, hc => by
      obtain ⟨ptr, rest, hf⟩ := List.exists_cons_of_length_eq_add_one hn
      refine stuck_of_back hr (.accepted 0) ?_ fun t ht hr' => ?_
      · simp [BackEnabled, hb, hf, WriteResult.Possible]
      · simp only [backThread, hb, hf] at ht
        obtain ⟨u, hu, rfl⟩ := Option.map_eq_some_iff.mp ht
        obtain ⟨buf, bs, -, rfl, -⟩ := writeBuf_cases hu
        rw [hf] at hn
        exact stuck_of_write (Nat.succ.inj hn) hr' hb hc

theorem stuck_of_refill (hr : Reachable (system ι) s) (hb : s.back = .refill)
    (hc : s.running = false) : s.Stuck := by
  refine stuck_of_back hr (.accepted 0) ?_ fun t ht hr' => ?_
  · simp [BackEnabled, hb]
  · simp only [backThread, hb, Option.some.injEq] at ht
    subst ht
    exact stuck_of_write rfl hr' rfl hc

theorem stuck_of_swap (hr : Reachable (system ι) s) (hb : s.back = .swap)
    (hc : s.running = false) : s.Stuck := by
  refine stuck_of_back hr (.accepted 0) ?_ fun t ht hr' => ?_
  · simp [BackEnabled, hb]
  · simp only [backThread, hb, Option.some.injEq] at ht
    subst ht
    exact stuck_of_refill hr' rfl hc

theorem stuck_of_collect (hr : Reachable (system ι) s) (hb : s.back = .collect)
    (hc : s.running = false) : s.Stuck := by
  refine stuck_of_back hr (.accepted 0) ?_ fun t ht hr' => ?_
  · simp [BackEnabled, hb]
  · simp only [backThread, hb, Option.some.injEq, pushCurrent_eq] at ht
    subst ht
    exact stuck_of_swap hr' rfl hc

theorem stuck_of_waiting (hr : Reachable (system ι) s) (hb : s.back = .waiting)
    (hc : s.running = false) : s.Stuck := by
  refine stuck_of_free hr (by rw [hb]; exact id) fun callers hr₁ => ?_
  refine stuck_of_back hr₁ (.accepted 0) ?_ fun t ht hr₂ => ?_
  · simp [BackEnabled, hb]
  · simp only [backThread, hb, Option.some.injEq] at ht
    subst ht
    exact stuck_of_collect hr₂ rfl hc

theorem stuck_of_check (hr : Reachable (system ι) s) (hb : s.back = .check)
    (hc : s.running = false) : s.Stuck := by
  refine stuck_of_back hr (.accepted 0) ?_ fun t ht hr' => ?_
  · simp [BackEnabled, hb]
  · simp only [backThread, hb, Option.some.injEq] at ht
    subst ht
    split_ifs at hr' ⊢
    · exact stuck_of_waiting hr' rfl hc
    · exact stuck_of_collect hr' rfl hc

theorem stuck_of_lock (hr : Reachable (system ι) s) (hb : s.back = .lock)
    (hc : s.running = false) : s.Stuck := by
  refine stuck_of_free hr (by rw [hb]; exact id) fun callers hr₁ => ?_
  refine stuck_of_back hr₁ (.accepted 0) ?_ fun t ht hr₂ => ?_
  · simp [BackEnabled, hb]
  · simp only [backThread, hb, Option.some.injEq] at ht
    subst ht
    exact stuck_of_check hr₂ rfl hc

/-- The second `lock_guard` has not been passed. -/
def Unpassed (s : Logger ι) : Prop := s.back ≠ .notify ∧ s.back ≠ .finished

theorem unpassed_back (hx : s.Exclusive) (h : s.Unpassed) {r : WriteResult} {waiter : Option ι}
    (hl : s.BackEnabled r waiter) (hs : s.backThread r waiter = some t) : t.Unpassed := by
  cases back_cases hs with
  | drainRelock hb =>
      -- the thread holds the lock that it waits for
      have hm : s.mutex = none := by
        unfold BackEnabled at hl
        rwa [hb] at hl
      exact absurd (by rw [hb]; trivial) (hx.not_back_holds hm)
  | notify hb | notifyOne hb => exact absurd hb h.1
  | write | finished => exact h
  | _ => exact ⟨nofun, nofun⟩

/-- The callers of `log` and `stop` leave the background thread where it is. -/
theorem back_eq_of_step {a : Act ι} (hs : (system ι).Step s a t)
    (ha : ∀ r waiter, a ≠ .back r waiter) : t.back = s.back := by
  cases stepped hs with
  | store hi hm hu =>
      obtain ⟨buf, ⟨-, rfl⟩ | ⟨-, rfl⟩⟩ := storeMsg_cases hu
      · rfl
      · rfl
  | back hl ht => exact absurd rfl (ha _ _)
  | aside hstop => rfl

theorem unpassed_of_reachable (h : Reachable (system ι) s) : s.Unpassed := by
  refine h.invariant_of (fun _ => exclusive_of_reachable) ?_ fun s a t hx hu hs => ?_
  · rintro _ rfl
    exact ⟨nofun, nofun⟩
  · cases a with
    | back r waiter => exact unpassed_back hx hu hs.1 hs.2
    | _ =>
        have hb := back_eq_of_step hs (fun _ _ => nofun)
        unfold Unpassed
        rw [hb]
        exact hu

/-- From wherever it stands, the background thread can get to its second `lock_guard`. -/
theorem stuck_of_stopCalled (hr : Reachable (system ι) s) (hs : s.stopCalled = true) :
    s.Stuck := by
  have hleave := leaving_of_reachable hr hs
  have hu := unpassed_of_reachable hr
  cases h : s.back with
  | test => exact stuck_of_test hr h (hleave (by rw [h]; trivial))
  | lock => exact stuck_of_lock hr h (hleave (by rw [h]; trivial))
  | check => exact stuck_of_check hr h (hleave (by rw [h]; trivial))
  | waiting => exact stuck_of_waiting hr h (hleave (by rw [h]; trivial))
  | collect => exact stuck_of_collect hr h (hleave (by rw [h]; trivial))
  | swap => exact stuck_of_swap hr h (hleave (by rw [h]; trivial))
  | refill => exact stuck_of_refill hr h (hleave (by rw [h]; trivial))
  | write => exact stuck_of_write rfl hr h (hleave (by rw [h]; trivial))
  | drainLock => exact stuck_of_drainLock hr h
  | drainCollect => exact stuck_of_drainCollect hr h
  | drainWrite rest => exact stuck_of_drainWrite hr h
  | drainRelock => exact stuck_of_drainRelock hr h
  | notify => exact absurd h hu.1
  | finished => exact absurd h hu.2

/-- A thread that locks `mutex_` twice does not come back. -/
theorem halted_of_selfLock (hr : Reachable (system ι) s) (h : s.SelfLock) : s.Halted := by
  intro as t hp
  induction hp with
  | nil => nofun
  | cons hs hp ih =>
      rename_i s t u a as
      have hx := exclusive_of_reachable hr
      have hb := (selfLock_iff hx).mp h
      have hm : s.mutex = some .background := by
        refine (hx .background).mp ?_
        unfold Holds
        rw [hb]
        trivial
      have ha : ∀ r waiter, a ≠ .back r waiter := by
        rintro r waiter rfl
        have hl : s.BackEnabled r waiter := hs.1
        unfold BackEnabled at hl
        rw [hb] at hl
        rw [hm] at hl
        cases hl
      have hself : t.SelfLock := by
        rw [selfLock_iff (exclusive_of_reachable (hr.step hs)), back_eq_of_step hs ha]
        exact hb
      intro r waiter hin
      rcases List.mem_cons.mp hin with he | hin
      · exact ha r waiter he.symm
      · exact ih (hr.step hs) hself r waiter hin

/-- **Shutdown**: as long as `stop` is not called, no thread locks `mutex_` twice and none waits
in vain.  After a call of `stop`, whatever happens, the background thread can still come to lock
`mutex_` twice, and then takes no step any more. -/
theorem shutdown_stuck (s : Logger ι) :
    (Reachable ((system ι).guarded NeverStops) s → ¬ s.SelfLock ∧ ¬ s.Forsaken) ∧
    (Reachable (system ι) s → s.stopCalled = true →
      ∃ as t, Path (system ι) s as t ∧ t.SelfLock ∧ t.Halted) := by
  constructor
  · intro hr
    have hruns := runs_of_reachable hr
    refine ⟨fun hself => ?_, fun hf => ?_⟩
    · have hb := (selfLock_iff (exclusive_of_reachable hr.of_guarded)).mp hself
      have hback := hruns.back
      rw [hb] at hback
      exact hback
    · obtain ⟨⟨i, hi⟩, -⟩ := hf
      have hin := hruns.callers i
      rw [hi] at hin
      exact hin
  · intro hr hs
    obtain ⟨as, t, hp, hself⟩ := stuck_of_stopCalled hr hs
    exact ⟨as, t, hp, hself, halted_of_selfLock (hp.reachable hr) hself⟩

/-- `stop` is called, and waits. -/
def stopWaits : Logger Unit where
  running := false
  callers := fun _ => .waiting
  stopCalled := true

theorem reachable_stopWaits : Reachable (system Unit) stopWaits := by
  have hp : Path (system Unit) {} [.stop (), .lockStop (), .waitStop ()] stopWaits :=
    .cons ⟨rfl, rfl⟩ (.cons ⟨⟨rfl, rfl⟩, rfl⟩ (.cons ⟨rfl, rfl⟩ (.nil _)))
  exact hp.reachable (.init rfl)

theorem shutdown_stuck_stopWaits : ¬ ({} : Logger Unit).SelfLock ∧
    ∃ as t, Path (system Unit) stopWaits as t ∧ t.SelfLock ∧ t.Halted :=
  ⟨((shutdown_stuck {}).1 (.init rfl)).1, (shutdown_stuck _).2 reachable_stopWaits rfl⟩

/-- The drain locks `mutex_` twice, and `stop` waits for ever. -/
theorem stop_forsaken : ∃ s, Reachable (system Unit) s ∧ s.SelfLock ∧ s.Forsaken := by
  let s : Logger Unit := { stopWaits with
    running := true, mutex := some .background, back := .drainRelock
    currentBuffer := none, buffers := [some []] }
  let next : Act Unit := .back (.accepted 0) none
  have hp : Path (system Unit) stopWaits [next, next, next, next, next] s := by
    refine .cons ⟨trivial, rfl⟩ (.cons ⟨rfl, rfl⟩ (.cons ⟨trivial, rfl⟩ ?_))
    exact .cons ⟨fun _ _ => Nat.zero_le _, rfl⟩ (.cons ⟨nofun, rfl⟩ (.nil _))
  have hr := hp.reachable reachable_stopWaits
  have hself := (selfLock_iff (exclusive_of_reachable hr)).mpr rfl
  exact ⟨s, hr, hself, ⟨(), rfl⟩, halted_of_selfLock hr hself⟩

end Logger

end Dagger
