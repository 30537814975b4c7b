import Dagger.Logger
import Dagger.MutualExclusion

/-! # The lock of the logger

`mutex_` is held by the thread that is in one of its critical sections, and by no other
(`Exclusive`). -/

namespace Dagger

/-- The caller holds `mutex_`. -/
def CallPhase.Holds : CallPhase → Prop
  | logged | stopLocked | stopped => True
  | _ => False

/-- The caller is about to take `mutex_`. -/
def CallPhase.AtLock : CallPhase → Prop
  | logging _ | stopping | woken => True
  | _ => False

/-- The background thread holds `mutex_`. -/
def BackPhase.Holds : BackPhase → Prop
  | check | collect | swap | refill | drainCollect | drainWrite _ | drainRelock | notify => True
  | _ => False

/-- The background thread is about to take `mutex_`. -/
def BackPhase.AtLock : BackPhase → Prop
  | lock | waiting | drainLock | drainRelock => True
  | _ => False

namespace Logger

open Transition

variable {ι : Type} {s t : Logger ι}

def Holds (s : Logger ι) : Thread ι → Prop
  | .caller i => (s.callers i).Holds
  | .background => s.back.Holds

def AtLock (s : Logger ι) : Thread ι → Prop
  | .caller i => (s.callers i).AtLock
  | .background => s.back.AtLock

/-- `mutex_` is held by the thread that is in a critical section. -/
def Exclusive (s : Logger ι) : Prop := ∀ k, s.Holds k ↔ s.mutex = some k

/-! ### Taking and releasing the lock -/

theorem Exclusive.silent (h : s.Exclusive) (hm : t.mutex = s.mutex)
    (hs : ∀ k, t.Holds k ↔ s.Holds k) : t.Exclusive := by
  have ht : MutualExclusion.Exclusive t.Holds s.mutex := MutualExclusion.Exclusive.silent h hs
  rw [← hm] at ht
  exact ht

theorem Exclusive.acquire {k : Thread ι} (h : s.Exclusive) (hm : s.mutex = none)
    (hm' : t.mutex = some k) (hk : t.Holds k) (hne : ∀ j, j ≠ k → (t.Holds j ↔ s.Holds j)) :
    t.Exclusive := by
  have hs : MutualExclusion.Exclusive s.Holds s.mutex := h
  rw [hm] at hs
  have ht := hs.acquire hk hne
  rw [← hm'] at ht
  exact ht

theorem Exclusive.release {k : Thread ι} (h : s.Exclusive) (hk : s.Holds k)
    (hm' : t.mutex = none) (hk' : ¬ t.Holds k) (hne : ∀ j, j ≠ k → (t.Holds j ↔ s.Holds j)) :
    t.Exclusive := by
  have ht : MutualExclusion.Exclusive t.Holds none :=
    MutualExclusion.Exclusive.release h hk hk' hne
  rw [← hm'] at ht
  exact ht

theorem Exclusive.not_holds {k : Thread ι} (h : s.Exclusive) (hm : s.mutex = none) :
    ¬ s.Holds k := by
  have hs : MutualExclusion.Exclusive s.Holds s.mutex := h
  rw [hm] at hs
  exact hs.not_holds

/-- While `mutex_` is free, the background thread is outside its critical sections. -/
theorem Exclusive.not_back_holds (h : s.Exclusive) (hm : s.mutex = none) : ¬ s.back.Holds :=
  h.not_holds (k := .background) hm

theorem holds_of_back (hc : t.callers = s.callers) (j : Thread ι) (hj : j ≠ .background) :
    t.Holds j ↔ s.Holds j := by
  cases j with
  | caller i =>
      unfold Holds
      rw [hc]
  | background => exact absurd rfl hj

variable [DecidableEq ι]

theorem holds_of_caller {i : ι} {phase : CallPhase}
    (hc : t.callers = Function.update s.callers i phase) (hb : t.back = s.back) (j : Thread ι)
    (hj : j ≠ .caller i) : t.Holds j ↔ s.Holds j := by
  cases j with
  | caller k =>
      have hki : k ≠ i := fun he => hj (congrArg Thread.caller he)
      show (t.callers k).Holds ↔ (s.callers k).Holds
      rw [hc, Function.update_of_ne hki]
  | background =>
      show t.back.Holds ↔ s.back.Holds
      rw [hb]

theorem holds_caller {i : ι} {phase : CallPhase}
    (hc : t.callers = Function.update s.callers i phase) : t.Holds (.caller i) ↔ phase.Holds := by
  show (t.callers i).Holds ↔ phase.Holds
  rw [hc, Function.update_self]

/-- A caller goes on without touching the lock. -/
theorem Exclusive.setCaller (h : s.Exclusive) {i : ι} {phase : CallPhase}
    (hc : t.callers = Function.update s.callers i phase) (hb : t.back = s.back)
    (hm : t.mutex = s.mutex) (hp : phase.Holds ↔ (s.callers i).Holds) : t.Exclusive := by
  refine h.silent hm fun j => ?_
  by_cases hj : j = .caller i
  · rw [hj, holds_caller hc]
    exact hp
  · exact holds_of_caller hc hb j hj

theorem Exclusive.caller_acquire (h : s.Exclusive) {i : ι} {phase : CallPhase}
    (hc : t.callers = Function.update s.callers i phase) (hb : t.back = s.back)
    (hm : s.mutex = none) (hm' : t.mutex = some (.caller i)) (hp : phase.Holds) : t.Exclusive :=
  h.acquire hm hm' ((holds_caller hc).mpr hp) (holds_of_caller hc hb)

theorem Exclusive.caller_release (h : s.Exclusive) {i : ι} {phase : CallPhase}
    (hc : t.callers = Function.update s.callers i phase) (hb : t.back = s.back)
    (hi : (s.callers i).Holds) (hm' : t.mutex = none) (hp : ¬ phase.Holds) : t.Exclusive := by
  have hk : s.Holds (.caller i) := hi
  exact h.release hk hm' (fun ht => hp ((holds_caller hc).mp ht)) (holds_of_caller hc hb)

/-! ### Storing a message -/

omit [DecidableEq ι] in
theorem pushCurrent_eq (s : Logger ι) : s.pushCurrent = { s with
    buffers := s.buffers ++ s.currentBuffer.toList.map some
    currentBuffer := none } := by
  unfold pushCurrent
  cases hc : s.currentBuffer with
  | none =>
      simp only [Option.toList_none, List.map_nil, List.append_nil]
      exact (congrArg (fun ptr => { s with currentBuffer := ptr }) hc)
  | some buf => rfl

omit [DecidableEq ι] in
theorem takeEmpty_eq (s : Logger ι) : s.takeEmpty = { s with
    currentBuffer := s.emptys.getLast?.getD (some [])
    emptys := s.emptys.dropLast } := by
  unfold takeEmpty
  cases he : s.emptys.getLast? with
  | none =>
      rw [List.getLast?_eq_none_iff] at he
      simp only [he, Option.getD_none, List.dropLast_nil]
  | some ptr => rfl

omit [DecidableEq ι] in
/-- The message goes to the end of the buffer in use, or starts the next one. -/
theorem storeMsg_cases {msg : List Byte} (h : s.storeMsg msg = some t) :
    ∃ buf, (s.currentBuffer = some buf ∧
        t = { s with currentBuffer := some (buf ++ msg), logged := s.logged ++ [msg] }) ∨
      (s.emptys.getLast?.getD (some []) = some buf ∧ t = { s with
        buffers := s.buffers ++ s.currentBuffer.toList.map some
        currentBuffer := some (buf ++ msg)
        emptys := s.emptys.dropLast
        logged := s.logged ++ [msg] }) := by
  unfold storeMsg at h
  dsimp only at h
  split_ifs at h with hi
  · rw [pushCurrent_eq, takeEmpty_eq] at h
    obtain ⟨buf, hb, rfl⟩ := Option.map_eq_some_iff.mp h
    exact ⟨buf, Or.inr ⟨hb, rfl⟩⟩
  · obtain ⟨buf, hb, rfl⟩ := Option.map_eq_some_iff.mp h
    exact ⟨buf, Or.inl ⟨hb, rfl⟩⟩

/-- A `log` whose level is not enabled returns at once. -/
theorem log_cases {i : ι} {level : LogLevel} {logline buf : List Byte} {tv_usec : ℕ}
    (h : s.next (.log i level logline buf tv_usec) = some t) :
    t = s ∨ ∃ msg, t = s.setCaller i (.logging msg) := by
  unfold next at h
  dsimp only at h
  split_ifs at h
  · exact Or.inl (Option.some.inj h).symm
  · exact Or.inr ⟨_, (Option.some.inj h).symm⟩

/-- What the step of a `log` that stores its message comes to. -/
theorem store_cases {i : ι} {msg : List Byte} (hi : s.callers i = .logging msg)
    (h : s.next (.store i) = some t) :
    ∃ u, s.storeMsg msg = some u ∧
      t = { u.setCaller i .logged with mutex := some (.caller i) } := by
  unfold next at h
  simp only [hi] at h
  obtain ⟨u, hu, rfl⟩ := Option.map_eq_some_iff.mp h
  exact ⟨u, hu, rfl⟩

/-- A step stores a message, or is one of the background thread, or leaves the buffers and the
background thread alone. -/
inductive Stepped (s : Logger ι) : Act ι → Logger ι → Prop
  | store {i : ι} {msg : List Byte} {u : Logger ι} (hi : s.callers i = .logging msg)
      (hm : s.mutex = none) (hu : s.storeMsg msg = some u) :
      Stepped s (.store i) { u.setCaller i .logged with mutex := some (.caller i) }
  | back {r : WriteResult} {waiter : Option ι} {t : Logger ι} (hl : s.BackEnabled r waiter)
      (ht : s.backThread r waiter = some t) : Stepped s (.back r waiter) t
  | aside {a : Act ι} {callers : ι → CallPhase} {mutex : Option (Thread ι)} {level : LogLevel}
      {running stopCalled : Bool}
      (hstop : stopCalled = s.stopCalled ∧ running = s.running ∨ running = false) :
      Stepped s a { s with callers, mutex, level, running, stopCalled }

theorem stepped {a : Act ι} (hs : (system ι).Step s a t) : Stepped s a t := by
  obtain ⟨hl, hn⟩ := hs
  cases a with
  | log i level logline buf tv_usec =>
      obtain rfl | ⟨msg, rfl⟩ := log_cases hn
      · exact .aside (Or.inl ⟨rfl, rfl⟩)
      · exact .aside (Or.inl ⟨rfl, rfl⟩)
  | store i =>
      obtain ⟨⟨msg, hi⟩, hm⟩ := hl
      obtain ⟨u, hu, rfl⟩ := store_cases hi hn
      exact .store hi hm hu
  | stop i =>
      obtain rfl := Option.some.inj hn
      exact .aside (Or.inr rfl)
  | back r waiter => exact .back hl hn
  | _ =>
      obtain rfl := Option.some.inj hn
      exact .aside (Or.inl ⟨rfl, rfl⟩)

omit [DecidableEq ι] in
/-- A write of the background thread changes the output only. -/
theorem writeBuf_cases {ptr : Ptr} {r : WriteResult} (h : s.writeBuf ptr r = some t) :
    ∃ buf bs, ptr = some buf ∧ t = { s with written := s.written ++ bs } ∧
      ∀ n, r = .accepted n → bs = buf.take n := by
  unfold writeBuf at h
  obtain ⟨buf, rfl, rfl⟩ := Option.map_eq_some_iff.mp h
  cases r with
  | accepted n => exact ⟨buf, buf.take n, rfl, rfl, fun m hm => by cases hm; rfl⟩
  | error e =>
      refine ⟨buf, [], rfl, ?_, nofun⟩
      rw [List.append_nil]

/-! ### The steps of the background thread -/

/-- The steps of the background thread, one for each branch that it takes. -/
inductive BackStep (s : Logger ι) (r : WriteResult) (waiter : Option ι) : Logger ι → Prop
  | enter (hb : s.back = .test) (hr : s.running = true) : BackStep s r waiter { s with
      back := .lock
      newEmptys := List.replicate EMPTYS_INIT_SIZE (some [])
      fullBuffers := [] }
  | leave (hb : s.back = .test) (hr : s.running = false) :
      BackStep s r waiter { s with running := true, back := .drainLock }
  | lock (hb : s.back = .lock) :
      BackStep s r waiter { s with mutex := some .background, back := .check }
  | wait (hb : s.back = .check) (he : s.buffers = []) :
      BackStep s r waiter { s with mutex := none, back := .waiting }
  | pass (hb : s.back = .check) (he : s.buffers ≠ []) :
      BackStep s r waiter { s with back := .collect }
  | waken (hb : s.back = .waiting) :
      BackStep s r waiter { s with mutex := some .background, back := .collect }
  | collect (hb : s.back = .collect) : BackStep s r waiter { s with
      buffers := s.buffers ++ s.currentBuffer.toList.map some
      currentBuffer := none
      back := .swap }
  | swap (hb : s.back = .swap) : BackStep s r waiter { s with
      fullBuffers := s.buffers
      buffers := s.fullBuffers
      back := .refill }
  | refill (hb : s.back = .refill) : BackStep s r waiter { s with
      emptys := fillUp s.emptys s.newEmptys
      mutex := none
      back := .write }
  | write {buf bs : List Byte} {rest : List Ptr} (hb : s.back = .write)
      (hf : s.fullBuffers = some buf :: rest) (hbs : ∀ n, r = .accepted n → bs = buf.take n) :
      BackStep s r waiter { s with written := s.written ++ bs, fullBuffers := rest }
  | written (hb : s.back = .write) (hf : s.fullBuffers = []) :
      BackStep s r waiter { s with back := .test }
  | drainLock (hb : s.back = .drainLock) : BackStep s r waiter { s with
      mutex := some .background
      back := .drainCollect
      drained := s.logged }
  | drainCollect (hb : s.back = .drainCollect) : BackStep s r waiter { s with
      buffers := s.buffers ++ s.currentBuffer.toList.map some
      currentBuffer := none
      back := .drainWrite (s.buffers ++ s.currentBuffer.toList.map some) }
  | drainWrite {buf bs : List Byte} {rest : List Ptr}
      (hb : s.back = .drainWrite (some buf :: rest))
      (hbs : ∀ n, r = .accepted n → bs = buf.take n) :
      BackStep s r waiter { s with written := s.written ++ bs, back := .drainWrite rest }
  | drained (hb : s.back = .drainWrite []) : BackStep s r waiter { s with back := .drainRelock }
  | drainRelock (hb : s.back = .drainRelock) :
      BackStep s r waiter { s with mutex := some .background, back := .notify }
  | notify (hb : s.back = .notify) (hw : waiter = none) :
      BackStep s r waiter { s with mutex := none, back := .finished }
  | notifyOne {i : ι} (hb : s.back = .notify) (hw : waiter = some i) :
      BackStep s r waiter { s.setCaller i .woken with mutex := none, back := .finished }
  | finished (hb : s.back = .finished) : BackStep s r waiter s

theorem back_cases {r : WriteResult} {waiter : Option ι} (h : s.backThread r waiter = some t) :
    BackStep s r waiter t := by
  unfold backThread at h
  cases hb : s.back with
  | test =>
      simp only [hb, Option.some.injEq] at h
      subst h
      split_ifs with hr
      · exact .enter hb hr
      · exact .leave hb (Bool.eq_false_iff.mpr hr)
  | lock =>
      simp only [hb, Option.some.injEq] at h
      exact h ▸ .lock hb
  | check =>
      simp only [hb, Option.some.injEq] at h
      subst h
      split_ifs with he
      · exact .wait hb he
      · exact .pass hb he
  | waiting =>
      simp only [hb, Option.some.injEq] at h
      exact h ▸ .waken hb
  | collect =>
      simp only [hb, Option.some.injEq, pushCurrent_eq] at h
      exact h ▸ .collect hb
  | swap =>
      simp only [hb, Option.some.injEq] at h
      exact h ▸ .swap hb
  | refill =>
      simp only [hb, Option.some.injEq] at h
      exact h ▸ .refill hb
  | write =>
      simp only [hb] at h
      split at h
      next hf => exact Option.some.inj h ▸ .written hb hf
      next ptr rest hf =>
        obtain ⟨u, hu, rfl⟩ := Option.map_eq_some_iff.mp h
        obtain ⟨buf, bs, rfl, rfl, hbs⟩ := writeBuf_cases hu
        exact .write hb hf hbs
  | drainLock =>
      simp only [hb, Option.some.injEq] at h
      exact h ▸ .drainLock hb
  | drainCollect =>
      simp only [hb, Option.some.injEq, pushCurrent_eq] at h
      exact h ▸ .drainCollect hb
  | drainWrite rest =>
      cases rest with
      | nil =>
          simp only [hb, Option.some.injEq] at h
          exact h ▸ .drained hb
      | cons ptr rest =>
          simp only [hb] at h
          obtain ⟨u, hu, rfl⟩ := Option.map_eq_some_iff.mp h
          obtain ⟨buf, bs, rfl, rfl, hbs⟩ := writeBuf_cases hu
          exact .drainWrite hb hbs
  | drainRelock =>
      simp only [hb, Option.some.injEq] at h
      exact h ▸ .drainRelock hb
  | notify =>
      simp only [hb, Option.some.injEq] at h
      cases waiter with
      | none => exact h ▸ .notify hb rfl
      | some i => exact h ▸ .notifyOne hb rfl
  | finished =>
      simp only [hb, Option.some.injEq] at h
      exact h ▸ .finished hb

/-! ### The invariant -/

omit [DecidableEq ι] in
theorem Exclusive.back_silent (h : s.Exclusive) (hc : t.callers = s.callers)
    (hm : t.mutex = s.mutex) (hb : t.back.Holds ↔ s.back.Holds) : t.Exclusive := by
  refine h.silent hm fun k => ?_
  by_cases hk : k = .background
  · rw [hk]
    exact hb
  · exact holds_of_back hc k hk

omit [DecidableEq ι] in
theorem Exclusive.back_acquire (h : s.Exclusive) (hc : t.callers = s.callers)
    (hm : s.mutex = none) (hm' : t.mutex = some .background) (hb : t.back.Holds) :
    t.Exclusive :=
  h.acquire hm hm' hb (holds_of_back hc)

omit [DecidableEq ι] in
theorem Exclusive.back_release (h : s.Exclusive) (hc : t.callers = s.callers)
    (hk : s.back.Holds) (hm' : t.mutex = none) (hb : ¬ t.back.Holds) : t.Exclusive :=
  h.release (k := .background) hk hm' hb (holds_of_back hc)

theorem exclusive_back (h : s.Exclusive) {r : WriteResult} {waiter : Option ι}
    (hl : s.BackEnabled r waiter) (hs : s.backThread r waiter = some t) : t.Exclusive := by
  unfold BackEnabled at hl
  cases back_cases hs with
  | enter hb hr => exact h.back_silent rfl rfl (by rw [hb]; exact Iff.rfl)
  | leave hb hr => exact h.back_silent rfl rfl (by rw [hb]; exact Iff.rfl)
  | lock hb =>
      simp only [hb] at hl
      exact h.back_acquire rfl hl rfl trivial
  | wait hb he => exact h.back_release rfl (by rw [hb]; trivial) rfl id
  | pass hb he => exact h.back_silent rfl rfl (by rw [hb]; exact Iff.rfl)
  | waken hb =>
      simp only [hb] at hl
      exact h.back_acquire rfl hl rfl trivial
  | collect hb => exact h.back_silent rfl rfl (by rw [hb]; exact Iff.rfl)
  | swap hb => exact h.back_silent rfl rfl (by rw [hb]; exact Iff.rfl)
  | refill hb => exact h.back_release rfl (by rw [hb]; trivial) rfl id
  | write hb hf hbs => exact h.back_silent rfl rfl Iff.rfl
  | written hb hf => exact h.back_silent rfl rfl (by rw [hb]; exact Iff.rfl)
  | drainLock hb =>
      simp only [hb] at hl
      exact h.back_acquire rfl hl rfl trivial
  | drainCollect hb => exact h.back_silent rfl rfl (by rw [hb]; exact Iff.rfl)
  | drainWrite hb hbs => exact h.back_silent rfl rfl (by rw [hb]; exact Iff.rfl)
  | drained hb => exact h.back_silent rfl rfl (by rw [hb]; exact Iff.rfl)
  | drainRelock hb =>
      -- the lock is held by the background thread itself
      simp only [hb] at hl
      exact absurd (by rw [hb]; trivial) (h.not_back_holds hl)
  | notify hb hw => exact h.back_release rfl (by rw [hb]; trivial) rfl id
  | @notifyOne i hb hw =>
      subst hw
      simp only [hb] at hl
      have hk : s.Holds .background := by
        unfold Holds
        rw [hb]
        trivial
      refine h.release hk rfl id fun j hj => ?_
      by_cases hji : j = .caller i
      · rw [hji, holds_caller rfl]
        show CallPhase.woken.Holds ↔ (s.callers i).Holds
        rw [hl]
        exact Iff.rfl
      · cases j with
        | caller k =>
            have hki : k ≠ i := fun he => hji (congrArg Thread.caller he)
            show (Function.update s.callers i CallPhase.woken k).Holds ↔ (s.callers k).Holds
            rw [Function.update_of_ne hki]
        | background => exact absurd rfl hj
  | finished hb => simp only [hb] at hl

theorem exclusive_step {a : Act ι} (h : s.Exclusive) (hs : (system ι).Step s a t) :
    t.Exclusive := by
  obtain ⟨hl, hn⟩ := hs
  cases a with
  | log i level logline buf tv_usec =>
      obtain rfl | ⟨msg, rfl⟩ := log_cases hn
      · exact h
      · exact h.setCaller rfl rfl rfl (by rw [show s.callers i = .idle from hl]; exact Iff.rfl)
  | store i =>
      obtain ⟨⟨msg, hi⟩, hm⟩ := hl
      obtain ⟨u, hu, rfl⟩ := store_cases hi hn
      obtain ⟨buf, ⟨-, rfl⟩ | ⟨-, rfl⟩⟩ := storeMsg_cases hu
      · exact h.caller_acquire rfl rfl hm rfl trivial
      · exact h.caller_acquire rfl rfl hm rfl trivial
  | endLog i =>
      obtain rfl := Option.some.inj hn
      exact h.caller_release rfl rfl (by rw [show s.callers i = .logged from hl]; trivial) rfl id
  | setLogLevel level =>
      obtain rfl := Option.some.inj hn
      exact h.silent rfl fun k => Iff.rfl
  | stop i =>
      obtain rfl := Option.some.inj hn
      exact h.setCaller rfl rfl rfl (by rw [show s.callers i = .idle from hl]; exact Iff.rfl)
  | lockStop i =>
      obtain rfl := Option.some.inj hn
      exact h.caller_acquire rfl rfl hl.2 rfl trivial
  | waitStop i =>
      obtain rfl := Option.some.inj hn
      have hlocked : s.callers i = .stopLocked := hl
      exact h.caller_release rfl rfl (by rw [hlocked]; trivial) rfl id
  | wake i =>
      obtain rfl := Option.some.inj hn
      exact h.setCaller rfl rfl rfl (by rw [show s.callers i = .waiting from hl]; exact Iff.rfl)
  | relockStop i =>
      obtain rfl := Option.some.inj hn
      exact h.caller_acquire rfl rfl hl.2 rfl trivial
  | endStop i =>
      obtain rfl := Option.some.inj hn
      exact h.caller_release rfl rfl (by rw [show s.callers i = .stopped from hl]; trivial) rfl id
  | back r waiter => exact exclusive_back h hl hn

theorem exclusive_of_reachable (h : Reachable (system ι) s) : s.Exclusive := by
  refine h.invariant ?_ (fun _ _ _ => exclusive_step)
  rintro _ rfl k
  cases k with
  | caller i => exact iff_of_false id nofun
  | background => exact iff_of_false id nofun

end Logger

end Dagger
