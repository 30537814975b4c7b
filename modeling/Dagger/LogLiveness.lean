import Dagger.FairRuns
import Dagger.LogConservation
import Dagger.LogShutdown
import Mathlib.Data.Prod.Lex

/-! # Every message is written

A message that `log` has stored is written in the end, whether `stop` is called or not, if no
thread keeps `mutex_` for ever and the background thread gets it when it waits for it again and
again: `messages_eventually_written`.  After a call of `stop` the background thread ends before its
second `lock_guard`, with all messages written (`stop_eventually_drains`).

Both proofs count down the phases that the background thread has yet to pass, and inside a phase
the buffers that it has yet to write. -/

namespace Dagger

namespace BackPhase

/-- The phases until the buffers are collected, above those that follow (`toWritten`). -/
def toCollect : BackPhase → ℕ
  | .refill => 9
  | .write => 8
  | .test => 7
  | .lock => 6
  | .check => 5
  | .waiting => 4
  | .collect | .drainLock => 3
  | _ => 2

/-- The phases until the collected buffers are written. -/
def toWritten : BackPhase → ℕ
  | .refill => 1
  | _ => 0

/-- The phases until the second `lock_guard`, once `stop` was called. -/
def toRelock : BackPhase → ℕ
  | .lock => 11
  | .check => 10
  | .waiting => 9
  | .collect => 8
  | .swap => 7
  | .refill => 6
  | .write => 5
  | .test => 4
  | .drainLock => 3
  | .drainCollect => 2
  | .drainWrite _ => 1
  | _ => 0

theorem toWritten_lt_toCollect (p q : BackPhase) : p.toWritten < q.toCollect := by
  have hp : p.toWritten ≤ 1 := by
    cases p with
    | refill => exact le_refl 1
    | _ => exact Nat.zero_le 1
  have hq : 2 ≤ q.toCollect := by
    unfold toCollect
    split <;> decide
  omega

end BackPhase

namespace Logger

open Transition

variable {ι : Type} {s t : Logger ι} {k : ℕ}

/-- The buffers that are collected and still to be written. -/
def collected (s : Logger ι) : List Ptr :=
  match s.back with
  | .drainWrite rest => rest
  | _ => s.fullBuffers

/-- The first `k` bytes of the messages are written or collected. -/
def Covered (k : ℕ) (s : Logger ι) : Prop := k ≤ s.written.length + (content s.collected).length

instance (k : ℕ) (s : Logger ι) : Decidable (Covered k s) := Nat.decLe _ _

/-- The phases until the first `k` bytes are written. -/
def phases (k : ℕ) (s : Logger ι) : ℕ :=
  if Covered k s then s.back.toWritten else s.back.toCollect

theorem phases_of_covered (h : Covered k s) : phases k s = s.back.toWritten := if_pos h

theorem phases_of_not_covered (h : ¬ Covered k s) : phases k s = s.back.toCollect := if_neg h

theorem collected_eq {phase : BackPhase} (hb : s.back = phase)
    (hd : ∀ rest, phase ≠ .drainWrite rest) : s.collected = s.fullBuffers := by
  unfold collected
  rw [hb]
  cases phase with
  | drainWrite rest => exact absurd rfl (hd rest)
  | _ => rfl

theorem collected_congr (hb : t.back = s.back) (hf : t.fullBuffers = s.fullBuffers) :
    t.collected = s.collected := by
  unfold collected
  rw [hb, hf]

theorem phases_congr (hb : t.back = s.back) (hf : t.fullBuffers = s.fullBuffers)
    (hw : t.written = s.written) : phases k t = phases k s := by
  have hcov : Covered k t ↔ Covered k s := by
    unfold Covered
    rw [collected_congr hb hf, hw]
  unfold phases
  rw [hb]
  exact if_congr hcov rfl rfl

/-- Outside of three phases nothing is collected. -/
theorem Filled.collected_eq_nil (h : s.Filled) {phase : BackPhase} (hb : s.back = phase)
    (hd : ∀ rest, phase ≠ .drainWrite rest) (hr : phase ≠ .refill) (hw : phase ≠ .write) :
    s.collected = [] := by
  rw [collected_eq hb hd]
  exact h.collected_of hb hr hw

theorem written_of_covered (h : Covered k s) (hc : s.collected = []) : k ≤ s.written.length := by
  unfold Covered at h
  rw [hc] at h
  exact h

/-! ### The distance -/

/-- The phases to pass, and the buffers to write in this one. -/
def distance (n : ℕ) (s : Logger ι) : ℕ ×ₗ ℕ := toLex (n, s.collected.length)

theorem distance_lt_of_phases {m n : ℕ} (h : m < n) : distance m t < distance n s :=
  Prod.Lex.toLex_lt_toLex.mpr (Or.inl h)

/-- The next phase. -/
theorem distance_lt_of_back (f : BackPhase → ℕ) {p q : BackPhase} (hs : s.back = p)
    (ht : t.back = q) (h : f q < f p) : distance (f t.back) t < distance (f s.back) s := by
  rw [hs, ht]
  exact distance_lt_of_phases h

/-- One buffer is written, in the same phase. -/
theorem distance_lt_of_collected {n : ℕ} {ptr : Ptr} (h : s.collected = ptr :: t.collected) :
    distance n t < distance n s := by
  refine Prod.Lex.toLex_lt_toLex.mpr (Or.inr ⟨rfl, ?_⟩)
  show t.collected.length < s.collected.length
  rw [h]
  exact Nat.lt_succ_self _

/-- The collected buffer at the head is written. -/
theorem collected_write {buf : List Byte} {rest : List Ptr} (written : List Byte)
    (hb : s.back = .write) (hf : s.fullBuffers = some buf :: rest) :
    s.collected = some buf :: { s with written, fullBuffers := rest }.collected := by
  unfold collected
  simp only [hb, hf]

theorem collected_drainWrite {buf : List Byte} {rest : List Ptr} (written : List Byte)
    (hb : s.back = .drainWrite (some buf :: rest)) :
    s.collected = some buf :: { s with written, back := .drainWrite rest }.collected := by
  unfold collected
  simp only [hb]

/-- A buffer that is written whole stays covered. -/
theorem Covered.write (h : Covered k s) {buf : List Byte}
    (hc : s.collected = some buf :: t.collected) (hw : t.written = s.written ++ buf) :
    Covered k t := by
  unfold Covered at h ⊢
  rw [hc, content_cons, List.length_append] at h
  rw [hw, List.length_append]
  have hbuf : (some buf : Ptr).getD [] = buf := rfl
  rw [hbuf] at h
  omega

/-! ### What the drain has seen -/

/-- The swap finds `currentBuffer_` collected, and no message comes after the drain has begun. -/
structure Sealed (s : Logger ι) : Prop where
  swap : s.back = .swap → s.currentBuffer = none
  drained : s.back.Draining → s.drained = s.logged

/-- While the background thread is in the swap or in the drain, it holds `mutex_`. -/
theorem holds_of_sealing (hu : s.Unpassed) (h : s.back = .swap ∨ s.back.Draining) :
    s.back.Holds := by
  rcases h with hb | hd
  · rw [hb]
    trivial
  · cases hb : s.back with
    | drainCollect => trivial
    | drainWrite rest => trivial
    | drainRelock => trivial
    | notify => trivial
    | finished => exact absurd hb hu.2
    | _ =>
        rw [hb] at hd
        exact hd.elim

theorem Sealed.due_eq (h : s.Sealed) : s.due = s.logged := by
  by_cases hd : s.back.Draining
  · rw [← h.drained hd]
    unfold due
    cases hb : s.back with
    | drainCollect => rfl
    | drainWrite rest => rfl
    | drainRelock => rfl
    | notify => rfl
    | finished => rfl
    | _ =>
        rw [hb] at hd
        exact hd.elim
  · exact due_of_not_draining hd

/-- Where all that is pending is collected, all messages are covered. -/
theorem covered_of_pending (hc : s.Conserved) (hs : s.Sealed) (hk : k ≤ s.logged.flatten.length)
    (hp : (content s.pending).length ≤ (content s.collected).length) : Covered k s := by
  have he : s.written ++ content s.pending = s.due.flatten := hc
  have hlen := congrArg List.length he
  rw [hs.due_eq, List.length_append] at hlen
  unfold Covered
  omega

theorem pending_of_drained (hd : s.back.Drained) : s.pending = [] := by
  unfold pending
  cases hb : s.back with
  | drainRelock => rfl
  | notify => rfl
  | finished => rfl
  | _ =>
      rw [hb] at hd
      exact hd.elim

/-- At the end of the drain everything is written. -/
theorem written_of_drained (hc : s.Conserved) (hs : s.Sealed) (hd : s.back.Drained) :
    s.written = s.logged.flatten := by
  have he : s.written ++ content s.pending = s.due.flatten := hc
  rwa [hs.due_eq, pending_of_drained hd, content_nil, List.append_nil] at he

/-- The final drain has collected everything. -/
theorem covered_of_draining (hc : s.Conserved) (hs : s.Sealed) (hk : k ≤ s.logged.flatten.length)
    (hd : s.back.Draining) (hne : s.back ≠ .drainCollect) : Covered k s := by
  refine covered_of_pending hc hs hk ?_
  unfold pending collected
  cases hb : s.back with
  | drainWrite rest => exact le_refl _
  | drainRelock => exact Nat.zero_le _
  | notify => exact Nat.zero_le _
  | finished => exact Nat.zero_le _
  | drainCollect => exact absurd hb hne
  | _ =>
      rw [hb] at hd
      exact hd.elim

variable [DecidableEq ι]

theorem sealed_back (h : s.Sealed) {r : WriteResult} {waiter : Option ι}
    (hs : s.backThread r waiter = some t) : t.Sealed := by
  cases back_cases hs with
  | collect hb => exact ⟨fun _ => rfl, False.elim⟩
  | write hb hf hbs => exact ⟨h.swap, h.drained⟩
  | drainLock hb => exact ⟨nofun, fun _ => rfl⟩
  | drainCollect hb => exact ⟨nofun, fun _ => h.drained (hb ▸ trivial)⟩
  | drainWrite hb hbs => exact ⟨nofun, fun _ => h.drained (hb ▸ trivial)⟩
  | drained hb => exact ⟨nofun, fun _ => h.drained (hb ▸ trivial)⟩
  | drainRelock hb => exact ⟨nofun, fun _ => h.drained (hb ▸ trivial)⟩
  | notify hb hw => exact ⟨nofun, fun _ => h.drained (hb ▸ trivial)⟩
  | notifyOne hb hw => exact ⟨nofun, fun _ => h.drained (hb ▸ trivial)⟩
  | finished hb => exact h
  | _ => exact ⟨nofun, False.elim⟩

theorem sealed_step {a : Act ι} (hx : s.Exclusive) (hu : s.Unpassed) (h : s.Sealed)
    (hs : (system ι).Step s a t) : t.Sealed := by
  cases stepped hs with
  | @store i msg u hi hm hstore =>
      -- `mutex_` is free, so that the background thread is elsewhere
      have hfree := hx.not_back_holds hm
      have hb : u.back = s.back := by
        obtain ⟨buf, ⟨-, rfl⟩ | ⟨-, rfl⟩⟩ := storeMsg_cases hstore
        · rfl
        · rfl
      refine ⟨fun hswap => ?_, fun hd => ?_⟩
      · have hswap' : s.back = .swap := hb.symm.trans hswap
        exact absurd (holds_of_sealing hu (Or.inl hswap')) hfree
      · have hd' : u.back.Draining := hd
        rw [hb] at hd'
        exact absurd (holds_of_sealing hu (Or.inr hd')) hfree
  | back hl ht => exact sealed_back h ht
  | aside hstop => exact ⟨h.swap, h.drained⟩

theorem sealed_of_reachable (h : Reachable (system ι) s) : s.Sealed := by
  refine h.invariant_of (J := fun s => s.Exclusive ∧ s.Unpassed)
    (fun _ hr => ⟨exclusive_of_reachable hr, unpassed_of_reachable hr⟩) ?_
    (fun _ _ _ hj => sealed_step hj.1 hj.2)
  rintro _ rfl
  exact ⟨nofun, False.elim⟩

/-! ### One step of the background thread -/

/-- Once they are collected, the bytes are written. -/
theorem written_or_nearer (hf : s.Filled) (h : Covered k s) {r : WriteResult} {waiter : Option ι}
    (hall : s.WritesAll (.back r waiter)) (hs : BackStep s r waiter t) :
    k ≤ s.written.length ∨ Covered k t ∧ distance (phases k t) t < distance (phases k s) s := by
  unfold WritesAll at hall
  cases hs with
  | refill hb =>
      have hc : s.collected = s.fullBuffers := collected_eq hb nofun
      have ht : Covered k { s with
          emptys := fillUp s.emptys s.newEmptys, mutex := none, back := .write } := by
        unfold Covered at h ⊢
        rw [hc] at h
        exact h
      refine Or.inr ⟨ht, ?_⟩
      rw [phases_of_covered ht, phases_of_covered h]
      exact distance_lt_of_back BackPhase.toWritten (q := .write) hb rfl (by decide)
  | @write buf bs rest hb hfull hbs =>
      simp only [hb, hfull] at hall
      rw [written_whole hbs (hall _ rfl)]
      have hc := collected_write (s.written ++ buf) hb hfull
      have ht := h.write hc rfl
      refine Or.inr ⟨ht, ?_⟩
      rw [phases_of_covered ht, phases_of_covered h]
      exact distance_lt_of_collected hc
  | @drainWrite buf bs rest hb hbs =>
      simp only [hb] at hall
      rw [written_whole hbs (hall _ rfl)]
      have hc := collected_drainWrite (s.written ++ buf) hb
      have ht := h.write hc rfl
      refine Or.inr ⟨ht, ?_⟩
      rw [phases_of_covered ht, phases_of_covered h, hb]
      exact distance_lt_of_collected hc
  | written hb hfull =>
      exact Or.inl (written_of_covered h ((collected_eq hb nofun).trans hfull))
  | drained hb =>
      refine Or.inl (written_of_covered h ?_)
      unfold collected
      rw [hb]
  | enter hb | leave hb | lock hb | wait hb | pass hb | waken hb | collect hb | swap hb
  | drainLock hb | drainCollect hb | drainRelock hb | notify hb | notifyOne hb | finished hb =>
      -- nothing is collected
      exact Or.inl (written_of_covered h (hf.collected_eq_nil hb nofun nofun nofun))

/-- Before, the background thread comes nearer to the collection. -/
theorem covered_or_nearer (hf : s.Filled) (hsealed : s.Sealed) (hc : t.Conserved)
    (ht : t.Sealed) (hk : k ≤ t.logged.flatten.length) (h : ¬ Covered k s) {r : WriteResult}
    {waiter : Option ι} (hs : BackStep s r waiter t) :
    distance (phases k t) t < distance (phases k s) s := by
  rw [phases_of_not_covered h]
  by_cases hcov : Covered k t
  · rw [phases_of_covered hcov]
    exact distance_lt_of_phases (BackPhase.toWritten_lt_toCollect _ _)
  rw [phases_of_not_covered hcov]
  have hdrain : ∀ phase, t.back = phase → phase.Draining → phase = .drainCollect := by
    rintro _ rfl hd
    by_contra hne
    exact hcov (covered_of_draining hc ht hk hd hne)
  let f := BackPhase.toCollect
  cases hs with
  | enter hb hr => exact distance_lt_of_back f (q := .lock) hb rfl (by decide)
  | leave hb hr => exact distance_lt_of_back f (q := .drainLock) hb rfl (by decide)
  | lock hb => exact distance_lt_of_back f (q := .check) hb rfl (by decide)
  | wait hb he => exact distance_lt_of_back f (q := .waiting) hb rfl (by decide)
  | pass hb he => exact distance_lt_of_back f (q := .collect) hb rfl (by decide)
  | waken hb => exact distance_lt_of_back f (q := .collect) hb rfl (by decide)
  | collect hb => exact distance_lt_of_back f (q := .swap) hb rfl (by decide)
  | swap hb =>
      -- all that is pending is in the buffers swapped out
      have hnil := hf.collected_of hb nofun nofun
      have hcur := hsealed.swap hb
      refine absurd (covered_of_pending hc ht hk ?_) hcov
      simp [pending, collected, hnil, hcur]
  | refill hb => exact distance_lt_of_back f (q := .write) hb rfl (by decide)
  | @write buf bs rest hb hfull hbs => exact distance_lt_of_collected (collected_write _ hb hfull)
  | written hb hfull => exact distance_lt_of_back f (q := .test) hb rfl (by decide)
  | drainLock hb => exact distance_lt_of_back f (q := .drainCollect) hb rfl (by decide)
  | drainCollect hb => cases hdrain _ rfl trivial
  | drainWrite hb hbs => cases hdrain _ rfl trivial
  | drained hb => cases hdrain _ rfl trivial
  | drainRelock hb => cases hdrain _ rfl trivial
  | notify hb hw => cases hdrain _ rfl trivial
  | notifyOne hb hw => cases hdrain _ rfl trivial
  | finished hb => cases hdrain _ hb trivial

/-- After a call of `stop`, the background thread comes nearer to its second `lock_guard`. -/
theorem relock_nearer (hleave : s.back = .test → s.running = false) (hd : ¬ s.back.Drained)
    {r : WriteResult} {waiter : Option ι} (hs : BackStep s r waiter t) :
    distance t.back.toRelock t < distance s.back.toRelock s := by
  let f := BackPhase.toRelock
  cases hs with
  | enter hb hr =>
      rw [hleave hb] at hr
      cases hr
  | leave hb hr => exact distance_lt_of_back f (q := .drainLock) hb rfl (by decide)
  | lock hb => exact distance_lt_of_back f (q := .check) hb rfl (by decide)
  | wait hb he => exact distance_lt_of_back f (q := .waiting) hb rfl (by decide)
  | pass hb he => exact distance_lt_of_back f (q := .collect) hb rfl (by decide)
  | waken hb => exact distance_lt_of_back f (q := .collect) hb rfl (by decide)
  | collect hb => exact distance_lt_of_back f (q := .swap) hb rfl (by decide)
  | swap hb => exact distance_lt_of_back f (q := .refill) hb rfl (by decide)
  | refill hb => exact distance_lt_of_back f (q := .write) hb rfl (by decide)
  | write hb hfull hbs => exact distance_lt_of_collected (collected_write _ hb hfull)
  | written hb hfull => exact distance_lt_of_back f (q := .test) hb rfl (by decide)
  | drainLock hb => exact distance_lt_of_back f (q := .drainCollect) hb rfl (by decide)
  | drainCollect hb =>
      exact distance_lt_of_back f (q := .drainWrite _) hb rfl (Nat.lt_succ_self 1)
  | drainWrite hb hbs =>
      rw [hb]
      exact distance_lt_of_collected (collected_drainWrite _ hb)
  | drained hb =>
      exact distance_lt_of_back f (p := .drainWrite []) (q := .drainRelock) hb rfl (by decide)
  | drainRelock hb | notify hb | notifyOne hb | finished hb =>
      rw [hb] at hd
      exact absurd trivial hd

/-! ### The other threads -/

/-- A call of `log` or `stop` leaves the background thread and the output alone. -/
theorem aside_step {a : Act ι} (hs : (system ι).Step s a t) (ha : ∀ r waiter, a ≠ .back r waiter) :
    t.back = s.back ∧ t.fullBuffers = s.fullBuffers ∧ t.written = s.written := by
  cases stepped hs with
  | store hi hm hu =>
      obtain ⟨buf, ⟨-, rfl⟩ | ⟨-, rfl⟩⟩ := storeMsg_cases hu
      · exact ⟨rfl, rfl, rfl⟩
      · exact ⟨rfl, rfl, rfl⟩
  | back hl ht => exact absurd rfl (ha _ _)
  | aside hstop => exact ⟨rfl, rfl, rfl⟩

/-- Messages are added at the end. -/
theorem logged_step {a : Act ι} (hs : (system ι).Step s a t) : s.logged <+: t.logged := by
  cases stepped hs with
  | store hi hm hu =>
      obtain ⟨buf, ⟨-, rfl⟩ | ⟨-, rfl⟩⟩ := storeMsg_cases hu
      · exact List.prefix_append ..
      · exact List.prefix_append ..
  | back hl ht =>
      cases back_cases ht <;> exact List.prefix_refl _
  | aside hstop => exact List.prefix_refl _

/-- A caller that holds `mutex_` goes on by releasing it. -/
theorem holds_step {a : Act ι} {i : ι} (hi : (s.callers i).Holds) (hs : (system ι).Step s a t) :
    (t.callers i).Holds ∨ t.mutex = none ∧ (a = .endLog i ∨ a = .waitStop i ∨ a = .endStop i) := by
  obtain ⟨hl, hn⟩ := hs
  have hset : ∀ {j : ι} {phase : CallPhase}, i ≠ j →
      (Function.update s.callers j phase i).Holds := by
    intro j phase hij
    rw [Function.update_of_ne hij]
    exact hi
  have hne : ∀ {j : ι} {phase : CallPhase}, s.callers j = phase → ¬ phase.Holds → i ≠ j := by
    rintro _ _ rfl hj rfl
    exact hj hi
  cases a with
  | log j level logline buf tv_usec =>
      obtain rfl | ⟨msg, rfl⟩ := log_cases hn
      · exact Or.inl hi
      · exact Or.inl (hset (hne hl id))
  | store j =>
      obtain ⟨⟨msg, hj⟩, -⟩ := hl
      obtain ⟨u, hu, rfl⟩ := store_cases hj hn
      have hc : u.callers = s.callers := by
        obtain ⟨buf, ⟨-, rfl⟩ | ⟨-, rfl⟩⟩ := storeMsg_cases hu
        · rfl
        · rfl
      refine Or.inl ?_
      show (Function.update u.callers j .logged i).Holds
      rw [hc]
      exact hset (hne hj id)
  | endLog j =>
      obtain rfl := Option.some.inj hn
      by_cases hij : i = j
      · exact Or.inr ⟨rfl, Or.inl (by rw [hij])⟩
      · exact Or.inl (hset hij)
  | setLogLevel level =>
      obtain rfl := Option.some.inj hn
      exact Or.inl hi
  | stop j =>
      obtain rfl := Option.some.inj hn
      exact Or.inl (hset (hne hl id))
  | lockStop j =>
      obtain rfl := Option.some.inj hn
      exact Or.inl (hset (hne hl.1 id))
  | waitStop j =>
      obtain rfl := Option.some.inj hn
      by_cases hij : i = j
      · exact Or.inr ⟨rfl, Or.inr (Or.inl (by rw [hij]))⟩
      · exact Or.inl (hset hij)
  | wake j =>
      obtain rfl := Option.some.inj hn
      exact Or.inl (hset (hne hl id))
  | relockStop j =>
      obtain rfl := Option.some.inj hn
      exact Or.inl (hset (hne hl.1 id))
  | endStop j =>
      obtain rfl := Option.some.inj hn
      by_cases hij : i = j
      · exact Or.inr ⟨rfl, Or.inr (Or.inr (by rw [hij]))⟩
      · exact Or.inl (hset hij)
  | back r waiter =>
      refine Or.inl ?_
      unfold next at hn
      cases back_cases hn with
      | @notifyOne j hb hw =>
          simp only [Legal, BackEnabled, hb, hw] at hl
          exact hset (hne hl id)
      | _ => exact hi

/-- A call of `stop` is not forgotten. -/
theorem stopCalled_step {a : Act ι} (h : s.stopCalled = true) (hs : (system ι).Step s a t) :
    t.stopCalled = true := by
  obtain ⟨hl, hn⟩ := hs
  cases a with
  | log j level logline buf tv_usec =>
      obtain rfl | ⟨msg, rfl⟩ := log_cases hn
      · exact h
      · exact h
  | store j =>
      obtain ⟨⟨msg, hj⟩, -⟩ := hl
      obtain ⟨u, hu, rfl⟩ := store_cases hj hn
      obtain ⟨buf, ⟨-, rfl⟩ | ⟨-, rfl⟩⟩ := storeMsg_cases hu
      · exact h
      · exact h
  | stop j =>
      obtain rfl := Option.some.inj hn
      rfl
  | back r waiter =>
      unfold next at hn
      cases back_cases hn <;> exact h
  | _ =>
      obtain rfl := Option.some.inj hn
      exact h

/-- At the second `lock_guard` everything has come to its end: nothing is logged or written any
more, and no call returns. -/
theorem relock_step {a : Act ι} (hx : s.Exclusive) (hb : s.back = .drainRelock)
    (hs : (system ι).Step s a t) : t.back = .drainRelock ∧ t.logged = s.logged ∧
      t.written = s.written ∧ ∀ i, s.callers i ≠ .idle → t.callers i ≠ .idle := by
  obtain ⟨hl, hn⟩ := hs
  have hm : s.mutex = some .background := by
    refine (hx .background).mp ?_
    show s.back.Holds
    rw [hb]
    trivial
  have hnot : ∀ {i : ι} {phase : CallPhase}, s.callers i = phase → ¬ phase.Holds := by
    rintro i _ rfl hi
    have hmi := (hx (.caller i)).mp hi
    rw [hm] at hmi
    cases hmi
  have hlock : s.mutex ≠ none := by
    rw [hm]
    exact Option.some_ne_none _
  have hset : ∀ {i : ι} {phase : CallPhase}, phase ≠ .idle → ∀ j, s.callers j ≠ .idle →
      Function.update s.callers i phase j ≠ .idle := by
    intro i phase hphase j hj
    by_cases hji : j = i
    · rw [hji, Function.update_self]
      exact hphase
    · rw [Function.update_of_ne hji]
      exact hj
  cases a with
  | log i level logline buf tv_usec =>
      obtain rfl | ⟨msg, rfl⟩ := log_cases hn
      · exact ⟨hb, rfl, rfl, fun _ => id⟩
      · exact ⟨hb, rfl, rfl, hset (fun h => by cases h)⟩
  | store i => exact absurd hl.2 hlock
  | endLog i => exact absurd trivial (hnot hl)
  | setLogLevel level =>
      obtain rfl := Option.some.inj hn
      exact ⟨hb, rfl, rfl, fun _ => id⟩
  | stop i =>
      obtain rfl := Option.some.inj hn
      exact ⟨hb, rfl, rfl, hset (fun h => by cases h)⟩
  | lockStop i => exact absurd hl.2 hlock
  | waitStop i => exact absurd trivial (hnot hl)
  | wake i =>
      obtain rfl := Option.some.inj hn
      exact ⟨hb, rfl, rfl, hset (fun h => by cases h)⟩
  | relockStop i => exact absurd hl.2 hlock
  | endStop i => exact absurd trivial (hnot hl)
  | back r waiter =>
      unfold Legal BackEnabled at hl
      rw [hb] at hl
      exact absurd hl hlock

/-! ### Runs -/

/-- The background thread can take its next step. -/
def CanGo (s : Logger ι) : Prop := ∃ r waiter, s.BackEnabled r waiter

/-- No thread stops for ever on its way, and the background thread gets `mutex_` when it finds it
free again and again. -/
structure Fair {S : System (Logger ι) (Act ι)} (r : Run S.stuttering) : Prop where
  back : r.StronglyFair CanGo fun _ a => ∃ (q : WriteResult) (waiter : Option ι),
    a = some (.back q waiter)
  callers : ∀ i, r.WeaklyFair (fun s => (s.callers i).Holds) fun _ a =>
    a = some (.endLog i) ∨ a = some (.waitStop i) ∨ a = some (.endStop i)

omit [DecidableEq ι] in
theorem canGo (hd : ¬ s.back.Drained) (hm : s.back.AtLock → s.mutex = none) : s.CanGo := by
  refine ⟨.accepted 0, none, ?_⟩
  unfold BackEnabled
  cases hb : s.back with
  | lock => exact hm (by rw [hb]; trivial)
  | waiting => exact hm (by rw [hb]; trivial)
  | drainLock => exact hm (by rw [hb]; trivial)
  | write => exact fun _ _ => Nat.zero_le _
  | drainWrite rest => exact fun _ _ => Nat.zero_le _
  | drainRelock | notify | finished =>
      rw [hb] at hd
      exact absurd trivial hd
  | _ => trivial

/-- A message is logged, and then `stop` called. -/
def logAndStop : List (Act Unit) :=
  [.log () .WARN [97] [] 0, .store (), .endLog (), .stop (), .back (.accepted 0) none,
    .back (.accepted 0) none, .back (.accepted 0) none, .back (.accepted 9) none,
    .back (.accepted 0) none]

/-- The background thread is at its second `lock_guard`, and `stop` at its first. -/
def afterStop (msg : List Byte) : Logger Unit where
  mutex := some .background
  currentBuffer := none
  buffers := [some msg]
  back := .drainRelock
  callers := fun _ => .stopping
  written := msg
  logged := [msg]
  drained := [msg]
  stopCalled := true

theorem path_logAndStop : Path ((system Unit).guarded WritesAll) {} logAndStop
    (afterStop (prependMsgForTest [97] .WARN [] 0)) := by
  let msg := prependMsgForTest [97] .WARN [] 0
  have hlog : Path ((system Unit).guarded WritesAll) {} [.log () .WARN [97] [] 0, .store ()]
      (oneLogged msg) :=
    .cons ⟨⟨rfl, rfl⟩, trivial⟩ (.cons ⟨⟨⟨⟨msg, rfl⟩, rfl⟩, rfl⟩, trivial⟩ (.nil _))
  have hlen : msg.length = 9 := by decide
  have hstop : Path ((system Unit).guarded WritesAll) (oneLogged msg) (logAndStop.drop 2)
      (afterStop msg) := by
    refine .cons ⟨⟨rfl, rfl⟩, trivial⟩ (.cons ⟨⟨rfl, rfl⟩, trivial⟩ ?_)
    refine .cons ⟨⟨trivial, rfl⟩, trivial⟩ (.cons ⟨⟨rfl, rfl⟩, trivial⟩ ?_)
    refine .cons ⟨⟨trivial, rfl⟩, trivial⟩ (.cons ⟨⟨fun ptr hptr => ?_, rfl⟩, fun ptr hptr => ?_⟩
      (.cons ⟨⟨nofun, rfl⟩, nofun⟩ (.nil _)))
    · obtain rfl := Option.some.inj hptr
      exact Nat.le_of_eq hlen.symm
    · obtain rfl := Option.some.inj hptr
      exact congrArg WriteResult.accepted hlen.symm
  exact hlog.append hstop

theorem eq_next (s : Logger Unit) (a : Act Unit) (t : Logger Unit)
    (hs : ((system Unit).guarded WritesAll).Step s a t) : t = (s.next a).getD s := by
  rw [show s.next a = some t from hs.1.2]
  rfl

/-- The run along `logAndStop`. -/
def logAndStopRun : Run ((system Unit).guarded WritesAll).stuttering :=
  path_logAndStop.run eq_next rfl

theorem fair_logAndStopRun : Fair logAndStopRun := by
  have hend : ∀ m, 9 ≤ m →
      logAndStopRun.st m = afterStop (prependMsgForTest [97] .WARN [] 0) :=
    fun m hm => path_logAndStop.run_end _ rfl hm
  refine ⟨Run.stronglyFair_of_end hend ?_, fun i => Run.weaklyFair_of_end hend id⟩
  rintro ⟨q, waiter, hl⟩
  cases hl

section Runs

variable {r : Run ((system ι).guarded WritesAll).stuttering}

/-- The background thread takes step `n` of the run. -/
def BackSteps (r : Run ((system ι).guarded WritesAll).stuttering) (n : ℕ) : Prop :=
  ∃ (q : WriteResult) (waiter : Option ι), r.act n = some (.back q waiter)

theorem reachable_run (r : Run ((system ι).guarded WritesAll).stuttering) (n : ℕ) :
    Reachable (system ι) (r.st n) := (r.reachable n).of_stuttering.of_guarded

theorem conserved_run (r : Run ((system ι).guarded WritesAll).stuttering) (n : ℕ) :
    (r.st n).Conserved := conserved_of_reachable (r.reachable n).of_stuttering

/-- The background thread takes its step, or it and the output stay as they are. -/
theorem run_cases (r : Run ((system ι).guarded WritesAll).stuttering) (n : ℕ) :
    (∃ q waiter, r.act n = some (.back q waiter) ∧ (r.st n).WritesAll (.back q waiter) ∧
      BackStep (r.st n) q waiter (r.st (n + 1))) ∨
    ¬ BackSteps r n ∧ (r.st (n + 1)).back = (r.st n).back ∧
      (r.st (n + 1)).fullBuffers = (r.st n).fullBuffers ∧
      (r.st (n + 1)).written = (r.st n).written := by
  rcases r.step_cases n with ⟨hnone, hst⟩ | ⟨a, ha, hs, hall⟩
  · refine Or.inr ⟨?_, by rw [hst], by rw [hst], by rw [hst]⟩
    rintro ⟨q, waiter, ha⟩
    rw [hnone] at ha
    cases ha
  · by_cases hback : BackSteps r n
    · obtain ⟨q, waiter, ha'⟩ := hback
      rw [ha'] at ha
      obtain rfl := Option.some.inj ha
      exact Or.inl ⟨q, waiter, ha', hall, back_cases hs.2⟩
    · refine Or.inr ⟨hback, aside_step hs ?_⟩
      rintro q waiter rfl
      exact hback ⟨q, waiter, ha⟩

theorem logged_of_le {n m : ℕ} (hm : n ≤ m) : (r.st n).logged <+: (r.st m).logged := by
  induction hm with
  | refl => exact List.prefix_refl _
  | @step m hm ih =>
      rcases r.step_cases m with ⟨-, hst⟩ | ⟨a, -, hs, -⟩
      · rw [hst]
        exact ih
      · exact ih.trans (logged_step hs)

/-- `mutex_` is released again and again. -/
theorem exists_free (hfair : Fair r) {n : ℕ} (h : ¬ (r.st n).back.Holds) :
    ∃ m, n ≤ m ∧ (r.st m).mutex = none := by
  cases hm : (r.st n).mutex with
  | none => exact ⟨n, le_refl n, hm⟩
  | some k =>
      have hk := (exclusive_of_reachable (reachable_run r n) k).mpr hm
      cases k with
      | background => exact absurd hk h
      | caller i =>
          have hkeep : ∀ m, ((r.st m).callers i).Holds →
              ¬ (r.act m = some (.endLog i) ∨ r.act m = some (.waitStop i) ∨
                r.act m = some (.endStop i)) → ((r.st (m + 1)).callers i).Holds := by
            intro m hi hnot
            rcases r.step_cases m with ⟨-, hst⟩ | ⟨a, ha, hs, -⟩
            · rw [hst]
              exact hi
            · rcases holds_step hi hs with hi' | ⟨-, hact⟩
              · exact hi'
              · rw [ha] at hnot
                simp only [Option.some.injEq] at hnot
                exact absurd hact hnot
          obtain ⟨m, hm, hi, htaken⟩ := (hfair.callers i).taken hkeep hk
          refine ⟨m + 1, by omega, ?_⟩
          rcases r.step_cases m with ⟨hnone, -⟩ | ⟨a, ha, ⟨-, hn⟩, -⟩
          · rw [hnone] at htaken
            rcases htaken with htaken | htaken | htaken <;> cases htaken
          · rw [ha] at htaken
            rcases htaken with htaken | htaken | htaken
            all_goals
              obtain rfl := Option.some.inj htaken
              rw [← Option.some.inj hn]

/-- As long as the drain is not done, the background thread takes steps. -/
theorem exists_backSteps (hfair : Fair r) {n : ℕ} (hd : ¬ (r.st n).back.Drained) :
    ∃ m, n ≤ m ∧ BackSteps r m := by
  by_contra hnone
  have hrest : ∀ m, n ≤ m → ¬ BackSteps r m := fun m hm hs => hnone ⟨m, hm, hs⟩
  have hback : ∀ m, n ≤ m → (r.st m).back = (r.st n).back := by
    intro m hm
    induction hm with
    | refl => rfl
    | @step m hm ih =>
        rcases run_cases r m with ⟨q, waiter, ha, -⟩ | ⟨-, hb, -⟩
        · exact absurd ⟨q, waiter, ha⟩ (hrest m hm)
        · exact hb.trans ih
  obtain ⟨m, hm, hs⟩ := hfair.back n fun m hm => by
    have hd' : ¬ (r.st m).back.Drained := by
      rw [hback m hm]
      exact hd
    by_cases hlock : (r.st m).back.AtLock
    · -- the lock is free at some moment, and the background thread still there
      have hholds : ¬ (r.st m).back.Holds := by
        intro hholds
        cases hb : (r.st m).back <;> simp_all [BackPhase.AtLock, BackPhase.Holds, BackPhase.Drained]
      obtain ⟨k, hk, hfree⟩ := exists_free hfair hholds
      refine ⟨k, hk, canGo ?_ fun _ => hfree⟩
      rw [hback k (hm.trans hk)]
      exact hd
    · exact ⟨m, le_refl m, canGo hd' fun h => absurd h hlock⟩
  exact hrest m hm hs

theorem exists_written (hfair : Fair r) {n : ℕ} (hk : k ≤ (r.st n).logged.flatten.length) :
    ∃ m, n ≤ m ∧ k ≤ (r.st m).written.length := by
  have hlogged : ∀ m, n ≤ m → k ≤ (r.st m).logged.flatten.length := by
    intro m hm
    obtain ⟨more, hmore⟩ := logged_of_le (r := r) hm
    rw [← hmore, List.flatten_append, List.length_append]
    exact hk.trans (Nat.le_add_right _ _)
  have hnearer : ∀ m, n ≤ m → BackSteps r m → k ≤ (r.st m).written.length ∨
      distance (phases k (r.st (m + 1))) (r.st (m + 1)) <
        distance (phases k (r.st m)) (r.st m) := by
    intro m hm hback
    rcases run_cases r m with ⟨q, waiter, ha, hall, hs⟩ | ⟨hnot, -⟩
    · have hf := filled_of_reachable (reachable_run r m)
      by_cases hcov : Covered k (r.st m)
      · exact (written_or_nearer hf hcov hall hs).imp id And.right
      · exact Or.inr (covered_or_nearer hf (sealed_of_reachable (reachable_run r m))
          (conserved_run r (m + 1)) (sealed_of_reachable (reachable_run r (m + 1)))
          (hlogged (m + 1) (hm.trans (Nat.le_succ m))) hcov hs)
    · exact absurd hback hnot
  refine eventually_of_rank (fun m => distance (phases k (r.st m)) (r.st m)) ?_ ?_
  · intro m hm hnot
    rcases run_cases r m with ⟨q, waiter, ha, -⟩ | ⟨-, hb, hfull, hw⟩
    · exact ((hnearer m hm ⟨q, waiter, ha⟩).resolve_left hnot).le
    · refine le_of_eq ?_
      unfold distance
      rw [phases_congr hb hfull hw, collected_congr hb hfull]
  · intro m hm
    by_cases hd : (r.st m).back.Drained
    · -- all messages are written by then
      refine ⟨m, le_refl m, Or.inl ?_⟩
      rw [written_of_drained (conserved_run r m) (sealed_of_reachable (reachable_run r m)) hd]
      exact hlogged m hm
    · obtain ⟨j, hj, hs⟩ := exists_backSteps hfair hd
      exact ⟨j, hj, hnearer j (hm.trans hj) hs⟩

theorem exists_drained (hfair : Fair r) {n : ℕ} (hstop : (r.st n).stopCalled = true) :
    ∃ m, n ≤ m ∧ (r.st m).back.Drained := by
  have hcalled : ∀ m, n ≤ m → (r.st m).stopCalled = true := by
    intro m hm
    induction hm with
    | refl => exact hstop
    | @step m hm ih =>
        rcases r.step_cases m with ⟨-, hst⟩ | ⟨a, -, hs, -⟩
        · rw [hst]
          exact ih
        · exact stopCalled_step ih hs
  have hnearer : ∀ m, n ≤ m → ¬ (r.st m).back.Drained → BackSteps r m →
      distance (r.st (m + 1)).back.toRelock (r.st (m + 1)) <
        distance (r.st m).back.toRelock (r.st m) := by
    intro m hm hd hback
    rcases run_cases r m with ⟨q, waiter, ha, hall, hs⟩ | ⟨hnot, -⟩
    · refine relock_nearer (fun hb => ?_) hd hs
      exact leaving_of_reachable (reachable_run r m) (hcalled m hm) (by rw [hb]; trivial)
    · exact absurd hback hnot
  refine eventually_of_rank (fun m => distance (r.st m).back.toRelock (r.st m)) ?_ ?_
  · intro m hm hd
    rcases run_cases r m with ⟨q, waiter, ha, -⟩ | ⟨-, hb, hfull, -⟩
    · exact (hnearer m hm hd ⟨q, waiter, ha⟩).le
    · refine le_of_eq ?_
      unfold distance
      rw [hb, collected_congr hb hfull]
  · intro m hm
    by_cases hd : (r.st m).back.Drained
    · exact ⟨m, le_refl m, Or.inl hd⟩
    · obtain ⟨j, hj, hs⟩ := exists_backSteps hfair hd
      by_cases hdj : (r.st j).back.Drained
      · exact ⟨j, hj, Or.inl hdj⟩
      · exact ⟨j, hj, Or.inr (hnearer j (hm.trans hj) hdj hs)⟩

end Runs

/-- **Liveness**: in every run in which `write` writes all its bytes and no thread stops for ever,
all that has been logged is written in the end, in the order of the `log` calls. -/
theorem messages_eventually_written (r : Run ((system ι).guarded WritesAll).stuttering)
    (hfair : Fair r) (n : ℕ) : ∃ m, n ≤ m ∧ (r.st n).logged.flatten <+: (r.st m).written := by
  obtain ⟨m, hm, hlen⟩ := exists_written hfair (le_refl (r.st n).logged.flatten.length)
  refine ⟨m, hm, ?_⟩
  have hc : (r.st m).written ++ content (r.st m).pending = (r.st m).due.flatten :=
    conserved_run r m
  rw [(sealed_of_reachable (reachable_run r m)).due_eq] at hc
  obtain ⟨more, hmore⟩ := logged_of_le (r := r) hm
  have hprefix : (r.st n).logged.flatten <+: (r.st m).logged.flatten := by
    rw [← hmore, List.flatten_append]
    exact List.prefix_append ..
  exact List.prefix_of_prefix_length_le hprefix ⟨_, hc⟩ hlen

theorem messages_eventually_written_logAndStop : ∃ m, 3 ≤ m ∧
    prependMsgForTest [97] .WARN [] 0 <+: (logAndStopRun.st m).written :=
  messages_eventually_written logAndStopRun fair_logAndStopRun 3

/-- **The end**: in every such run in which `stop` is called the background thread comes to its
second `lock_guard`.  From then on exactly the messages are written, none is logged any more, and
no call that is under way returns. -/
theorem stop_eventually_drains (r : Run ((system ι).guarded WritesAll).stuttering)
    (hfair : Fair r) {n : ℕ} (hstop : (r.st n).stopCalled = true) :
    ∃ m, n ≤ m ∧ ∀ j, m ≤ j → (r.st j).back = .drainRelock ∧
      (r.st j).written = (r.st m).logged.flatten ∧ (r.st j).logged = (r.st m).logged ∧
      ∀ i, (r.st m).callers i ≠ .idle → (r.st j).callers i ≠ .idle := by
  obtain ⟨m, hm, hd⟩ := exists_drained hfair hstop
  have hb : (r.st m).back = .drainRelock := by
    have hu := unpassed_of_reachable (reachable_run r m)
    cases hb : (r.st m).back with
    | drainRelock => rfl
    | notify => exact absurd hb hu.1
    | finished => exact absurd hb hu.2
    | _ =>
        rw [hb] at hd
        exact hd.elim
  refine ⟨m, hm, fun j hj => ?_⟩
  induction hj with
  | refl =>
      have hsealed := sealed_of_reachable (reachable_run r m)
      exact ⟨hb, written_of_drained (conserved_run r m) hsealed hd, rfl, fun _ => id⟩
  | @step j hj ih =>
      obtain ⟨hbj, hw, hl, hi⟩ := ih
      rcases r.step_cases j with ⟨-, hst⟩ | ⟨a, -, hs, -⟩
      · rw [hst]
        exact ⟨hbj, hw, hl, hi⟩
      · have hexcl := exclusive_of_reachable (reachable_run r j)
        obtain ⟨hb', hl', hw', hi'⟩ := relock_step hexcl hbj hs
        exact ⟨hb', hw'.trans hw, hl'.trans hl, fun i hne => hi' i (hi i hne)⟩

theorem stop_eventually_drains_logAndStop : ∃ m, 4 ≤ m ∧ ∀ j, m ≤ j →
    (logAndStopRun.st j).back = .drainRelock ∧
    (logAndStopRun.st j).written = (logAndStopRun.st m).logged.flatten := by
  obtain ⟨m, hm, h⟩ := stop_eventually_drains logAndStopRun fair_logAndStopRun (n := 4) rfl
  exact ⟨m, hm, fun j hj => ⟨(h j hj).1, (h j hj).2.1⟩⟩

end Logger

end Dagger
