import Dagger.EventLoop
import Mathlib.Algebra.Group.Nat.Defs

/-! # Stopping the loops

`stop()` and `runInLoop` wake a loop by writing an uninitialised word to `wakeUpFd_`, which only
`init()` sets.  An eventfd takes no notice of the word 0 and refuses `2 ^ 64 - 1`; the number that
is left in the `wakeUpFd_` of a loop without `init()` may be that of any open descriptor, and the
destructor of `EventLoopPool` stops all of `loops_`.

The loops share one table of descriptors, and every thread may call `stop()` at any time.
`heeded_iff` says which writes do what they are for. -/

namespace Dagger

/-- The counter after `write(fd, &word, 8)` on an eventfd with `EFD_NONBLOCK`. -/
def eventfdWrite (counter : ℕ) (word : UInt64) : ℕ :=
  -- `EINVAL`
  if word.toNat = 2 ^ 64 - 1 then counter
  else if counter + word.toNat ≤ 2 ^ 64 - 2 then counter + word.toNat
  -- `EAGAIN`
  else counter

/-- The words that count. -/
def Wakes (word : UInt64) : Prop := word.toNat ≠ 0 ∧ word.toNat ≠ 2 ^ 64 - 1

instance (word : UInt64) : Decidable (Wakes word) := inferInstanceAs (Decidable (_ ∧ _))

/-- An eventfd is readable after a write if it was before, or if the word counts. -/
theorem eventfdWrite_pos {counter : ℕ} {word : UInt64} :
    0 < eventfdWrite counter word ↔ 0 < counter ∨ Wakes word := by
  have hlt := word.toNat_lt
  unfold eventfdWrite Wakes
  split_ifs <;> omega

/-- What an open descriptor is. -/
inductive FdKind where
  /-- The eventfd made by `init()` of a loop. -/
  | eventfd (loop : ℕ)
  | other
deriving DecidableEq

/-- Where the thread of a loop stands. -/
inductive ThreadPc where
  /-- `init()` was not called. -/
  | created
  /-- Before it reads `looping_` in `start()`. -/
  | checking
  /-- In the body of `while (looping_)`. -/
  | body
  | ended
deriving DecidableEq

/-- An `EventLoop` that can be stopped. -/
structure StoppableLoop (ι τ : Type) extends EventLoop ι τ where
  /-- `wakeUpFd_`, indeterminate before `init()`. -/
  wakeUpFd : ℤ
  looping : Bool := false
  thread : ThreadPc := .created
  /-- The counter of the eventfd. -/
  counter : ℕ := 0
  /-- The threads in `stop()`, between `looping_ = false` and the write. -/
  stopping : Option ι → Bool := fun _ => false

/-- A call of `writeWakeUpFd`, with what it reached. -/
structure WakeUpWrite where
  loop : ℕ
  /-- The file of the descriptor; `none` is `EBADF`. -/
  file : Option FdKind
  /-- `init()` was called before. -/
  initialized : Bool
  /-- The eventfd is readable after the write. -/
  readable : Bool

structure EventLoops (ι τ : Type) where
  loops : ℕ → StoppableLoop ι τ
  /-- The open descriptors of the process. -/
  files : ℕ → Option FdKind
  writes : List WakeUpWrite := []

namespace StoppableLoop

variable {ι τ : Type}

/-- The eventfd is readable while its counter is not 0. -/
def setCounter (l : StoppableLoop ι τ) (counter : ℕ) : StoppableLoop ι τ :=
  { l with counter, wakeUp := decide (0 < counter) }

variable [DecidableEq ι]

def Enabled (l : StoppableLoop ι τ) : EventLoop.Act ι τ → Prop
  | .push i task => l.toEventLoop.Enabled (.push i task)
  | .readHanding i => l.toEventLoop.Enabled (.readHanding i)
  | .writeWakeUpFd _ => False
  | a => l.thread = .body ∧ l.toEventLoop.Enabled a

def next (l : StoppableLoop ι τ) : EventLoop.Act ι τ → StoppableLoop ι τ
  | .readWakeUpFd => { l with toEventLoop := l.toEventLoop.next .readWakeUpFd, counter := 0 }
  | .clearHanding =>
      { l with toEventLoop := l.toEventLoop.next .clearHanding, thread := .checking }
  | a => { l with toEventLoop := l.toEventLoop.next a }

/-- Blocked in `poll` after all calls of `stop()`. -/
structure Stranded (l : StoppableLoop ι τ) : Prop where
  thread : l.thread = .body
  pc : l.pc = .poll
  looping : l.looping = false
  wakeUp : l.wakeUp = false
  stopping : ∀ i, l.stopping i = false

end StoppableLoop

namespace EventLoops

open Transition

variable {ι τ : Type}

inductive Act (ι τ : Type) where
  /-- `init()`, with the result of `eventfd`, which is -1 if there is none. -/
  | init (i : ℕ) (eventfd : Option ℕ)
  /-- The head of `while (looping_)`. -/
  | check (i : ℕ)
  /-- The body of the loop, and `runInLoop` up to its write. -/
  | loop (i : ℕ) (a : EventLoop.Act ι τ)
  /-- The write of `runInLoop`. -/
  | wake (i : ℕ) (caller : Option ι) (word : UInt64)
  /-- `looping_ = false`. -/
  | stop (i : ℕ) (caller : Option ι)
  /-- The write of `stop()`. -/
  | stopWrite (i : ℕ) (caller : Option ι) (word : UInt64)
  | openOther (fd : ℕ)
  | closeOther (fd : ℕ)

section Files

variable (s : EventLoops ι τ)

def setLoop (i : ℕ) (l : StoppableLoop ι τ) : EventLoops ι τ :=
  { s with loops := Function.update s.loops i l }

/-- The file that a descriptor names. -/
def file (fd : ℤ) : Option FdKind := if 0 ≤ fd then s.files fd.toNat else none

/-- `write(fd, &word, sizeof(word))`. -/
def write (fd : ℤ) (word : UInt64) : EventLoops ι τ :=
  match s.file fd with
  | some (.eventfd j) =>
      s.setLoop j ((s.loops j).setCounter (eventfdWrite (s.loops j).counter word))
  | _ => s

/-- `word` is the value of the local `tmp`. -/
def writeWakeUpFd (i : ℕ) (word : UInt64) : EventLoops ι τ :=
  let fd := (s.loops i).wakeUpFd
  let t := s.write fd word
  { t with writes := t.writes ++ [{
      loop := i
      file := s.file fd
      initialized := (s.loops i).thread ≠ .created
      readable := (t.loops i).wakeUp }] }

end Files

section Steps

variable [DecidableEq ι] (s : EventLoops ι τ)

def Enabled : Act ι τ → Prop
  | .init i eventfd => (s.loops i).thread = .created ∧ ∀ fd, eventfd = some fd → s.files fd = none
  | .check i => (s.loops i).thread = .checking
  | .loop i a => (s.loops i).Enabled a
  | .wake i caller _ => (s.loops i).callers caller = .waking
  | .stop i caller => (s.loops i).stopping caller = false
  | .stopWrite i caller _ => (s.loops i).stopping caller = true
  | .openOther fd => s.files fd = none
  | .closeOther fd => s.files fd = some .other

def next : Act ι τ → EventLoops ι τ
  | .init i none =>
      s.setLoop i { s.loops i with wakeUpFd := -1, thread := .checking, looping := true }
  | .init i (some fd) =>
      { s.setLoop i { s.loops i with wakeUpFd := fd, thread := .checking, looping := true } with
        files := Function.update s.files fd (some (.eventfd i)) }
  | .check i =>
      let l := s.loops i
      s.setLoop i { l with thread := if l.looping then .body else .ended }
  | .loop i a => s.setLoop i ((s.loops i).next a)
  | .wake i caller word =>
      let l := s.loops i
      (s.setLoop i { l with callers := Function.update l.callers caller .idle }).writeWakeUpFd i
        word
  | .stop i caller =>
      let l := s.loops i
      s.setLoop i { l with
        looping := false
        stopping := Function.update l.stopping caller true }
  | .stopWrite i caller word =>
      let l := s.loops i
      (s.setLoop i { l with
        stopping := Function.update l.stopping caller false }).writeWakeUpFd i word
  | .openOther fd => { s with files := Function.update s.files fd (some .other) }
  | .closeOther fd => { s with files := Function.update s.files fd none }

end Steps

/-- The runs from constructed loops and some open descriptors. -/
def system (ι τ : Type) [DecidableEq ι] : System (EventLoops ι τ) (Act ι τ) where
  Init s := ∃ (wakeUpFd : ℕ → ℤ) (others : ℕ → Bool), s = {
    loops := fun i => { wakeUpFd := wakeUpFd i }
    files := fun fd => if others fd then some .other else none }
  Step s a t := s.Enabled a ∧ t = s.next a

/-- The loop over `loops_` in `~EventLoopPool`, with what the local `tmp` holds each time. -/
def destroyPool (caller : ι) (word : ℕ → UInt64) (n : ℕ) : List (Act ι τ) :=
  (List.range n).flatMap fun i =>
    [.stop i (some caller), .stopWrite i (some caller) (word i)]

/-! ### The property and its condition -/

/-- The write has reached no descriptor but the eventfd of its loop, which is readable if there is
one. -/
structure InOrder (w : WakeUpWrite) : Prop where
  own : ∀ file, w.file = some file → file = .eventfd w.loop
  readable : w.initialized = true → w.readable = true

structure Heeded (s : EventLoops ι τ) : Prop where
  writes : ∀ w ∈ s.writes, InOrder w
  awake : ∀ i, ¬ (s.loops i).Stranded

/-- A write with the word to the loop's `wakeUpFd_` wakes the loop, if it runs, and nothing else. -/
def WakesOwn (s : EventLoops ι τ) (i : ℕ) (word : UInt64) : Prop :=
  let l := s.loops i
  if l.thread = .created then s.file l.wakeUpFd = none
  else 0 ≤ l.wakeUpFd ∧ (0 < l.counter ∨ Wakes word)

theorem wakesOwn_of_ne {s : EventLoops ι τ} {i : ℕ} {word : UInt64}
    (h : (s.loops i).thread ≠ .created) : s.WakesOwn i word ↔
      0 ≤ (s.loops i).wakeUpFd ∧ (0 < (s.loops i).counter ∨ Wakes word) := by
  unfold WakesOwn
  exact iff_of_eq (if_neg h)

def WritesWake (s : EventLoops ι τ) : Act ι τ → Prop
  | .wake i _ word => s.WakesOwn i word
  | .stopWrite i _ word => s.WakesOwn i word
  | _ => True

variable {s t : EventLoops ι τ} {a : Act ι τ} {i : ℕ} {l : StoppableLoop ι τ} {word : UInt64}

/-! ### What the guarded steps keep -/

structure Tended (file : ℤ → Option FdKind) (i : ℕ) (l : StoppableLoop ι τ) : Prop where
  own : l.thread ≠ .created → 0 ≤ l.wakeUpFd → file l.wakeUpFd = some (.eventfd i)
  silent : l.wakeUp = true → l.thread ≠ .created ∧ 0 ≤ l.wakeUpFd
  awake : ¬ l.Stranded

structure Sound (s : EventLoops ι τ) : Prop where
  loops : ∀ i, Tended s.file i (s.loops i)
  owner : ∀ fd j, s.files fd = some (.eventfd j) → (s.loops j).thread ≠ .created
  writes : ∀ w ∈ s.writes, InOrder w

theorem Sound.heeded (h : s.Sound) : s.Heeded := ⟨h.writes, fun i => (h.loops i).awake⟩

@[simp] theorem loops_setLoop_self : (s.setLoop i l).loops i = l := Function.update_self ..

theorem loops_setLoop_ne {j : ℕ} (hj : j ≠ i) : (s.setLoop i l).loops j = s.loops j :=
  Function.update_of_ne hj ..

theorem file_setLoop (fd : ℤ) : (s.setLoop i l).file fd = s.file fd := rfl

theorem file_of_nonneg {fd : ℕ} : s.file fd = s.files fd := by
  unfold file
  rw [if_pos (Int.natCast_nonneg fd), Int.toNat_natCast]

theorem Sound.setLoop (h : s.Sound) (hl : Tended s.file i l)
    (hthread : (s.loops i).thread ≠ .created → l.thread ≠ .created) : (s.setLoop i l).Sound := by
  refine ⟨fun j => ?_, fun fd j hfd => ?_, h.writes⟩
  · by_cases hj : j = i
    · rw [hj, loops_setLoop_self]
      exact hl
    · rw [loops_setLoop_ne hj]
      exact h.loops j
  · have hcreated := h.owner fd j hfd
    by_cases hj : j = i
    · rw [hj, loops_setLoop_self]
      exact hthread (hj ▸ hcreated)
    · rw [loops_setLoop_ne hj]
      exact hcreated

/-! ### Writes -/

/-- What a write leaves in the history. -/
theorem mem_writes_writeWakeUpFd (s : EventLoops ι τ) (i : ℕ) (word : UInt64) :
    { loop := i
      file := s.file (s.loops i).wakeUpFd
      initialized := (s.loops i).thread ≠ .created
      readable := ((s.write (s.loops i).wakeUpFd word).loops i).wakeUp } ∈
      (s.writeWakeUpFd i word).writes := List.mem_append_right _ (List.mem_singleton.mpr rfl)

theorem write_of_none {fd : ℤ} (h : s.file fd = none) : s.write fd word = s := by
  unfold write
  rw [h]

theorem write_own {fd : ℤ} (h : s.file fd = some (.eventfd i)) : s.write fd word =
    s.setLoop i ((s.loops i).setCounter (eventfdWrite (s.loops i).counter word)) := by
  unfold write
  rw [h]

/-- What a call changes before it writes. -/
structure BeforeWrite (l l' : StoppableLoop ι τ) : Prop where
  thread : l'.thread = l.thread
  wakeUpFd : l'.wakeUpFd = l.wakeUpFd
  counter : l'.counter = l.counter
  wakeUp : l'.wakeUp = l.wakeUp

theorem Sound.writeWakeUpFd (h : s.Sound) (hl : BeforeWrite (s.loops i) l)
    (hw : s.WakesOwn i word) : ((s.setLoop i l).writeWakeUpFd i word).Sound := by
  have hi := h.loops i
  unfold EventLoops.writeWakeUpFd
  unfold WakesOwn at hw
  dsimp only at hw ⊢
  rw [loops_setLoop_self, file_setLoop, hl.wakeUpFd, hl.thread]
  split_ifs at hw with hcreated
  · -- `init()` was not called, and the number is not that of a descriptor
    have htended : Tended s.file i l := by
      refine ⟨fun hne => ?_, fun hwake => ?_, fun hs => ?_⟩
      · rw [hl.thread] at hne
        exact absurd hcreated hne
      · rw [hl.wakeUp] at hwake
        exact absurd hcreated (hi.silent hwake).1
      · have hthread := hs.thread
        rw [hl.thread, hcreated] at hthread
        cases hthread
    have hsound := h.setLoop htended fun hne => absurd hcreated hne
    have hfile : (s.setLoop i l).file (s.loops i).wakeUpFd = none := hw
    rw [write_of_none hfile, hw]
    refine ⟨hsound.loops, hsound.owner, fun w hin => ?_⟩
    rcases List.mem_append.mp hin with hin | hin
    · exact h.writes w hin
    · rw [List.mem_singleton.mp hin]
      refine ⟨nofun, fun hinit => ?_⟩
      exact absurd hcreated (of_decide_eq_true hinit)
  · obtain ⟨hnonneg, hwakes⟩ := hw
    have hown := hi.own hcreated hnonneg
    have hfile : (s.setLoop i l).file (s.loops i).wakeUpFd = some (.eventfd i) := hown
    have hpos : 0 < eventfdWrite l.counter word := by
      rw [hl.counter]
      exact eventfdWrite_pos.mpr hwakes
    have htended : Tended s.file i (l.setCounter (eventfdWrite l.counter word)) := by
      refine ⟨fun _ _ => ?_, fun _ => ?_, fun hs => ?_⟩
      · show s.file l.wakeUpFd = _
        rw [hl.wakeUpFd]
        exact hown
      · show l.thread ≠ _ ∧ 0 ≤ l.wakeUpFd
        rw [hl.thread, hl.wakeUpFd]
        exact ⟨hcreated, hnonneg⟩
      · have hwake : decide (0 < eventfdWrite l.counter word) = false := hs.wakeUp
        exact absurd hpos (of_decide_eq_false hwake)
    have hthread : (l.setCounter (eventfdWrite l.counter word)).thread ≠ .created := by
      show l.thread ≠ _
      rw [hl.thread]
      exact hcreated
    have hsound := h.setLoop htended fun _ => hthread
    have hset : (s.setLoop i l).setLoop i (l.setCounter (eventfdWrite l.counter word)) =
        s.setLoop i (l.setCounter (eventfdWrite l.counter word)) := by
      simp [EventLoops.setLoop]
    rw [write_own hfile, loops_setLoop_self, hset, hown]
    refine ⟨hsound.loops, hsound.owner, fun w hin => ?_⟩
    rcases List.mem_append.mp hin with hin | hin
    · exact h.writes w hin
    · rw [List.mem_singleton.mp hin]
      refine ⟨fun file hf => (Option.some.inj hf).symm, fun _ => ?_⟩
      rw [loops_setLoop_self]
      exact decide_eq_true hpos

/-- Any other write is not in order. -/
theorem Sound.not_heeded_write (h : s.Sound) (hl : BeforeWrite (s.loops i) l)
    (hw : ¬ s.WakesOwn i word) : ¬ ((s.setLoop i l).writeWakeUpFd i word).Heeded := by
  intro hq
  have hentry := hq.writes _ (mem_writes_writeWakeUpFd (s.setLoop i l) i word)
  obtain ⟨hfile, hreadable⟩ := hentry
  dsimp only at hfile hreadable
  rw [loops_setLoop_self, file_setLoop, hl.wakeUpFd] at hfile
  rw [loops_setLoop_self, hl.wakeUpFd, hl.thread] at hreadable
  refine hw ?_
  unfold WakesOwn
  dsimp only
  split_ifs with hcreated
  · cases hf : s.file (s.loops i).wakeUpFd with
    | none => rfl
    | some file =>
        rw [hfile file hf] at hf
        unfold EventLoops.file at hf
        split_ifs at hf
        exact absurd hcreated (h.owner _ _ hf)
  · have hwake := hreadable (decide_eq_true hcreated)
    have hnonneg : 0 ≤ (s.loops i).wakeUpFd := by
      by_contra hneg
      have hnone : (s.setLoop i l).file (s.loops i).wakeUpFd = none := if_neg hneg
      rw [write_of_none hnone, loops_setLoop_self, hl.wakeUp] at hwake
      exact hneg ((h.loops i).silent hwake).2
    have hown : (s.setLoop i l).file (s.loops i).wakeUpFd = some (.eventfd i) :=
      (h.loops i).own hcreated hnonneg
    rw [write_own hown, loops_setLoop_self, loops_setLoop_self, hl.counter] at hwake
    exact ⟨hnonneg, eventfdWrite_pos.mp (of_decide_eq_true hwake)⟩

/-! ### Descriptors -/

/-- The descriptor of a loop is not touched by calls for other descriptors. -/
theorem file_update {fd : ℕ} {x : Option FdKind} {k : ℤ} {j : ℕ}
    (hfd : s.files fd ≠ some (.eventfd j)) (h : s.file k = some (.eventfd j)) :
    ({ s with files := Function.update s.files fd x } : EventLoops ι τ).file k =
      some (.eventfd j) := by
  unfold file at h ⊢
  split_ifs at h ⊢ with hk
  dsimp only
  rw [Function.update_of_ne, h]
  rintro rfl
  exact hfd h

theorem Tended.init (h : Tended s.file i (s.loops i))
    (hcreated : (s.loops i).thread = .created) {file : ℤ → Option FdKind} {wakeUpFd : ℤ}
    (hown : 0 ≤ wakeUpFd → file wakeUpFd = some (.eventfd i)) :
    Tended file i { s.loops i with wakeUpFd, thread := .checking, looping := true } :=
  ⟨fun _ => hown, fun hw => absurd hcreated (h.silent hw).1, fun hs => by cases hs.thread⟩

theorem Sound.files (h : s.Sound) {fd : ℕ} {x : Option FdKind}
    (hfd : ∀ j, s.files fd ≠ some (.eventfd j)) (hx : ∀ j, x ≠ some (.eventfd j)) :
    ({ s with files := Function.update s.files fd x } : EventLoops ι τ).Sound := by
  refine ⟨fun j => ⟨fun hne hnonneg => ?_, (h.loops j).silent, (h.loops j).awake⟩,
    fun fd' j hf => ?_, h.writes⟩
  · exact file_update (hfd j) ((h.loops j).own hne hnonneg)
  · by_cases hf' : fd' = fd
    · rw [hf'] at hf
      exact absurd ((Function.update_self ..).symm.trans hf) (hx j)
    · exact h.owner fd' j ((Function.update_of_ne hf' ..).symm.trans hf)

/-! ### Steps -/

variable [DecidableEq ι]

/-- A step of the body leaves `poll` only when it returns, and comes back through the head of the
loop. -/
theorem Tended.next {file : ℤ → Option FdKind} {a : EventLoop.Act ι τ} (h : Tended file i l)
    (hen : l.Enabled a) : Tended file i (l.next a) := by
  cases a with
  | pollReturns wakeUp => exact ⟨h.own, h.silent, fun hs => by cases hs.pc⟩
  | readWakeUpFd => exact ⟨h.own, nofun, fun hs => by cases hs.pc⟩
  | setHanding => exact ⟨h.own, h.silent, fun hs => by cases hs.pc⟩
  | swap => exact ⟨h.own, h.silent, fun hs => by cases hs.pc⟩
  | startTask =>
      obtain ⟨-, task, rest, hpc⟩ := hen
      have he : l.next .startTask =
          { l with pc := .inTask rest, executed := l.executed ++ [task] } := by
        simp only [StoppableLoop.next, EventLoop.next, hpc]
      rw [he]
      exact ⟨h.own, h.silent, fun hs => by cases hs.pc⟩
  | endTask =>
      obtain ⟨-, ⟨rest, hpc⟩, -⟩ := hen
      have he : l.next .endTask = { l with pc := .running rest } := by
        simp only [StoppableLoop.next, EventLoop.next, hpc]
      rw [he]
      exact ⟨h.own, h.silent, fun hs => by cases hs.pc⟩
  | clearHanding =>
      have hthread : l.thread ≠ .created := by
        rw [hen.1]
        decide
      exact ⟨fun _ => h.own hthread, fun hw => ⟨nofun, (h.silent hw).2⟩,
        fun hs => by cases hs.thread⟩
  | push c task => exact ⟨h.own, h.silent, fun hs => h.awake ⟨hs.1, hs.2, hs.3, hs.4, hs.5⟩⟩
  | readHanding c => exact ⟨h.own, h.silent, fun hs => h.awake ⟨hs.1, hs.2, hs.3, hs.4, hs.5⟩⟩
  | writeWakeUpFd c => exact hen.elim

theorem created_next {a : EventLoop.Act ι τ} (hl : l.thread ≠ .created) :
    (l.next a).thread ≠ .created := by
  cases a with
  | clearHanding => exact nofun
  | _ => exact hl

theorem Sound.init (h : s.Sound) {eventfd : Option ℕ} (hcreated : (s.loops i).thread = .created)
    (hfree : ∀ fd, eventfd = some fd → s.files fd = none) :
    (s.next (.init i eventfd)).Sound := by
  cases eventfd with
  | none => exact h.setLoop ((h.loops i).init hcreated nofun) fun _ => nofun
  | some fd =>
      have hfd : s.files fd = none := hfree fd rfl
      have hno : ∀ j, s.files fd ≠ some (.eventfd j) := fun j => by rw [hfd]; exact nofun
      refine ⟨fun j => ?_, fun fd' j hf => ?_, h.writes⟩
      · by_cases hj : j = i
        · subst hj
          show Tended _ j ((s.setLoop j _).loops j)
          rw [loops_setLoop_self]
          refine (h.loops j).init hcreated fun _ => ?_
          rw [file_of_nonneg]
          exact Function.update_self ..
        · have hj' := h.loops j
          show Tended _ j ((s.setLoop i _).loops j)
          rw [loops_setLoop_ne hj]
          exact ⟨fun hne hnonneg => file_update (hno j) (hj'.own hne hnonneg), hj'.silent,
            hj'.awake⟩
      · show ((s.setLoop i _).loops j).thread ≠ _
        by_cases hj : j = i
        · rw [hj, loops_setLoop_self]
          exact nofun
        · rw [loops_setLoop_ne hj]
          by_cases hf' : fd' = fd
          · rw [hf'] at hf
            have he := (Function.update_self ..).symm.trans hf
            injection Option.some.inj he with hij
            exact absurd hij.symm hj
          · exact h.owner fd' j ((Function.update_of_ne hf' ..).symm.trans hf)

theorem Sound.check (h : s.Sound) (hthread : (s.loops i).thread = .checking) :
    (s.next (.check i)).Sound := by
  have hi := h.loops i
  have hne : (s.loops i).thread ≠ .created := by
    rw [hthread]
    decide
  have hne' : (if (s.loops i).looping then ThreadPc.body else .ended) ≠ .created := by
    split_ifs <;> decide
  refine h.setLoop ⟨fun _ => hi.own hne, fun hw => ⟨hne', (hi.silent hw).2⟩, fun hs => ?_⟩
    fun _ => hne'
  have hbody := hs.thread
  have hlooping : (s.loops i).looping = false := hs.looping
  dsimp only at hbody
  rw [hlooping] at hbody
  cases hbody

theorem sound_step (h : s.Sound) (hs : ((system ι τ).guarded WritesWake).Step s a t) :
    t.Sound := by
  obtain ⟨⟨hen, rfl⟩, hguard⟩ := hs
  cases a with
  | init i eventfd => exact h.init hen.1 hen.2
  | check i => exact h.check hen
  | loop i a => exact h.setLoop ((h.loops i).next hen) created_next
  | wake i c word => exact h.writeWakeUpFd ⟨rfl, rfl, rfl, rfl⟩ hguard
  | stop i c =>
      have hi := h.loops i
      refine h.setLoop ⟨hi.own, hi.silent, fun hs => ?_⟩ id
      have hc : Function.update (s.loops i).stopping c true c = false := hs.stopping c
      rw [Function.update_self] at hc
      cases hc
  | stopWrite i c word => exact h.writeWakeUpFd ⟨rfl, rfl, rfl, rfl⟩ hguard
  | openOther fd =>
      have hfree : s.files fd = none := hen
      exact h.files (fun j => by rw [hfree]; exact nofun) nofun
  | closeOther fd =>
      have hother : s.files fd = some .other := hen
      exact h.files (fun j => by rw [hother]; exact nofun) nofun

theorem sound_of_reachable (h : Reachable ((system ι τ).guarded WritesWake) s) : s.Sound := by
  refine h.invariant ?_ (fun _ _ _ => sound_step)
  rintro _ ⟨wakeUpFd, others, rfl⟩
  refine ⟨fun i => ⟨fun hne => absurd rfl hne, nofun, fun hs => by cases hs.thread⟩,
    fun fd j hf => ?_, nofun⟩
  dsimp only at hf
  split_ifs at hf
  cases hf

/-- **Wake-ups are heeded** in every run in which each write wakes its own loop or reaches
nothing, and the first write that does not is not. -/
theorem heeded_iff (ι τ : Type) [DecidableEq ι] :
    (∀ s, Reachable ((system ι τ).guarded WritesWake) s → s.Heeded) ∧
    ∀ s a t, Reachable ((system ι τ).guarded WritesWake) s → (system ι τ).Step s a t →
      (t.Heeded ↔ s.WritesWake a) := by
  refine ⟨fun s h => (sound_of_reachable h).heeded, fun s a t h hs => ⟨fun ht => ?_,
    fun hguard => (sound_step (sound_of_reachable h) ⟨hs, hguard⟩).heeded⟩⟩
  have hsound := sound_of_reachable h
  obtain ⟨hen, rfl⟩ := hs
  by_contra hguard
  cases a with
  | wake i c word =>
      refine (?_ : ¬ (s.next (.wake i c word)).Heeded) ht
      exact hsound.not_heeded_write ⟨rfl, rfl, rfl, rfl⟩ hguard
  | stopWrite i c word =>
      refine (?_ : ¬ (s.next (.stopWrite i c word)).Heeded) ht
      exact hsound.not_heeded_write ⟨rfl, rfl, rfl, rfl⟩ hguard
  | _ => exact hguard trivial

/-- Two loops of a process with the standard descriptors, whose `wakeUpFd_` happens to be 0. -/
def twoLoops : EventLoops Unit ℕ where
  loops := fun _ => { wakeUpFd := 0 }
  files := fun fd => if fd < 3 then some .other else none

theorem twoLoops_init : (system Unit ℕ).Init twoLoops :=
  ⟨fun _ => 0, fun fd => decide (fd < 3), by simp [twoLoops]⟩

/-- The thread of the first loop comes to `poll`. -/
def startFirst : List (Act Unit ℕ) := [.init 0 (some 3), .check 0]

theorem path_startFirst : Path ((system Unit ℕ).guarded WritesWake) twoLoops startFirst
    (startFirst.foldl next twoLoops) := by
  refine .cons ⟨⟨⟨rfl, fun fd he => ?_⟩, rfl⟩, trivial⟩ (.cons ⟨⟨rfl, rfl⟩, trivial⟩ (.nil _))
  rw [← Option.some.inj he]
  rfl

/-- A call of `stop()`, before its write. -/
def beforeWrite : EventLoops Unit ℕ :=
  (startFirst.foldl next twoLoops).next (.stop 0 (some ()))

theorem heeded_iff_stopWrite : (beforeWrite.next (.stopWrite 0 (some ()) 1)).Heeded ∧
    ¬ (beforeWrite.next (.stopWrite 0 (some ()) 0)).Heeded := by
  have h : Reachable ((system Unit ℕ).guarded WritesWake) beforeWrite :=
    (path_startFirst.reachable (.init twoLoops_init)).step (a := .stop 0 (some ()))
      ⟨⟨rfl, rfl⟩, trivial⟩
  have hbody : (beforeWrite.loops 0).thread ≠ .created := by decide
  constructor
  · refine ((heeded_iff Unit ℕ).2 _ (.stopWrite 0 (some ()) 1) _ h ⟨rfl, rfl⟩).mpr ?_
    exact (wakesOwn_of_ne hbody).mpr ⟨by decide, Or.inr (by decide)⟩
  · intro hq
    have hw := ((heeded_iff Unit ℕ).2 _ (.stopWrite 0 (some ()) 0) _ h ⟨rfl, rfl⟩).mp hq
    obtain ⟨-, hcounter | hword⟩ := (wakesOwn_of_ne hbody).mp hw
    · exact Nat.lt_irrefl 0 hcounter
    · exact absurd hword (by decide)

/-- The pool is destroyed while its second loop has no thread. -/
def startThenDestroy : List (Act Unit ℕ) :=
  startFirst ++ destroyPool () (fun i => UInt64.ofNat i) 2

/-- The first loop gets the word 0 and stays in `poll`, and the other word goes to the standard
input. -/
theorem destroyPool_strands : ∃ s, Path (system Unit ℕ) twoLoops startThenDestroy s ∧
    (s.loops 0).Stranded ∧ s.writes.map WakeUpWrite.file = [some (.eventfd 0), some .other] ∧
    ¬ s.Heeded := by
  have hstranded : ((startThenDestroy.foldl next twoLoops).loops 0).Stranded := by
    refine ⟨rfl, rfl, rfl, rfl, fun i => ?_⟩
    rcases i with _ | ⟨⟩
    · rfl
    · rfl
  refine ⟨startThenDestroy.foldl next twoLoops, path_startFirst.of_guarded.append ?_, hstranded,
    rfl, fun hq => hq.awake 0 hstranded⟩
  refine .cons ⟨rfl, rfl⟩ (.cons ⟨rfl, rfl⟩ (.cons ⟨rfl, rfl⟩ (.cons ⟨rfl, rfl⟩ (.nil _))))

end EventLoops

end Dagger
