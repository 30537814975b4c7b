import Dagger.LogBuffers

/-! # What the logger writes

Buffers move from `currentBuffer_` through `buffers_` and `fullBuffers` to the output.  In every
run in which `write` writes all its bytes, what was written and what is still to be written make
up the messages, each once and in the order in which their `log` calls took `mutex_`
(`log_conserved`). -/

namespace Dagger

/-- The final drain has taken `mutex_`. -/
def BackPhase.Draining : BackPhase → Prop
  | drainCollect | drainWrite _ | drainRelock | notify | finished => True
  | _ => False

/-- The writes of the final drain are done. -/
def BackPhase.Drained : BackPhase → Prop
  | drainRelock | notify | finished => True
  | _ => False

namespace Logger

open Transition

variable {ι : Type} {s t : Logger ι}

/-- The bytes of a list of buffers. -/
def content (ptrs : List Ptr) : List Byte := ptrs.flatMap fun ptr => ptr.getD []

@[simp] theorem content_nil : content [] = [] := rfl

@[simp] theorem content_cons (ptr : Ptr) (ptrs : List Ptr) :
    content (ptr :: ptrs) = ptr.getD [] ++ content ptrs := rfl

@[simp] theorem content_append (ptrs ptrs' : List Ptr) :
    content (ptrs ++ ptrs') = content ptrs ++ content ptrs' := List.flatMap_append

/-- Moving `currentBuffer_` to the end of `buffers_` keeps its bytes. -/
@[simp] theorem content_toList (ptr : Ptr) : content (ptr.toList.map some) = ptr.getD [] := by
  cases ptr with
  | none => rfl
  | some buf => simp

/-- The buffers that are still to be written, in order. -/
def pending (s : Logger ι) : List Ptr :=
  match s.back with
  | .drainWrite rest => rest
  | .drainRelock | .notify | .finished => []
  | _ => s.fullBuffers ++ s.buffers ++ [s.currentBuffer]

/-- The messages that were stored, up to the final drain. -/
def due (s : Logger ι) : List (List Byte) :=
  match s.back with
  | .drainCollect | .drainWrite _ | .drainRelock | .notify | .finished => s.drained
  | _ => s.logged

/-- What was written and what is still to be written make up the messages. -/
def Conserved (s : Logger ι) : Prop := s.written ++ content s.pending = s.due.flatten

theorem pending_of_not_draining (h : ¬ s.back.Draining) :
    s.pending = s.fullBuffers ++ s.buffers ++ [s.currentBuffer] := by
  unfold pending
  cases hb : s.back <;> simp_all [BackPhase.Draining]

theorem due_of_not_draining (h : ¬ s.back.Draining) : s.due = s.logged := by
  unfold due
  cases hb : s.back <;> simp_all [BackPhase.Draining]

/-! ### The steps -/

/-- What is left of the final drain does not depend on the buffers in use. -/
theorem pending_of_draining (hd : s.back.Draining) (hb : s.back ≠ .drainCollect)
    (hback : t.back = s.back) : t.pending = s.pending := by
  unfold pending
  rw [hback]
  cases h : s.back with
  | drainWrite rest => rfl
  | drainRelock => rfl
  | notify => rfl
  | finished => rfl
  | drainCollect => exact absurd h hb
  | _ =>
      rw [h] at hd
      exact hd.elim

theorem due_of_draining (hd : s.back.Draining) (hback : t.back = s.back)
    (hdr : t.drained = s.drained) : t.due = s.due := by
  unfold due
  rw [hback, hdr]
  cases h : s.back with
  | drainCollect => rfl
  | drainWrite rest => rfl
  | drainRelock => rfl
  | notify => rfl
  | finished => rfl
  | _ =>
      rw [h] at hd
      exact hd.elim

/-- A message that is stored comes last among the bytes still to be written. -/
theorem Conserved.store {msg : List Byte} (h : s.Conserved) (hb : s.back ≠ .drainCollect)
    (hback : t.back = s.back) (hw : t.written = s.written) (hf : t.fullBuffers = s.fullBuffers)
    (hdr : t.drained = s.drained) (hl : t.logged = s.logged ++ [msg])
    (hc : content (t.buffers ++ [t.currentBuffer]) =
      content (s.buffers ++ [s.currentBuffer]) ++ msg) : t.Conserved := by
  unfold Conserved at h ⊢
  by_cases hd : s.back.Draining
  · rw [hw, pending_of_draining hd hb hback, due_of_draining hd hback hdr]
    exact h
  · have hd' : ¬ t.back.Draining := by
      rw [hback]
      exact hd
    rw [pending_of_not_draining hd, due_of_not_draining hd, List.append_assoc,
      content_append] at h
    rw [pending_of_not_draining hd', due_of_not_draining hd', List.append_assoc, content_append,
      hw, hf, hl, hc, List.flatten_append, ← h]
    simp

theorem Conserved.storeMsg (hf : s.Filled) (h : s.Conserved) {msg : List Byte}
    (hb : s.back ≠ .drainCollect) (hs : s.storeMsg msg = some t) : t.Conserved := by
  obtain ⟨buf, ⟨hbuf, rfl⟩ | ⟨hbuf, rfl⟩⟩ := storeMsg_cases hs
  · refine h.store hb rfl rfl rfl rfl rfl ?_
    simp [hbuf]
  · -- the buffer taken is empty
    have hnil : buf = [] := by
      cases he : s.emptys.getLast? with
      | none =>
          rw [he] at hbuf
          exact (Option.some.inj hbuf).symm
      | some ptr =>
          rw [he, hf.emptys ptr (List.mem_of_getLast? he)] at hbuf
          exact (Option.some.inj hbuf).symm
    refine h.store hb rfl rfl rfl rfl rfl ?_
    simp [hnil]

/-- The next buffer is written whole. -/
theorem written_whole {buf bs : List Byte} {r : WriteResult}
    (h : ∀ n, r = .accepted n → bs = buf.take n) (hr : r = .accepted buf.length) : bs = buf := by
  rw [h _ hr, List.take_length]

variable [DecidableEq ι]

theorem conserved_back (hf : s.Filled) (h : s.Conserved) {r : WriteResult} {waiter : Option ι}
    (hall : s.WritesAll (.back r waiter)) (hs : s.backThread r waiter = some t) :
    t.Conserved := by
  unfold Conserved pending due at h
  unfold WritesAll at hall
  cases back_cases hs with
  | enter hb hr =>
      have hnil := hf.collected_of hb nofun nofun
      simp only [hb] at h
      refine Eq.trans ?_ h
      simp [pending, hnil]
  | collect hb =>
      simp only [hb] at h
      refine Eq.trans ?_ h
      simp [pending]
  | swap hb =>
      have hnil := hf.collected_of hb nofun nofun
      simp only [hb] at h
      refine Eq.trans ?_ h
      simp [pending, hnil]
  | write hb hfull hbs =>
      simp only [hb, hfull] at h hall
      rw [written_whole hbs (hall _ rfl)]
      unfold Conserved pending due
      simp only [hb]
      refine Eq.trans ?_ h
      simp
  | drainCollect hb =>
      have hnil := hf.collected_of hb nofun nofun
      simp only [hb] at h
      refine Eq.trans ?_ h
      simp [pending, hnil]
  | drainWrite hb hbs =>
      simp only [hb] at h hall
      rw [written_whole hbs (hall _ rfl)]
      refine Eq.trans ?_ h
      simp [pending]
  | leave hb | lock hb | wait hb | pass hb | waken hb | refill hb | written hb | drainLock hb
  | drained hb | drainRelock hb | notify hb | notifyOne hb | finished hb =>
      -- the bytes stay where they are
      simp only [hb] at h
      unfold Conserved pending due
      simp only [hb]
      exact h

theorem conserved_step {a : Act ι} (hx : s.Exclusive) (hf : s.Filled) (h : s.Conserved)
    (hs : ((system ι).guarded WritesAll).Step s a t) : t.Conserved := by
  obtain ⟨hs, hall⟩ := hs
  cases stepped hs with
  | @store i msg u hi hm hu =>
      -- no message is stored while the drain reads `currentBuffer_`
      have hb : s.back ≠ .drainCollect := by
        intro hb
        exact hx.not_back_holds hm (by rw [hb]; trivial)
      have hu : u.Conserved := h.storeMsg hf hb hu
      exact hu
  | back hl ht => exact conserved_back hf h hall ht
  | aside hstop => exact h

theorem conserved_of_reachable (h : Reachable ((system ι).guarded WritesAll) s) :
    s.Conserved := by
  refine h.invariant_of (J := fun s => s.Exclusive ∧ s.Filled)
    (fun _ hr => ⟨exclusive_of_reachable hr.of_guarded, filled_of_reachable hr.of_guarded⟩) ?_
    (fun _ _ _ hj => conserved_step hj.1 hj.2)
  rintro _ rfl
  rfl

/-- **Conservation of messages**: in every run in which `write` writes all its bytes, the bytes
written, collected and stored are the messages in the order of their `log` calls, until the final
drain takes `mutex_`; its writes leave exactly the messages that came before it.  No step
dereferences a null pointer, and the buffers of `emptys_` are empty. -/
theorem log_conserved (h : Reachable ((system ι).guarded WritesAll) s) :
    (¬ s.back.Draining → s.written ++ content s.fullBuffers ++ content s.buffers ++
      s.currentBuffer.getD [] = s.logged.flatten) ∧
    (s.back.Drained → s.written = s.drained.flatten) ∧
    (∀ a, s.Legal a → (s.next a).isSome) ∧ ∀ ptr ∈ s.emptys, ptr = some [] := by
  have he : s.written ++ content s.pending = s.due.flatten := conserved_of_reachable h
  have hf := filled_of_reachable h.of_guarded
  refine ⟨fun hd => ?_, fun hd => ?_, fun a => isSome_next hf, hf.emptys⟩
  · rw [pending_of_not_draining hd, due_of_not_draining hd] at he
    simpa using he
  · unfold pending due at he
    cases hb : s.back <;> simp_all [BackPhase.Drained]

/-- One message is stored. -/
def oneLogged (msg : List Byte) : Logger Unit where
  callers := fun _ => .logged
  mutex := some (.caller ())
  currentBuffer := some msg
  logged := [msg]

/-- A message is logged and `stop` called: the drain writes the message. -/
theorem log_conserved_drain : ∃ s : Logger Unit, s.back = .drainRelock ∧
    s.drained = [prependMsgForTest [97] .WARN [] 0] ∧ s.written = s.drained.flatten := by
  let msg := prependMsgForTest [97] .WARN [] 0
  let s₁ : Logger Unit := { callers := fun _ => .logging msg }
  have h₁ : Reachable ((system Unit).guarded WritesAll) s₁ :=
    .step (a := .log () .WARN [97] [] 0) (.init rfl) ⟨⟨rfl, rfl⟩, trivial⟩
  have h₂ : Reachable ((system Unit).guarded WritesAll) (oneLogged msg) :=
    h₁.step (a := .store ()) ⟨⟨⟨⟨msg, rfl⟩, rfl⟩, rfl⟩, trivial⟩
  let s₃ : Logger Unit := { oneLogged msg with
    callers := fun _ => .waiting, mutex := none, running := false, stopCalled := true }
  have h₃ : Path ((system Unit).guarded WritesAll) (oneLogged msg)
      [.endLog (), .stop (), .lockStop (), .waitStop ()] s₃ := by
    refine .cons ⟨⟨rfl, rfl⟩, trivial⟩ (.cons ⟨⟨rfl, rfl⟩, trivial⟩ ?_)
    exact .cons ⟨⟨⟨rfl, rfl⟩, rfl⟩, trivial⟩ (.cons ⟨⟨rfl, rfl⟩, trivial⟩ (.nil _))
  let s₄ : Logger Unit := { s₃ with
    running := true, mutex := some .background, back := .drainWrite [some msg], drained := [msg]
    currentBuffer := none, buffers := [some msg] }
  have h₄ : Path ((system Unit).guarded WritesAll) s₃
      [.back (.accepted 0) none, .back (.accepted 0) none, .back (.accepted 0) none] s₄ := by
    refine .cons ⟨⟨trivial, rfl⟩, trivial⟩ (.cons ⟨⟨rfl, rfl⟩, trivial⟩ ?_)
    exact .cons ⟨⟨trivial, rfl⟩, trivial⟩ (.nil _)
  let s₅ : Logger Unit := { s₄ with back := .drainRelock, written := msg }
  have h₅ : Path ((system Unit).guarded WritesAll) s₄
      [.back (.accepted 9) none, .back (.accepted 0) none] s₅ := by
    have hlen : msg.length = 9 := by decide
    refine .cons ⟨⟨fun ptr hptr => ?_, rfl⟩, fun ptr hptr => ?_⟩
      (.cons ⟨⟨nofun, rfl⟩, nofun⟩ (.nil _))
    · obtain rfl := Option.some.inj hptr
      exact Nat.le_of_eq hlen.symm
    · obtain rfl := Option.some.inj hptr
      exact congrArg WriteResult.accepted hlen.symm
  have hr := h₅.reachable (h₄.reachable (h₃.reachable h₂))
  exact ⟨s₅, rfl, rfl, (log_conserved hr).2.1 trivial⟩

end Logger

end Dagger
