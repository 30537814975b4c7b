import Dagger.LoggerMutex

/-! # The buffers of the logger

The pointers that the threads dereference are not null, and the buffers waiting in `emptys_` are
empty (`Filled`), so that every step that is enabled goes through (`isSome_next`). -/

namespace Dagger.Logger

open Transition

variable {ι : Type} {s t : Logger ι}

structure Filled (s : Logger ι) : Prop where
  emptys : ∀ ptr ∈ s.emptys, ptr = some []
  newEmptys : ∀ ptr ∈ s.newEmptys, ptr = some []
  buffers : none ∉ s.buffers
  fullBuffers : none ∉ s.fullBuffers
  /-- The buffers of the final drain. -/
  rest : ∀ rest, s.back = .drainWrite rest → none ∉ rest
  /-- Collected buffers are there only while they are written. -/
  collected : s.back ≠ .refill → s.back ≠ .write → s.fullBuffers = []

/-- Outside of the two phases nothing is collected. -/
theorem Filled.collected_of (h : s.Filled) {phase : BackPhase} (hb : s.back = phase)
    (hr : phase ≠ .refill) (hw : phase ≠ .write) : s.fullBuffers = [] :=
  h.collected (hb ▸ hr) (hb ▸ hw)

theorem notMem_pushed (h : none ∉ s.buffers) :
    none ∉ s.buffers ++ s.currentBuffer.toList.map some := by
  simp [h]

theorem mem_fillUp {ptr : Ptr} : ∀ {newEmptys emptys : List Ptr},
    ptr ∈ fillUp emptys newEmptys → ptr ∈ emptys ∨ ptr ∈ newEmptys
  | [], _, h => Or.inl h
  | new :: newEmptys, emptys, h => by
      unfold fillUp at h
      split_ifs at h
      · rcases mem_fillUp h with h | h
        · rcases List.mem_append.mp h with h | h
          · exact Or.inl h
          · exact Or.inr (List.mem_cons.mpr (Or.inl (List.mem_singleton.mp h)))
        · exact Or.inr (List.mem_cons_of_mem _ h)
      · exact Or.inl h

theorem Filled.storeMsg (h : s.Filled) {msg : List Byte} (hs : s.storeMsg msg = some t) :
    t.Filled := by
  obtain ⟨buf, ⟨-, rfl⟩ | ⟨-, rfl⟩⟩ := storeMsg_cases hs
  · exact ⟨h.emptys, h.newEmptys, h.buffers, h.fullBuffers, h.rest, h.collected⟩
  · exact ⟨fun ptr hin => h.emptys ptr (List.dropLast_subset _ hin), h.newEmptys,
      notMem_pushed h.buffers, h.fullBuffers, h.rest, h.collected⟩

variable [DecidableEq ι]

theorem filled_back (h : s.Filled) {r : WriteResult} {waiter : Option ι}
    (hs : s.backThread r waiter = some t) : t.Filled := by
  cases back_cases hs with
  | enter hb hr =>
      exact ⟨h.emptys, fun ptr hin => List.eq_of_mem_replicate hin, h.buffers, nofun, nofun,
        fun _ _ => rfl⟩
  | collect hb =>
      exact ⟨h.emptys, h.newEmptys, notMem_pushed h.buffers, h.fullBuffers, nofun,
        fun _ _ => h.collected_of hb nofun nofun⟩
  | swap hb =>
      exact ⟨h.emptys, h.newEmptys, h.fullBuffers, h.buffers, nofun, fun hne _ => absurd rfl hne⟩
  | refill hb =>
      refine ⟨fun ptr hin => ?_, h.newEmptys, h.buffers, h.fullBuffers, nofun,
        fun _ hne => absurd rfl hne⟩
      rcases mem_fillUp hin with hin | hin
      · exact h.emptys ptr hin
      · exact h.newEmptys ptr hin
  | write hb hf hbs =>
      have hfull := h.fullBuffers
      rw [hf] at hfull
      exact ⟨h.emptys, h.newEmptys, h.buffers, fun hin => hfull (List.mem_cons_of_mem _ hin),
        h.rest, fun _ hne => absurd hb hne⟩
  | written hb hf =>
      exact ⟨h.emptys, h.newEmptys, h.buffers, h.fullBuffers, nofun, fun _ _ => hf⟩
  | drainCollect hb =>
      refine ⟨h.emptys, h.newEmptys, notMem_pushed h.buffers, h.fullBuffers, fun rest he => ?_,
        fun _ _ => h.collected_of hb nofun nofun⟩
      cases he
      exact notMem_pushed h.buffers
  | drainWrite hb hbs =>
      refine ⟨h.emptys, h.newEmptys, h.buffers, h.fullBuffers, fun rest' he => ?_,
        fun _ _ => h.collected_of hb nofun nofun⟩
      cases he
      exact fun hin => h.rest _ hb (List.mem_cons_of_mem _ hin)
  | finished hb => exact h
  | leave hb | lock hb | wait hb | pass hb | waken hb | drainLock hb | drained hb
  | drainRelock hb | notify hb | notifyOne hb =>
      -- the buffers stay where they are
      exact ⟨h.emptys, h.newEmptys, h.buffers, h.fullBuffers, nofun,
        fun _ _ => h.collected_of hb nofun nofun⟩

theorem filled_step {a : Act ι} (h : s.Filled) (hs : (system ι).Step s a t) : t.Filled := by
  cases stepped hs with
  | store hi hm hu =>
      have hu := h.storeMsg hu
      exact ⟨hu.emptys, hu.newEmptys, hu.buffers, hu.fullBuffers, hu.rest, hu.collected⟩
  | back hl ht => exact filled_back h ht
  | aside hstop => exact ⟨h.emptys, h.newEmptys, h.buffers, h.fullBuffers, h.rest, h.collected⟩

theorem filled_of_reachable (h : Reachable (system ι) s) : s.Filled := by
  refine h.invariant ?_ (fun _ _ _ => filled_step)
  rintro _ rfl
  exact ⟨fun ptr hin => List.eq_of_mem_replicate hin, nofun, nofun, nofun, nofun, fun _ _ => rfl⟩

/-! ### No null pointer is dereferenced -/

omit [DecidableEq ι] in
theorem isSome_storeMsg (h : s.Filled) (msg : List Byte) :
    (s.storeMsg msg).isSome := by
  unfold storeMsg
  rw [pushCurrent_eq, takeEmpty_eq]
  split_ifs with hi
  · cases he : s.emptys.getLast? with
    | none => simp
    | some ptr =>
        have hptr := h.emptys ptr (List.mem_of_getLast? he)
        simp [hptr]
  · unfold Insufficient at hi
    cases hc : s.currentBuffer with
    | none =>
        rw [hc] at hi
        exact absurd trivial hi
    | some buf => simp [hc]

omit [DecidableEq ι] in
theorem isSome_writeBuf (s : Logger ι) {ptr : Ptr} (h : ptr ≠ none) (r : WriteResult) :
    (s.writeBuf ptr r).isSome := by
  unfold writeBuf
  rw [Option.isSome_map]
  exact Option.isSome_iff_ne_none.mpr h

theorem isSome_backThread (h : s.Filled) (r : WriteResult) (waiter : Option ι) :
    (s.backThread r waiter).isSome := by
  unfold backThread
  cases hb : s.back with
  | write =>
      cases hf : s.fullBuffers with
      | nil => rfl
      | cons ptr rest =>
          simp only [Option.isSome_map]
          refine s.isSome_writeBuf ?_ r
          rintro rfl
          exact h.fullBuffers (by rw [hf]; exact List.mem_cons_self)
  | drainWrite rest =>
      cases rest with
      | nil => rfl
      | cons ptr rest =>
          simp only [Option.isSome_map]
          refine s.isSome_writeBuf ?_ r
          rintro rfl
          exact h.rest _ hb List.mem_cons_self
  | _ => rfl

theorem isSome_next (h : s.Filled) {a : Act ι} (hl : s.Legal a) : (s.next a).isSome := by
  cases a with
  | log i level logline buf tv_usec =>
      unfold next
      dsimp only
      split_ifs <;> rfl
  | store i =>
      obtain ⟨⟨msg, hi⟩, -⟩ := hl
      unfold next
      simp only [hi, Option.isSome_map]
      exact isSome_storeMsg h msg
  | back r waiter => exact isSome_backThread h r waiter
  | _ => rfl

end Dagger.Logger
