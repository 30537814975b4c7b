import Mathlib.Algebra.Group.Nat.Defs
import Mathlib.Order.CompletePartialOrder
import Mathlib.Order.Interval.Set.Disjoint
import Dagger.BufferSpec

/-! # The regions of `memcpy`

`append` and `readFromSocket` move the readable bytes to the front of the vector with `memcpy`,
whose regions must not overlap.  They do not exactly when at most as many bytes are readable as
are discardable.

`readFromSocket` makes room for each of its reads.  Once it has compacted, nothing is discardable
and what was received is readable, so a second compaction in the same call always overlaps:
`ReadsApart` says in closed form when one compaction is enough, and meets no overlap.
`memcpy_apart_iff` puts the conditions together for whole runs. -/

namespace Dagger

/-- `memcpy(&vec_[dst], &vec_[src], len)`. -/
structure Move where
  dst : ℕ
  src : ℕ
  len : ℕ

namespace Move

/-- The regions do not overlap. -/
def Apart (m : Move) : Prop :=
  Disjoint (Set.Ico m.src (m.src + m.len)) (Set.Ico m.dst (m.dst + m.len))

def apply (v : List Byte) (m : Move) : Option (List Byte) := do
  let src ← slice v m.src m.len
  memcpy v m.dst src

/-- A move to the front. -/
theorem apart_front (src len : ℕ) : (⟨0, src, len⟩ : Move).Apart ↔ len ≤ src := by
  unfold Apart
  rw [Set.Ico_disjoint_Ico]
  simp only
  omega

end Move

namespace Buffer

variable {N : ℕ} {b b' : Buffer N} {len maxBytes m : ℕ}

/-! ### One compaction -/

/-- The size of the vector when there is room for `len` bytes. -/
def sizeFor (b : Buffer N) (len : ℕ) : ℕ :=
  if len ≤ b.discardableBytes then b.vec.length
  else max (b.vec.length * 2) (len + b.readableBytes)

/-- The `memcpy`s inside the vector that make room for `len` bytes. -/
def moves (b : Buffer N) (len : ℕ) : List Move :=
  if b.writableBytes < len ∧ 0 < b.readableBytes then [⟨0, b.readIndex, b.readableBytes⟩] else []

def resized (b : Buffer N) (len : ℕ) : List Byte :=
  if len ≤ b.discardableBytes then b.vec else resize b.vec (b.sizeFor len)

/-- `makeRoom` makes these moves in the vector it has resized. -/
theorem makeRoom_moves (hroom : b.writableBytes < len) : b.makeRoom len =
    ((b.moves len).foldlM Move.apply (b.resized len)).map
      fun vec => ⟨vec, 0, b.readableBytes⟩ := by
  have hresized : b.resized len = if len ≤ b.discardableBytes then b.vec
      else resize b.vec (max (b.vec.length * 2) (len + b.readableBytes)) := by
    unfold resized sizeFor
    split_ifs <;> rfl
  unfold makeRoom moves
  rw [if_pos hroom, hresized]
  by_cases hr : 0 < b.readableBytes
  · simp [hr, hroom, Move.apply, Option.map_eq_bind, Option.bind_assoc]
  · simp [hr]

theorem moves_apart : (∀ m ∈ b.moves len, m.Apart) ↔
    len ≤ b.writableBytes ∨ b.readableBytes ≤ b.discardableBytes := by
  unfold moves
  by_cases h : b.writableBytes < len ∧ 0 < b.readableBytes
  · rw [if_pos h, List.forall_mem_singleton, Move.apart_front]
    exact ⟨Or.inr, fun hor => hor.resolve_left (Nat.not_le.mpr h.1)⟩
  · rw [if_neg h]
    refine iff_of_true nofun ?_
    by_cases hroom : b.writableBytes < len
    · exact Or.inr (by omega)
    · exact Or.inl (by omega)

/-! ### What is left of the indices -/

theorem length_foldlM_apply : ∀ (ms : List Move) {v w : List Byte},
    ms.foldlM Move.apply v = some w → w.length = v.length
  | [], v, w, h => by rw [← Option.some.inj h]
  | m :: ms, v, w, h => by
      rw [List.foldlM_cons, Option.bind_eq_bind, Option.bind_eq_some_iff] at h
      obtain ⟨u, hu, hw⟩ := h
      unfold Move.apply at hu
      rw [Option.bind_eq_bind, Option.bind_eq_some_iff] at hu
      obtain ⟨src, -, hu⟩ := hu
      exact (length_foldlM_apply ms hw).trans (length_memcpy hu)

theorem length_resized (b : Buffer N) (len : ℕ) : (b.resized len).length = b.sizeFor len := by
  unfold resized
  split_ifs with hd
  · exact (if_pos hd).symm
  · refine length_resize ?_
    unfold sizeFor
    rw [if_neg hd]
    omega

theorem makeRoom_indices (hroom : b.writableBytes < len) (hb : b.makeRoom len = some b') :
    b'.readIndex = 0 ∧ b'.writeIndex = b.readableBytes ∧ b'.vec.length = b.sizeFor len := by
  rw [makeRoom_moves hroom, Option.map_eq_some_iff] at hb
  obtain ⟨vec, hvec, rfl⟩ := hb
  exact ⟨rfl, rfl, (length_foldlM_apply _ hvec).trans (length_resized b len)⟩

theorem fill_indices {s : List Byte} (hb : b.fill s = some b') : b'.readIndex = b.readIndex ∧
    b'.writeIndex = b.writeIndex + s.length ∧ b'.vec.length = b.vec.length := by
  unfold fill at hb
  simp only [Option.bind_eq_bind, Option.bind_eq_some_iff, Option.some.injEq] at hb
  obtain ⟨vec, hvec, rfl⟩ := hb
  exact ⟨rfl, rfl, length_memcpy hvec⟩

/-! ### The reads of one call -/

/-- How many times one call of `readFromSocket` calls `::read`. -/
def reads : ℕ → List ReadResult → ℕ
  | maxBytes, .data bs :: script =>
      if bs.length = maxBytes then reads (maxBytes * 2) script + 1 else 1
  | _, _ => 1

/-- The moves of one call of `readFromSocket`. -/
def readMoves : List ReadResult → ℕ → Buffer N → List Move
  | script, maxBytes, b => b.moves maxBytes ++
      match script with
      | .data bs :: script =>
          if bs.length = maxBytes then
            match (b.makeRoom maxBytes).bind fun b => b.fill bs with
            | some b => readMoves script (maxBytes * 2) b
            | none => []
          else []
      | _ => []

/-- What the first `k` reads ask for together: each asks for twice as much as the one before. -/
def requested (maxBytes k : ℕ) : ℕ := maxBytes * (2 ^ k - 1)

/-- The size of the vector when room was made for read `k`, the reads before having filled their
requests. -/
def sizeAt (b : Buffer N) (maxBytes k : ℕ) : ℕ :=
  if maxBytes * 2 ^ k ≤ b.discardableBytes then b.vec.length
  else max (b.vec.length * 2) (maxBytes * 2 ^ k + (b.readableBytes + requested maxBytes k))

/-- There is room for all `m` reads, or until one of them, before which no more is readable than
discardable, and after which there is room for the others. -/
def ReadsApart (b : Buffer N) (maxBytes m : ℕ) : Prop :=
  requested maxBytes m ≤ b.writableBytes ∨ ∃ k < m,
    requested maxBytes k ≤ b.writableBytes ∧ b.writableBytes < requested maxBytes (k + 1) ∧
      b.readableBytes + requested maxBytes k ≤ b.discardableBytes ∧
      (k + 1 = m ∨ b.readableBytes + requested maxBytes m ≤ b.sizeAt maxBytes k)

@[simp] theorem requested_zero (maxBytes : ℕ) : requested maxBytes 0 = 0 := by simp [requested]

theorem requested_succ (maxBytes k : ℕ) :
    requested maxBytes (k + 1) = maxBytes + requested (maxBytes * 2) k := by
  have hpow : 2 ^ (k + 1) - 1 = 1 + 2 * (2 ^ k - 1) := by
    have := Nat.one_le_two_pow (n := k)
    omega
  unfold requested
  rw [hpow, Nat.mul_add, Nat.mul_one, Nat.mul_assoc]

theorem sizeAt_zero (b : Buffer N) (maxBytes : ℕ) : b.sizeAt maxBytes 0 = b.sizeFor maxBytes := by
  simp [sizeAt, sizeFor]

/-- A read that finds room, and fills its request. -/
theorem readsApart_of_room (b' : Buffer N) (hroom : maxBytes ≤ b.writableBytes)
    (hd : b'.discardableBytes = b.discardableBytes) (hv : b'.vec.length = b.vec.length)
    (hr : b'.readableBytes = b.readableBytes + maxBytes)
    (hw : b'.writableBytes = b.writableBytes - maxBytes) :
    b.ReadsApart maxBytes (m + 1) ↔ b'.ReadsApart (maxBytes * 2) m := by
  have hsize : ∀ k, b'.sizeAt (maxBytes * 2) k = b.sizeAt maxBytes (k + 1) := by
    intro k
    have hpow : maxBytes * 2 ^ (k + 1) = maxBytes * 2 * 2 ^ k := by
      rw [Nat.pow_succ, Nat.mul_comm (2 ^ k), Nat.mul_assoc]
    unfold sizeAt
    rw [hd, hv, hr, hpow, requested_succ, Nat.add_assoc]
  unfold ReadsApart
  rw [requested_succ, hw, hr, hd]
  constructor
  · rintro (hall | ⟨k, hk, h1, h2, h3, h4⟩)
    · exact Or.inl (by omega)
    · cases k with
      | zero =>
          rw [requested_succ, requested_zero] at h2
          omega
      | succ k =>
          rw [requested_succ] at h1 h2 h3
          refine Or.inr ⟨k, by omega, by omega, by omega, by omega, ?_⟩
          rw [hsize]
          omega
  · rintro (hall | ⟨k, hk, h1, h2, h3, h4⟩)
    · exact Or.inl (by omega)
    · rw [hsize] at h4
      refine Or.inr ⟨k + 1, by omega, ?_, ?_, ?_, by omega⟩
      · rw [requested_succ]
        omega
      · rw [requested_succ]
        omega
      · rw [requested_succ]
        omega

/-- A read that has to compact, and fills its request. -/
theorem readsApart_of_compact (b' : Buffer N) (hroom : b.writableBytes < maxBytes) (hm : 0 < m)
    (hd : b'.discardableBytes = 0) (hr : b'.readableBytes = b.readableBytes + maxBytes)
    (hw : b'.writableBytes + (b.readableBytes + maxBytes) = b.sizeFor maxBytes) :
    b.ReadsApart maxBytes (m + 1) ↔
      b.readableBytes ≤ b.discardableBytes ∧ b'.ReadsApart (maxBytes * 2) m := by
  unfold ReadsApart
  rw [requested_succ, hd, hr]
  constructor
  · rintro (hall | ⟨k, hk, h1, h2, h3, h4⟩)
    · omega
    · cases k with
      | zero =>
          rw [requested_zero] at h3
          rw [sizeAt_zero] at h4
          exact ⟨h3, Or.inl (by omega)⟩
      | succ k =>
          rw [requested_succ] at h1
          omega
  · rintro ⟨hle, hall | ⟨k, hk, h1, h2, h3, h4⟩⟩
    · refine Or.inr ⟨0, by omega, by simp, ?_, by simpa using hle, Or.inr ?_⟩
      · rw [requested_succ, requested_zero]
        omega
      · rw [sizeAt_zero]
        omega
    · omega

theorem reads_pos : ∀ (maxBytes : ℕ) (script : List ReadResult), 0 < reads maxBytes script
  | _, [] => Nat.one_pos
  | _, .error _ :: _ => Nat.one_pos
  | maxBytes, .data bs :: script => by
      unfold reads
      split_ifs
      · exact Nat.succ_pos _
      · exact Nat.one_pos

/-- The only read makes its moves. -/
theorem moves_apart_one : (∀ m ∈ b.moves maxBytes, m.Apart) ↔ b.ReadsApart maxBytes 1 := by
  rw [moves_apart]
  unfold ReadsApart
  rw [requested_succ, requested_zero, Nat.add_zero]
  constructor
  · rintro (h | h)
    · exact Or.inl h
    · by_cases hroom : maxBytes ≤ b.writableBytes
      · exact Or.inl hroom
      · refine Or.inr ⟨0, by omega, by simp, ?_, by simpa using h, Or.inl rfl⟩
        rw [requested_succ, requested_zero]
        omega
  · rintro (h | ⟨k, hk, -, -, h, -⟩)
    · exact Or.inl h
    · obtain rfl : k = 0 := by omega
      rw [requested_zero] at h
      exact Or.inr h

/-- **The moves of one call** are apart exactly when `ReadsApart` says so of its reads. -/
theorem readMoves_apart : ∀ (script : List ReadResult) (maxBytes : ℕ) {b : Buffer N}, b.Wf →
    Deliverable maxBytes script →
    ((∀ m ∈ b.readMoves script maxBytes, m.Apart) ↔
      b.ReadsApart maxBytes (reads maxBytes script))
  | [], maxBytes, b, _, _ => by
      unfold readMoves
      rw [List.append_nil]
      exact moves_apart_one
  | .error _ :: _, maxBytes, b, _, _ => by
      unfold readMoves
      rw [List.append_nil]
      exact moves_apart_one
  | .data bs :: script, maxBytes, b, h, ⟨hlen, hrest⟩ => by
      unfold readMoves reads
      by_cases hfull : bs.length = maxBytes
      · obtain ⟨b1, e1, w1, r1, room⟩ := makeRoom_spec h maxBytes
        obtain ⟨b2, e2, w2, r2⟩ := fill_spec w1 (Nat.le_trans hlen room)
        have hbind : ((b.makeRoom maxBytes).bind fun b => b.fill bs) = some b2 := by
          rw [e1]
          exact e2
        have hm := reads_pos (maxBytes * 2) script
        obtain ⟨hread, hwrite, hvec⟩ := fill_indices e2
        have hle := h.read_le
        have hle' := h.write_le
        have hle1 := w1.write_le
        simp only [if_pos hfull, hbind, List.forall_mem_append,
          readMoves_apart script (maxBytes * 2) w2 (hrest hfull), moves_apart]
        by_cases hroom : b.writableBytes < maxBytes
        · obtain ⟨hread1, hwrite1, hvec1⟩ := makeRoom_indices hroom e1
          rw [readsApart_of_compact b2 hroom hm]
          · exact and_congr_left fun _ => ⟨fun hor => hor.resolve_left (by omega), Or.inr⟩
          · simp only [discardableBytes]
            omega
          · simp only [readableBytes] at hwrite1 ⊢
            omega
          · simp only [readableBytes, writableBytes] at hwrite1 room ⊢
            omega
        · have hsame : b1 = b := by
            unfold makeRoom at e1
            rw [if_neg hroom] at e1
            exact (Option.some.inj e1).symm
          subst hsame
          rw [readsApart_of_room b2 (Nat.not_lt.mp hroom)]
          · exact and_iff_right (Or.inl (Nat.not_lt.mp hroom))
          · exact hread
          · exact hvec
          · simp only [readableBytes]
            omega
          · simp only [writableBytes]
            omega
      · simp only [if_neg hfull, List.append_nil]
        exact moves_apart_one

/-! ### Runs -/

/-- The moves of an operation. -/
def Op.moves (b : Buffer N) : Op → List Move
  | .append s => b.moves s.length
  | .readFromSocket maxBytes script => b.readMoves script maxBytes
  | _ => []

/-- The condition under which they are apart. -/
def Op.Apart (b : Buffer N) : Op → Prop
  | .append s => s.length ≤ b.writableBytes ∨ b.readableBytes ≤ b.discardableBytes
  | .readFromSocket maxBytes script => b.ReadsApart maxBytes (reads maxBytes script)
  | _ => True

def runMoves : Buffer N → List Op → List Move
  | _, [] => []
  | b, o :: os => o.moves b ++ match b.step o with
      | none => []
      | some (_, b') => runMoves b' os

/-- Every operation meets its condition when its turn comes. -/
def ApartRun : Buffer N → List Op → Prop
  | _, [] => True
  | b, o :: os => o.Apart b ∧ match b.step o with
      | none => True
      | some (_, b') => ApartRun b' os

theorem op_moves_apart {o : Op} (h : b.Wf) (hl : o.Legal b) :
    (∀ m ∈ o.moves b, m.Apart) ↔ o.Apart b := by
  cases o with
  | append s => exact moves_apart
  | readFromSocket maxBytes script => exact readMoves_apart script maxBytes h hl
  | _ => exact iff_of_true nofun trivial

theorem runMoves_apart : ∀ (os : List Op) {b : Buffer N}, b.Wf → (fifo N).LegalRun b os →
    ((∀ m ∈ b.runMoves os, m.Apart) ↔ b.ApartRun os)
  | [], _, _, _ => iff_of_true nofun trivial
  | o :: os, b, h, ⟨hl, hrest⟩ => by
      obtain ⟨out, b', hs, hw, -⟩ := step_spec b o h hl
      have hs' : (fifo N).step b o = some (out, b') := hs
      rw [hs'] at hrest
      unfold runMoves ApartRun
      simp only [hs, List.forall_mem_append]
      rw [op_moves_apart h hl, runMoves_apart os hw hrest]

/-- **`memcpy` is used legally** in a run exactly when every `append` finds room or at most as
many readable bytes as discardable ones, and every `readFromSocket` meets `ReadsApart`. -/
theorem memcpy_apart_iff (os : List Op) (h : (fifo N).LegalRun (make N) os) :
    (∀ m ∈ (make N).runMoves os, m.Apart) ↔ (make N).ApartRun os :=
  runMoves_apart os (wf_make N) h

/-- Enough was retrieved for the bytes to move without overlap. -/
theorem memcpy_apart_iff_retrieved :
    (make 4).runMoves [.append [1, 2, 3, 4], .retrieve 3, .append [5]] ≠ [] ∧
      ∀ m ∈ (make 4).runMoves [.append [1, 2, 3, 4], .retrieve 3, .append [5]], m.Apart := by
  refine ⟨by decide, (memcpy_apart_iff _ (by decide)).mpr ?_⟩
  exact ⟨Or.inl (by decide), trivial, Or.inr (by decide), trivial⟩

/-- A full buffer that less than half was retrieved from has no room for as much again. -/
theorem refill_overlaps {s t : List Byte} {k : ℕ} (hs : s.length = N) (ht : t.length = k)
    (hk : 0 < k) (hhalf : k + k < N) :
    (fifo N).LegalRun (make N) [.append s, .retrieve k, .append t] ∧
      ¬ ∀ m ∈ (make N).runMoves [.append s, .retrieve k, .append t], m.Apart := by
  have hvec : (make N).vec.length = N := List.length_replicate
  have hroom : s.length ≤ (make N).writableBytes := by
    simp only [writableBytes, hvec]
    exact Nat.le_of_eq hs
  obtain ⟨vec, happend, hlen⟩ := append_of_room (wf_make N) hroom
  have h1 : (make N).step (.append s) = some ([], ⟨vec, 0, 0 + s.length⟩) := by
    simp only [step, happend, Option.map_some]
    rfl
  have hready : k ≤ (⟨vec, 0, 0 + s.length⟩ : Buffer N).readableBytes := by
    simp only [readableBytes]
    omega
  have h2 : (⟨vec, 0, 0 + s.length⟩ : Buffer N).step (.retrieve k) =
      some ((⟨vec, 0, 0 + s.length⟩ : Buffer N).readable.take k, ⟨vec, 0 + k, 0 + s.length⟩) := by
    simp only [step, retrieve, if_pos hready, if_neg (show ¬ 0 + s.length < 0 + k by omega),
      Option.map_some]
  have hlegal : (fifo N).LegalRun (make N) [.append s, .retrieve k, .append t] := by
    refine ⟨trivial, ?_⟩
    rw [show (fifo N).step (make N) (.append s) = _ from h1]
    refine ⟨hready, ?_⟩
    rw [show (fifo N).step ⟨vec, 0, 0 + s.length⟩ (.retrieve k) = _ from h2]
    refine ⟨trivial, ?_⟩
    split <;> trivial
  refine ⟨hlegal, ?_⟩
  rw [runMoves_apart _ (wf_make N) hlegal]
  simp only [ApartRun, h1, h2]
  rintro ⟨-, -, hor, -⟩
  simp only [Op.Apart, writableBytes, readableBytes, discardableBytes] at hor
  omega

/-- The beginning of `BufferTest.Basic`: 924 bytes are moved to the front from offset 100. -/
theorem basic_test_overlaps : let basic : List Op :=
      [.append (List.replicate 1024 32), .retrieve 100, .append (List.replicate 100 32)]
    (fifo 1024).LegalRun (make 1024) basic ∧ ¬ ∀ m ∈ (make 1024).runMoves basic, m.Apart :=
  refill_overlaps List.length_replicate List.length_replicate (by decide) (by decide)

end Buffer

end Dagger
