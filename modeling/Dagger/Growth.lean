import Dagger.Compaction

/-! # The growth of the vector

The vector never shrinks, and it doubles when neither the writable nor the discarded part alone
can take a request.  Each of the two parts is then shorter than the request, so the vector is
less than twice as long as what is pending: the readable bytes and the bytes requested.

`Reservation` records what was pending when room was made, and the size afterwards; a call of
`readFromSocket` makes one for each of its reads.  `totalSize_le` bounds the size at each
reservation, and after the run, by `N` and by four times the greatest of the pending counts so
far.  It asks nothing of the callers or of the kernel. -/

namespace Dagger.Buffer

variable {N : ℕ} {b b' : Buffer N} {len maxBytes K : ℕ}

/-! ### Reservations -/

structure Reservation where
  pending : ℕ
  size : ℕ
deriving DecidableEq, Repr

/-- The reservation for `len` bytes. -/
def reserve (b : Buffer N) (len : ℕ) : List Reservation :=
  match b.makeRoom len with
  | some b' => [⟨b.readableBytes + len, b'.totalSize⟩]
  | none => []

/-- The reservations of one call of `readFromSocket`. -/
def readReservations : List ReadResult → ℕ → Buffer N → List Reservation
  | script, maxBytes, b => b.reserve maxBytes ++
      match script with
      | .data bs :: script =>
          if bs.length = maxBytes then
            match (b.makeRoom maxBytes).bind fun b => b.fill bs with
            | some b => readReservations script (maxBytes * 2) b
            | none => []
          else []
      | _ => []

def Op.reservations (b : Buffer N) : Op → List Reservation
  | .append s => b.reserve s.length
  | .readFromSocket maxBytes script => b.readReservations script maxBytes
  | _ => []

def runReservations : Buffer N → List Op → List Reservation
  | _, [] => []
  | b, o :: os => o.reservations b ++ match b.step o with
      | none => []
      | some (_, b') => runReservations b' os

/-- The greatest of `K` and what was pending at the reservations. -/
def greatest (K : ℕ) (rs : List Reservation) : ℕ := (rs.map Reservation.pending).foldl max K

@[simp] theorem greatest_nil (K : ℕ) : greatest K [] = K := rfl

@[simp] theorem greatest_cons (K : ℕ) (r : Reservation) (rs : List Reservation) :
    greatest K (r :: rs) = greatest (max K r.pending) rs := rfl

@[simp] theorem greatest_append (K : ℕ) (rs rs' : List Reservation) :
    greatest K (rs ++ rs') = greatest (greatest K rs) rs' := by
  unfold greatest
  rw [List.map_append, List.foldl_append]

/-! ### The bound -/

/-- `K` is the greatest pending count so far. -/
structure Linear (K : ℕ) (b : Buffer N) : Prop where
  write_le : b.writeIndex ≤ b.vec.length
  size_le : b.vec.length ≤ max N (4 * K)

/-- Each reservation keeps to the bound, with the greatest pending count up to it. -/
def AllLinear (N : ℕ) : ℕ → List Reservation → Prop
  | _, [] => True
  | K, r :: rs => r.size ≤ max N (4 * max K r.pending) ∧ AllLinear N (max K r.pending) rs

theorem linear_make (N K : ℕ) : (make N).Linear K := by
  have hlen : (make N).vec.length = N := List.length_replicate
  exact ⟨Nat.zero_le _, by omega⟩

theorem Linear.mono (h : b.Linear K) {K' : ℕ} (hK : K ≤ K') : b.Linear K' := by
  have hsize := h.size_le
  exact ⟨h.write_le, by omega⟩

theorem allLinear_append : ∀ (rs rs' : List Reservation) (K : ℕ),
    AllLinear N K (rs ++ rs') ↔ AllLinear N K rs ∧ AllLinear N (greatest K rs) rs'
  | [], _, _ => (and_iff_right trivial).symm
  | r :: rs, rs', K => by
      simp only [List.cons_append, AllLinear, greatest_cons, allLinear_append rs rs', and_assoc]

theorem AllLinear.get : ∀ {rs : List Reservation} {K : ℕ}, AllLinear N K rs →
    ∀ (i : ℕ) (hi : i < rs.length),
      (rs.get ⟨i, hi⟩).size ≤ max N (4 * greatest K (rs.take (i + 1)))
  | r :: _, K, h, 0, _ => by
      simpa using h.1
  | r :: rs, K, h, i + 1, hi => by
      have hrest := AllLinear.get h.2 i (Nat.lt_of_succ_lt_succ hi)
      simpa using hrest

/-- The argument: where the vector has to grow, each of its parts but the readable one is shorter
than the request. -/
theorem sizeFor_le (h : b.Linear K) (hroom : b.writableBytes < len) :
    b.sizeFor len ≤ max N (4 * max K (b.readableBytes + len)) := by
  have hwrite := h.write_le
  have hsize := h.size_le
  unfold sizeFor
  by_cases hd : len ≤ b.discardableBytes
  · rw [if_pos hd]
    omega
  · rw [if_neg hd]
    have htwice : b.vec.length < b.readableBytes + 2 * len := by
      simp only [writableBytes, discardableBytes, readableBytes] at hroom hd ⊢
      omega
    omega

/-- Making room keeps the bound. -/
theorem Linear.makeRoom (h : b.Linear K) (hb : b.makeRoom len = some b') :
    b'.Linear (max K (b.readableBytes + len)) := by
  by_cases hroom : b.writableBytes < len
  · obtain ⟨-, hwrite, hvec⟩ := makeRoom_indices hroom hb
    refine ⟨?_, ?_⟩
    · have hle := h.write_le
      have hgrow : b.vec.length ≤ b.sizeFor len := by
        unfold sizeFor
        split_ifs <;> omega
      simp only [readableBytes] at hwrite
      omega
    · rw [hvec]
      exact sizeFor_le h hroom
  · have hsame : b.makeRoom len = some b := by
      unfold Buffer.makeRoom
      exact if_neg hroom
    rw [hsame] at hb
    obtain rfl := Option.some.inj hb
    exact h.mono (Nat.le_max_left _ _)

theorem Linear.fill {s : List Byte} (h : b.Linear K) (hb : b.fill s = some b') :
    b'.Linear K := by
  obtain ⟨-, hwrite, hvec⟩ := fill_indices hb
  have hsize := h.size_le
  have hfits : b.writeIndex + s.length ≤ b.vec.length := by
    unfold Buffer.fill memcpy at hb
    by_contra hlong
    rw [if_neg hlong] at hb
    exact Option.some_ne_none b' hb.symm
  exact ⟨by omega, by omega⟩

/-- The operations that move only `readIndex_`. -/
theorem Linear.advance (h : b.Linear K) (i : ℕ) : ({ b with readIndex := i } : Buffer N).Linear K :=
  ⟨h.write_le, h.size_le⟩

theorem reserve_of_makeRoom (hb : b.makeRoom len = some b') :
    b.reserve len = [⟨b.readableBytes + len, b'.totalSize⟩] := by
  unfold reserve
  rw [hb]

theorem Linear.reserve (h : b.Linear K) (len : ℕ) : AllLinear N K (b.reserve len) := by
  cases hb : b.makeRoom len with
  | none =>
      unfold Buffer.reserve
      rw [hb]
      trivial
  | some b' =>
      rw [reserve_of_makeRoom hb]
      exact ⟨(h.makeRoom hb).size_le, trivial⟩

/-! ### Runs -/

/-- Along the reads of one call, by induction on what they return. -/
theorem Linear.readReservations : ∀ (script : List ReadResult) (maxBytes : ℕ) {K : ℕ}
    {b : Buffer N}, b.Linear K → AllLinear N K (b.readReservations script maxBytes)
  | [], maxBytes, _, _, h => by
      unfold Buffer.readReservations
      rw [List.append_nil]
      exact h.reserve maxBytes
  | .error _ :: _, maxBytes, _, _, h => by
      unfold Buffer.readReservations
      rw [List.append_nil]
      exact h.reserve maxBytes
  | .data bs :: script, maxBytes, K, b, h => by
      unfold Buffer.readReservations
      rw [allLinear_append]
      refine ⟨h.reserve maxBytes, ?_⟩
      simp only
      split_ifs with hfull
      · cases hb2 : (b.makeRoom maxBytes).bind fun b => b.fill bs with
        | none => trivial
        | some b2 =>
            obtain ⟨b1, hb1, hfill⟩ := Option.bind_eq_some_iff.mp hb2
            rw [reserve_of_makeRoom hb1]
            exact Linear.readReservations script (maxBytes * 2) ((h.makeRoom hb1).fill hfill)
      · trivial

theorem Linear.readFromSocket : ∀ (script : List ReadResult) (maxBytes : ℕ) {K : ℕ}
    {b b' : Buffer N} {n : ℤ}, b.Linear K → b.readFromSocket script maxBytes = some (b', n) →
    b'.Linear (greatest K (b.readReservations script maxBytes)) := by
  intro script
  induction script with
  | nil =>
      intro maxBytes K b b' n h hb
      unfold Buffer.readFromSocket at hb
      obtain ⟨b1, hb1, hb⟩ := Option.bind_eq_some_iff.mp hb
      unfold Buffer.readReservations
      rw [reserve_of_makeRoom hb1]
      split_ifs at hb
      obtain ⟨rfl, -⟩ := Prod.mk.inj (Option.some.inj hb)
      exact h.makeRoom hb1
  | cons r script ih =>
      intro maxBytes K b b' n h hb
      unfold Buffer.readFromSocket at hb
      obtain ⟨b1, hb1, hb⟩ := Option.bind_eq_some_iff.mp hb
      unfold Buffer.readReservations
      rw [reserve_of_makeRoom hb1]
      split_ifs at hb
      cases r with
      | error e =>
          obtain ⟨rfl, -⟩ := Prod.mk.inj (Option.some.inj hb)
          exact h.makeRoom hb1
      | data bs =>
          obtain ⟨b2, hb2, hb⟩ := Option.bind_eq_some_iff.mp hb
          have hlin := (h.makeRoom hb1).fill hb2
          by_cases hfull : bs.length = maxBytes
          · rw [if_pos hfull] at hb
            obtain ⟨⟨b3, n3⟩, hb3, hb⟩ := Option.bind_eq_some_iff.mp hb
            obtain ⟨rfl, -⟩ := Prod.mk.inj (Option.some.inj hb)
            have hbind : ((b.makeRoom maxBytes).bind fun b => b.fill bs) = some b2 := by
              rw [hb1]
              exact hb2
            simp only [if_pos hfull, hbind]
            exact ih (maxBytes * 2) hlin hb3
          · rw [if_neg hfull] at hb
            obtain ⟨rfl, -⟩ := Prod.mk.inj (Option.some.inj hb)
            simp only [if_neg hfull]
            exact hlin

/-- One operation. -/
theorem Linear.step {o : Op} {out : List Byte} (h : b.Linear K) (hb : b.step o = some (out, b')) :
    b'.Linear (greatest K (o.reservations b)) := by
  cases o with
  | append s =>
      obtain ⟨b2, happend, heq⟩ := Option.map_eq_some_iff.mp hb
      obtain ⟨-, rfl⟩ := Prod.mk.inj heq
      unfold Buffer.append at happend
      obtain ⟨b1, hb1, happend⟩ := Option.bind_eq_some_iff.mp happend
      obtain ⟨b3, hfill, happend⟩ := Option.bind_eq_some_iff.mp happend
      split_ifs at happend
      obtain rfl := Option.some.inj happend
      simp only [Op.reservations, reserve_of_makeRoom hb1]
      exact (h.makeRoom hb1).fill hfill
  | retrieve len =>
      obtain ⟨r, hr, heq⟩ := Option.map_eq_some_iff.mp hb
      obtain ⟨-, rfl⟩ := Prod.mk.inj heq
      unfold Buffer.retrieve at hr
      split_ifs at hr
      · rw [← Option.some.inj hr]
        exact h
      · rw [← Option.some.inj hr]
        exact h.advance _
  | retrieveAll =>
      obtain ⟨r, hr, heq⟩ := Option.map_eq_some_iff.mp hb
      obtain ⟨-, rfl⟩ := Prod.mk.inj heq
      unfold Buffer.retrieveAll Buffer.retrieve at hr
      split_ifs at hr
      · rw [← Option.some.inj hr]
        exact h
      · rw [← Option.some.inj hr]
        exact h.advance _
  | readFromSocket maxBytes script =>
      obtain ⟨⟨b2, n⟩, hread, heq⟩ := Option.map_eq_some_iff.mp hb
      obtain ⟨-, rfl⟩ := Prod.mk.inj heq
      exact Linear.readFromSocket script maxBytes h hread
  | writeToSocket maxBytes n =>
      obtain ⟨r, hr, heq⟩ := Option.map_eq_some_iff.mp hb
      obtain ⟨-, rfl⟩ := Prod.mk.inj heq
      unfold Buffer.writeToSocket at hr
      split_ifs at hr
      rw [← Option.some.inj hr]
      exact h.advance _

theorem Linear.reservations (h : b.Linear K) (o : Op) : AllLinear N K (o.reservations b) := by
  cases o with
  | append s => exact h.reserve s.length
  | readFromSocket maxBytes script => exact Linear.readReservations script maxBytes h
  | retrieve _ => trivial
  | retrieveAll => trivial
  | writeToSocket _ _ => trivial

theorem Linear.runReservations : ∀ (os : List Op) {K : ℕ} {b : Buffer N}, b.Linear K →
    AllLinear N K (b.runReservations os)
  | [], _, _, _ => trivial
  | o :: os, K, b, h => by
      unfold Buffer.runReservations
      rw [allLinear_append]
      refine ⟨h.reservations o, ?_⟩
      cases hs : b.step o with
      | none => trivial
      | some r => exact Linear.runReservations os (h.step hs)

theorem Linear.run : ∀ (os : List Op) {K : ℕ} {b b' : Buffer N} {out : List Byte}, b.Linear K →
    (fifo N).run b os = some (out, b') → b'.Linear (greatest K (b.runReservations os))
  | [], _, _, _, _, h, hrun => by
      obtain ⟨-, rfl⟩ := Prod.mk.inj (Option.some.inj hrun)
      exact h
  | o :: os, K, b, b', out, h, hrun => by
      unfold Fifo.Impl.run at hrun
      obtain ⟨⟨out1, b1⟩, hs, hrun⟩ := Option.bind_eq_some_iff.mp hrun
      obtain ⟨⟨rest, b2⟩, hrest, heq⟩ := Option.bind_eq_some_iff.mp hrun
      obtain ⟨-, rfl⟩ := Prod.mk.inj (Option.some.inj heq)
      have hs' : b.step o = some (out1, b1) := hs
      unfold Buffer.runReservations
      rw [hs', greatest_append]
      exact Linear.run os (h.step hs') hrest

/-- **Growth is linear** in what is pending: at each reservation of a run, and after the run, the
vector is at most as long as `N` or as four times the greatest pending count so far. -/
theorem totalSize_le (N : ℕ) (os : List Op) :
    (∀ i (hi : i < ((make N).runReservations os).length),
      (((make N).runReservations os).get ⟨i, hi⟩).size ≤
        max N (4 * greatest 0 (((make N).runReservations os).take (i + 1)))) ∧
    ∀ out b, (fifo N).run (make N) os = some (out, b) →
      b.totalSize ≤ max N (4 * greatest 0 ((make N).runReservations os)) := by
  refine ⟨fun i hi => AllLinear.get (Linear.runReservations os (linear_make N 0)) i hi, ?_⟩
  intro out b hrun
  exact (Linear.run os (linear_make N 0) hrun).size_le

/-- An append and two reads, each of which has to grow the vector. -/
theorem totalSize_le_grown : let os : List Op :=
      [.append [1, 2, 3], .readFromSocket 2 [.data [4, 5], .data [6]]]
    (make 2).runReservations os = [⟨3, 4⟩, ⟨5, 8⟩, ⟨9, 16⟩] ∧ (8 ≤ max 2 (4 * 5)) ∧
      ∃ out b, (fifo 2).run (make 2) os = some (out, b) ∧ b.totalSize ≤ max 2 (4 * 9) := by
  intro os
  refine ⟨by decide, (totalSize_le 2 os).1 1 (by decide), [], _, rfl, ?_⟩
  exact (totalSize_le 2 os).2 [] _ rfl

end Dagger.Buffer
