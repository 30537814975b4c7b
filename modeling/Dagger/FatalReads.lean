import Dagger.BufferSpec

/-! # Fatal reads

By its comment, the value `readFromSocket` returns only tells whether something went wrong: it
is positive when nothing did.  A read that fills its request is followed by a recursive call,
and what that call returns is dropped, so an error met there goes unreported. -/

namespace Dagger

/-- `::read` failed with an `errno` other than `EINTR` and `EWOULDBLOCK`. -/
def ReadResult.Fatal : ReadResult → Prop
  | data _ => False
  | error e => e ≠ .EINTR ∧ e ≠ .EAGAIN

namespace Buffer

/-- The results that the `::read` calls of one `readFromSocket` meet, recursive calls
included. -/
def readsMet : ℕ → List ReadResult → List ReadResult
  | maxBytes, .data bs :: script =>
      .data bs :: if bs.length = maxBytes then readsMet (maxBytes * 2) script else []
  | _, .error e :: _ => [.error e]
  | _, [] => [.error .EAGAIN]

/-- A call looks at no other results. -/
theorem readFromSocket_readsMet {N : ℕ} : ∀ (script : List ReadResult) (maxBytes : ℕ)
    (b : Buffer N),
    b.readFromSocket (readsMet maxBytes script) maxBytes = b.readFromSocket script maxBytes
  | [], maxBytes, b => by
      rw [readsMet, readFromSocket, readFromSocket]
  | .error e :: script, maxBytes, b => by
      rw [readsMet, readFromSocket, readFromSocket]
  | .data bs :: script, maxBytes, b => by
      rw [readsMet, readFromSocket, readFromSocket]
      by_cases hfull : bs.length = maxBytes
      · simp only [if_pos hfull, readFromSocket_readsMet script]
      · simp only [if_neg hfull]

/-- A positive value of an error says that the error is not fatal. -/
theorem not_fatal_of_readError {e : Errno} (h : 0 < readError e) :
    ¬ (ReadResult.error e).Fatal := by
  intro ⟨hintr, hagain⟩
  cases e with
  | EINTR => exact hintr rfl
  | EAGAIN => exact hagain rfl
  | EPROTO | ECONNABORTED | other code => exact absurd h (by simp [readError])

/-- The first read is the only one the value is about. -/
theorem not_fatal_of_readReturn {maxBytes : ℕ} {script : List ReadResult}
    (h : 0 < readReturn script) :
    (∀ r ∈ readsMet maxBytes script, ¬ r.Fatal) ↔
      ∀ r ∈ (readsMet maxBytes script).tail, ¬ r.Fatal := by
  match script with
  | [] => simp [readsMet, ReadResult.Fatal]
  | .error e :: script =>
      have hfatal := not_fatal_of_readError (e := e) h
      simp [readsMet, hfatal]
  | .data bs :: script => simp [readsMet, ReadResult.Fatal]

/-- Only a first read that delivered bytes is followed by others. -/
theorem readReturn_pos_of_tail {maxBytes : ℕ} {script : List ReadResult} (hmax : 0 < maxBytes)
    {r : ReadResult} (hr : r ∈ (readsMet maxBytes script).tail) : 0 < readReturn script := by
  match script with
  | [] => simp [readsMet] at hr
  | .error e :: script => simp [readsMet] at hr
  | .data bs :: script =>
      by_cases hfull : bs.length = maxBytes
      · simp only [readReturn]
        omega
      · simp [readsMet, hfull] at hr

end Buffer

namespace ValidBuffer

open Buffer

variable {N : ℕ} {b : ValidBuffer N}

/-- The call returns, and a positive value says that no read failed. -/
def ReportsFatal (b : ValidBuffer N) (maxBytes : ℕ) (script : List ReadResult) : Prop :=
  ∃ b' n, b.readFromSocket script maxBytes = some (b', n) ∧
    (0 < n → ∀ r ∈ readsMet maxBytes script, ¬ r.Fatal)

theorem reportsFatal_iff_readReturn {maxBytes : ℕ} {script : List ReadResult}
    (h : Deliverable maxBytes script) :
    b.ReportsFatal maxBytes script ↔
      (0 < readReturn script → ∀ r ∈ readsMet maxBytes script, ¬ r.Fatal) := by
  obtain ⟨b', hb', -⟩ := readFromSocket_of_deliverable (b := b) h
  constructor
  · rintro ⟨b₁, n, hb₁, hn⟩
    obtain ⟨-, rfl⟩ := Prod.mk.inj (Option.some.inj (hb'.symm.trans hb₁))
    exact hn
  · exact fun hn => ⟨b', _, hb', hn⟩

/-- **Fatal errors are reported** exactly when none is met by a recursive call. -/
theorem reportsFatal_iff {maxBytes : ℕ} {script : List ReadResult}
    (h : Deliverable maxBytes script) :
    b.ReportsFatal maxBytes script ↔
      maxBytes = 0 ∨ ∀ r ∈ (readsMet maxBytes script).tail, ¬ r.Fatal := by
  rw [reportsFatal_iff_readReturn h]
  constructor
  · intro hreports
    rcases Nat.eq_zero_or_pos maxBytes with hzero | hmax
    · exact Or.inl hzero
    · refine Or.inr fun r hr => ?_
      have hpos := readReturn_pos_of_tail hmax hr
      exact (not_fatal_of_readReturn hpos).mp (hreports hpos) r hr
  · rintro (rfl | htail) hpos
    · -- a request for no bytes: nothing positive follows a read of length 0
      refine (not_fatal_of_readReturn hpos).mpr fun r hr => ?_
      match script, h with
      | [], _ => simp [readsMet] at hr
      | .error e :: script, _ => simp [readsMet] at hr
      | .data bs :: script, ⟨hlen, _⟩ =>
          simp only [readReturn] at hpos
          omega
    · exact (not_fatal_of_readReturn hpos).mpr htail

/-- A full read, and a recursive call that finds nothing. -/
theorem reportsFatal_iff_fullRead :
    (make 8192).ReportsFatal 4096 [.data (List.replicate 4096 7), .error .EAGAIN] := by
  have hfull : (List.replicate 4096 (7 : Byte)).length = 4096 := List.length_replicate
  have hd : Deliverable 4096 [.data (List.replicate 4096 7), .error .EAGAIN] :=
    ⟨hfull.le, fun _ => trivial⟩
  refine (reportsFatal_iff hd).mpr (Or.inr ?_)
  rw [readsMet, if_pos hfull]
  intro r hr
  obtain rfl : r = .error .EAGAIN := List.mem_singleton.mp hr
  exact fun hfatal => hfatal.2 rfl

/-- A full read, and a recursive call that finds the connection reset (`ECONNRESET`): the value
is 4096. -/
theorem reset_unreported :
    ¬ (make 8192).ReportsFatal 4096 [.data (List.replicate 4096 7), .error (.other 104)] ∧
    ∃ b, (make 8192).readFromSocket [.data (List.replicate 4096 7), .error (.other 104)] 4096 =
      some (b, 4096) := by
  have hfull : (List.replicate 4096 (7 : Byte)).length = 4096 := List.length_replicate
  obtain ⟨b, hb, -⟩ := @readFromSocket_of_deliverable _ (make 8192)
    [.data (List.replicate 4096 7), .error (.other 104)] 4096 ⟨hfull.le, fun _ => trivial⟩
  rw [readReturn, hfull] at hb
  refine ⟨?_, b, hb⟩
  rintro ⟨b₁, n, hb₁, hn⟩
  obtain ⟨-, rfl⟩ := Prod.mk.inj (Option.some.inj (hb.symm.trans hb₁))
  refine hn (by decide) (.error (.other 104)) ?_ ⟨by decide, by decide⟩
  rw [readsMet, if_pos hfull]
  exact List.mem_cons_of_mem _ List.mem_cons_self

end ValidBuffer

end Dagger
