import Mathlib.Data.List.Forall2
import Dagger.LogBuffers

/-! # The bound on the log buffers

`log` computes the room in `currentBuffer_` in `size_t`.  For a buffer that already holds more
than `BUFFER_SIZE` bytes, which a single long message may fill, the difference wraps around: the
next message finds room and is appended.  Only a collection in between keeps the two apart.

`Parts` follows the messages of which the buffers consist, as a history beside the logger
(`parted`).  `bounded_iff` says that the bound is kept as long as every `log` meets `Fits`, and
is broken by the first one that does not. -/

namespace Dagger

/-- The messages of `currentBuffer_` and those of the buffers in `buffers_`. -/
structure Parts where
  current : List (List Byte) := []
  buffers : List (List (List Byte)) := []

namespace Logger

open Transition

variable {ι : Type} {s t : Logger ι} {g : Parts} {msg buf : List Byte}

/-! ### The messages of the buffers -/

/-- `currentBuffer_`, if there is one, joins `buffers_`. -/
def pushParts (s : Logger ι) (g : Parts) : Parts :=
  ⟨[], g.buffers ++ s.currentBuffer.toList.map fun _ => g.current⟩

def storeParts (s : Logger ι) (msg : List Byte) (g : Parts) : Parts :=
  if s.Insufficient msg then { s.pushParts g with current := [msg] }
  else { g with current := g.current ++ [msg] }

def nextParts (s : Logger ι) (g : Parts) : Act ι → Parts
  | .store i =>
      match s.callers i with
      | .logging msg => s.storeParts msg g
      | _ => g
  | .back _ _ =>
      match s.back with
      | .collect => s.pushParts g
      | .swap => { g with buffers := [] }
      | .drainCollect => s.pushParts g
      | _ => g
  | _ => g

/-- The runs of the logger together with the messages of its buffers. -/
def parted (ι : Type) [DecidableEq ι] : System (Logger ι × Parts) (Act ι) where
  Init p := (system ι).Init p.1 ∧ p.2 = {}
  Step p a q := (system ι).Step p.1 a q.1 ∧ q.2 = p.1.nextParts p.2 a

/-- At most `BUFFER_SIZE` bytes, or one message that is longer. -/
def Within (msgs : List (List Byte)) : Prop :=
  msgs.flatten.length ≤ BUFFER_SIZE ∨ ∃ msg, msgs = [msg] ∧ BUFFER_SIZE < msg.length

/-- The buffer consists of these messages, and is within the bound. -/
def BoundedBuffer (ptr : Ptr) (msgs : List (List Byte)) : Prop :=
  ptr = some msgs.flatten ∧ Within msgs

/-- All buffers in `buffers_` and `currentBuffer_` are within the bound. -/
def Bounded (s : Logger ι) (g : Parts) : Prop :=
  List.Forall₂ BoundedBuffer s.buffers g.buffers ∧
    ∀ buf, s.currentBuffer = some buf → BoundedBuffer (some buf) g.current

/-- The buffer in use holds at most `BUFFER_SIZE` bytes, or is replaced. -/
def Fits (s : Logger ι) (msg : List Byte) : Prop :=
  (∀ buf, s.currentBuffer = some buf → buf.length ≤ BUFFER_SIZE) ∨ s.Insufficient msg

/-- The condition on a `log` that stores its message. -/
def StoreFits (p : Logger ι × Parts) : Act ι → Prop
  | .store i => ∀ msg, p.1.callers i = .logging msg → p.1.Fits msg
  | _ => True

/-! ### The buffers consist of their messages -/

structure Tracks (s : Logger ι) (g : Parts) : Prop where
  buffers : List.Forall₂ (fun ptr msgs => ptr = some msgs.flatten) s.buffers g.buffers
  current : ∀ buf, s.currentBuffer = some buf → buf = g.current.flatten

theorem Tracks.pushed (h : s.Tracks g) :
    List.Forall₂ (fun ptr msgs => ptr = some msgs.flatten)
      (s.buffers ++ s.currentBuffer.toList.map some) (s.pushParts g).buffers := by
  refine List.rel_append h.buffers ?_
  cases hc : s.currentBuffer with
  | none => exact .nil
  | some buf => exact .cons (congrArg some (h.current buf hc)) .nil

theorem storeMsg_of_sufficient (hi : ¬ s.Insufficient msg) (hc : s.currentBuffer = some buf) :
    s.storeMsg msg =
      some { s with currentBuffer := some (buf ++ msg), logged := s.logged ++ [msg] } := by
  unfold storeMsg
  simp only [if_neg hi, hc, Option.map_some]

/-- The buffer taken is empty. -/
theorem storeMsg_of_insufficient (hf : s.Filled) (hi : s.Insufficient msg) :
    s.storeMsg msg = some { s with
      buffers := s.buffers ++ s.currentBuffer.toList.map some
      currentBuffer := some msg
      emptys := s.emptys.dropLast
      logged := s.logged ++ [msg] } := by
  have hnil : s.emptys.getLast?.getD (some []) = some [] := by
    cases he : s.emptys.getLast? with
    | none => rfl
    | some ptr => exact hf.emptys ptr (List.mem_of_getLast? he)
  unfold storeMsg
  simp only [if_pos hi, pushCurrent_eq, takeEmpty_eq, hnil, Option.map_some, List.nil_append]

theorem exists_current (hi : ¬ s.Insufficient msg) : ∃ buf, s.currentBuffer = some buf := by
  cases hc : s.currentBuffer with
  | none =>
      unfold Insufficient at hi
      rw [hc] at hi
      exact absurd trivial hi
  | some buf => exact ⟨buf, rfl⟩

theorem Tracks.storeMsg (hf : s.Filled) (h : s.Tracks g) (hs : s.storeMsg msg = some t) :
    t.Tracks (s.storeParts msg g) := by
  unfold storeParts
  by_cases hi : s.Insufficient msg
  · rw [storeMsg_of_insufficient hf hi] at hs
    obtain rfl := Option.some.inj hs
    rw [if_pos hi]
    refine ⟨h.pushed, fun buf hbuf => ?_⟩
    rw [← Option.some.inj hbuf]
    simp
  · obtain ⟨buf, hc⟩ := exists_current hi
    rw [storeMsg_of_sufficient hi hc] at hs
    obtain rfl := Option.some.inj hs
    rw [if_neg hi]
    refine ⟨h.buffers, fun buf' hbuf => ?_⟩
    rw [← Option.some.inj hbuf, h.current buf hc]
    simp

variable [DecidableEq ι]

theorem tracks_back (hf : s.Filled) (h : s.Tracks g) {r : WriteResult} {waiter : Option ι}
    (hs : s.backThread r waiter = some t) : t.Tracks (s.nextParts g (.back r waiter)) := by
  unfold nextParts
  cases back_cases hs with
  | collect hb =>
      simp only [hb]
      exact ⟨h.pushed, nofun⟩
  | swap hb =>
      have hfull := hf.collected_of hb nofun nofun
      simp only [hb, hfull]
      exact ⟨.nil, h.current⟩
  | drainCollect hb =>
      simp only [hb]
      exact ⟨h.pushed, nofun⟩
  | enter hb hr | leave hb hr | lock hb | wait hb | pass hb | waken hb | refill hb | write hb
  | written hb | drainLock hb | drainWrite hb | drained hb | drainRelock hb | notify hb
  | notifyOne hb | finished hb =>
      simp only [hb]
      exact ⟨h.buffers, h.current⟩

theorem tracks_step {p q : Logger ι × Parts} {a : Act ι} (hf : p.1.Filled) (h : p.1.Tracks p.2)
    (hs : (parted ι).Step p a q) : q.1.Tracks q.2 := by
  obtain ⟨⟨hl, hn⟩, hq⟩ := hs
  rw [hq]
  cases a with
  | store i =>
      obtain ⟨⟨msg, hi⟩, -⟩ := hl
      obtain ⟨u, hu, hqu⟩ := store_cases hi hn
      have hu := h.storeMsg hf hu
      rw [hqu]
      unfold nextParts
      simp only [hi]
      exact ⟨hu.buffers, hu.current⟩
  | back r waiter => exact tracks_back hf h hn
  | log i level logline buf tv_usec =>
      obtain hsame | ⟨msg, hset⟩ := log_cases hn
      · rw [hsame]
        exact h
      · rw [hset]
        exact ⟨h.buffers, h.current⟩
  | _ =>
      rw [← Option.some.inj hn]
      exact ⟨h.buffers, h.current⟩

theorem reachable_of_parted {p : Logger ι × Parts} (h : Reachable (parted ι) p) :
    Reachable (system ι) p.1 := by
  induction h with
  | init hi => exact .init hi.1
  | step _ hs ih => exact .step ih hs.1

/-- Every run of the logger has its history of messages. -/
theorem exists_parts (h : Reachable (system ι) s) : ∃ g, Reachable (parted ι) (s, g) := by
  induction h with
  | init hi => exact ⟨{}, .init ⟨hi, rfl⟩⟩
  | step _ hs ih =>
      obtain ⟨g, hg⟩ := ih
      exact ⟨_, .step hg ⟨hs, rfl⟩⟩

theorem tracks_of_reachable {p : Logger ι × Parts} (h : Reachable (parted ι) p) :
    p.1.Tracks p.2 := by
  refine h.invariant_of (J := fun p => p.1.Filled)
    (fun p hp => filled_of_reachable (reachable_of_parted hp)) ?_ (fun _ _ _ => tracks_step)
  rintro ⟨s, g⟩ ⟨rfl, rfl⟩
  exact ⟨.nil, fun buf hbuf => (Option.some.inj hbuf).symm⟩

/-! ### The bound -/

omit [DecidableEq ι] in
/-- Below `BUFFER_SIZE` the difference does not wrap around. -/
theorem le_of_sufficient (hi : ¬ s.Insufficient msg) (hc : s.currentBuffer = some buf)
    (hlen : buf.length ≤ BUFFER_SIZE) : (buf ++ msg).length ≤ BUFFER_SIZE := by
  unfold Insufficient at hi
  rw [hc] at hi
  have hroom : (BUFFER_SIZE + (SIZE_MAX + 1) - buf.length) % (SIZE_MAX + 1) =
      BUFFER_SIZE - buf.length := by
    have hsplit : BUFFER_SIZE + (SIZE_MAX + 1) - buf.length =
        BUFFER_SIZE - buf.length + (SIZE_MAX + 1) := by omega
    have hsmall : BUFFER_SIZE - buf.length < SIZE_MAX + 1 := by
      unfold BUFFER_SIZE SIZE_MAX
      omega
    rw [hsplit, Nat.add_mod_right, Nat.mod_eq_of_lt hsmall]
  simp only [hroom] at hi
  rw [List.length_append]
  omega

theorem within_nil : Within [] := Or.inl (Nat.zero_le _)

theorem within_singleton (msg : List Byte) : Within [msg] := by
  by_cases hlen : msg.length ≤ BUFFER_SIZE
  · refine Or.inl ?_
    rw [List.flatten_singleton]
    exact hlen
  · exact Or.inr ⟨msg, rfl, Nat.lt_of_not_le hlen⟩

/-- Two messages in a buffer that is too long for them. -/
theorem not_within_append {msgs : List (List Byte)} (hlen : BUFFER_SIZE < msgs.flatten.length) :
    ¬ Within (msgs ++ [msg]) := by
  have hne : msgs ≠ [] := by
    rintro rfl
    exact Nat.not_lt_zero _ hlen
  rintro (hle | ⟨m, hm, -⟩)
  · rw [List.flatten_append, List.length_append] at hle
    omega
  · obtain ⟨m', ms, rfl⟩ := List.exists_cons_of_ne_nil hne
    rw [List.cons_append] at hm
    exact List.append_ne_nil_of_right_ne_nil ms (List.cons_ne_nil msg []) (List.cons.inj hm).2

/-- The bound on the histories. -/
structure PartsWithin (g : Parts) : Prop where
  buffers : ∀ msgs ∈ g.buffers, Within msgs
  current : Within g.current

theorem forall₂_boundedBuffer {ptrs : List Ptr} {msgss : List (List (List Byte))}
    (h : List.Forall₂ (fun ptr msgs => ptr = some msgs.flatten) ptrs msgss)
    (hall : ∀ msgs ∈ msgss, Within msgs) : List.Forall₂ BoundedBuffer ptrs msgss := by
  induction h with
  | nil => exact .nil
  | cons hptr _ ih =>
      refine .cons ⟨hptr, hall _ List.mem_cons_self⟩ (ih fun msgs hin => ?_)
      exact hall msgs (List.mem_cons_of_mem _ hin)

omit [DecidableEq ι] in
theorem bounded_of_within (ht : s.Tracks g) (h : PartsWithin g) : s.Bounded g := by
  refine ⟨forall₂_boundedBuffer ht.buffers h.buffers, fun buf hbuf => ?_⟩
  exact ⟨congrArg some (ht.current buf hbuf), h.current⟩

omit [DecidableEq ι] in
theorem PartsWithin.push (h : PartsWithin g) (s : Logger ι) : PartsWithin (s.pushParts g) := by
  refine ⟨fun msgs hin => ?_, within_nil⟩
  rcases List.mem_append.mp hin with hin | hin
  · exact h.buffers msgs hin
  · obtain ⟨-, -, rfl⟩ := List.mem_map.mp hin
    exact h.current

omit [DecidableEq ι] in
theorem PartsWithin.store (ht : s.Tracks g) (h : PartsWithin g) (hfits : s.Fits msg) :
    PartsWithin (s.storeParts msg g) := by
  unfold storeParts
  by_cases hi : s.Insufficient msg
  · rw [if_pos hi]
    exact ⟨(h.push s).buffers, within_singleton msg⟩
  · rw [if_neg hi]
    refine ⟨h.buffers, Or.inl ?_⟩
    obtain ⟨buf, hc⟩ := exists_current hi
    have hle := le_of_sufficient hi hc (hfits.resolve_right hi buf hc)
    rw [ht.current buf hc] at hle
    simpa using hle

theorem partsWithin_step {p q : Logger ι × Parts} {a : Act ι} (ht : p.1.Tracks p.2)
    (h : PartsWithin p.2) (hs : (parted ι).Step p a q) (hfits : StoreFits p a) :
    PartsWithin q.2 := by
  obtain ⟨⟨hl, -⟩, hq⟩ := hs
  rw [hq]
  cases a with
  | store i =>
      obtain ⟨⟨msg, hi⟩, -⟩ := hl
      unfold nextParts
      simp only [hi]
      exact PartsWithin.store ht h (hfits msg hi)
  | back r waiter =>
      unfold nextParts
      simp only
      split
      · exact h.push p.1
      · exact ⟨nofun, h.current⟩
      · exact h.push p.1
      · exact h
  | _ => exact h

theorem partsWithin_of_reachable {p : Logger ι × Parts}
    (h : Reachable ((parted ι).guarded StoreFits) p) : PartsWithin p.2 := by
  refine h.invariant_of (J := fun p => p.1.Tracks p.2)
    (fun p hp => tracks_of_reachable hp.of_guarded) ?_
    (fun p a q ht hi hs => partsWithin_step ht hi hs.1 hs.2)
  rintro ⟨s, g⟩ ⟨-, rfl⟩
  exact ⟨nofun, within_nil⟩

theorem bounded_of_reachable {p : Logger ι × Parts}
    (h : Reachable ((parted ι).guarded StoreFits) p) : p.1.Bounded p.2 :=
  bounded_of_within (tracks_of_reachable h.of_guarded) (partsWithin_of_reachable h)

/-- A message appended to a buffer that is too long. -/
theorem not_bounded_of_not_fits {p q : Logger ι × Parts} {a : Act ι} (ht : p.1.Tracks p.2)
    (hs : (parted ι).Step p a q) (hfits : ¬ StoreFits p a) :
    ¬ q.1.Bounded q.2 := by
  obtain ⟨⟨hl, hn⟩, hq⟩ := hs
  cases a with
  | store i =>
      obtain ⟨⟨msg, hi⟩, -⟩ := hl
      have hmsg : ¬ p.1.Fits msg := by
        intro hfit
        refine hfits fun msg' hi' => ?_
        rw [hi] at hi'
        obtain rfl := CallPhase.logging.inj hi'
        exact hfit
      obtain ⟨hlong, hsuff⟩ := not_or.mp hmsg
      obtain ⟨buf, hc⟩ := exists_current hsuff
      have hlen : BUFFER_SIZE < buf.length := by
        by_contra hle
        refine hlong fun buf' hc' => ?_
        rw [hc] at hc'
        rw [← Option.some.inj hc']
        exact Nat.le_of_not_lt hle
      obtain ⟨u, hu, hqu⟩ := store_cases hi hn
      rw [storeMsg_of_sufficient hsuff hc] at hu
      have hcurrent : q.1.currentBuffer = some (buf ++ msg) := by
        rw [hqu, ← Option.some.inj hu]
        rfl
      have hparts : q.2.current = p.2.current ++ [msg] := by
        rw [hq]
        unfold nextParts storeParts
        simp only [hi, if_neg hsuff]
      rintro ⟨-, hbounded⟩
      obtain ⟨-, hwithin⟩ := hbounded _ hcurrent
      rw [hparts] at hwithin
      rw [ht.current buf hc] at hlen
      exact not_within_append hlen hwithin
  | _ => exact absurd trivial hfits

/-- **The bound** is kept in every run in which each message is stored when `currentBuffer_` holds
at most `BUFFER_SIZE` bytes or is replaced, and is broken by the first that is not. -/
theorem bounded_iff (ι : Type) [DecidableEq ι] :
    (∀ p, Reachable ((parted ι).guarded StoreFits) p → p.1.Bounded p.2) ∧
    ∀ p a q, Reachable ((parted ι).guarded StoreFits) p → (parted ι).Step p a q →
      (q.1.Bounded q.2 ↔ StoreFits p a) := by
  refine ⟨fun p h => bounded_of_reachable h, fun p a q h hs => ⟨fun hb => ?_, fun hfits => ?_⟩⟩
  · by_contra hfits
    exact not_bounded_of_not_fits (tracks_of_reachable h.of_guarded) hs hfits hb
  · exact bounded_of_reachable (.step h ⟨hs, hfits⟩)

/-! ### A long message followed by a short one -/

/-- The formatted message of a call `info` at the beginning of a second. -/
def infoMsg (logline : List Byte) : List Byte := prependMsgForTest logline .INFO [] 0

theorem length_infoMsg (logline : List Byte) : (infoMsg logline).length = 8 + logline.length := by
  have hheader : (chars (toString 0) ++ chars " " ++ chars LogLevel.INFO.str ++ chars "] ").length
      = 8 := by decide
  unfold infoMsg prependMsgForTest
  rw [List.nil_append, List.length_append, hheader]

theorem reachable_log {i : ι} (logline : List Byte)
    (h : Reachable ((parted ι).guarded StoreFits) (s, g)) (hi : s.callers i = .idle)
    (hl : s.level = .INFO) : Reachable ((parted ι).guarded StoreFits)
      (s.setCaller i (.logging (infoMsg logline)), g) := by
  have hn : s.next (.log i .INFO logline [] 0) =
      some (s.setCaller i (.logging (infoMsg logline))) := by
    unfold next
    rw [hl]
    rfl
  exact h.step (a := Act.log i .INFO logline [] 0) ⟨⟨⟨hi, hn⟩, rfl⟩, trivial⟩

theorem reachable_store {i : ι} (h : Reachable ((parted ι).guarded StoreFits) (s, g))
    (hi : s.callers i = .logging msg) (hm : s.mutex = none) (hfits : s.Fits msg)
    (hs : s.storeMsg msg = some t) : Reachable ((parted ι).guarded StoreFits)
      ({ t.setCaller i .logged with mutex := some (.caller i) }, s.storeParts msg g) := by
  have hn : s.next (.store i) =
      some { t.setCaller i .logged with mutex := some (.caller i) } := by
    unfold next
    simp only [hi, hs, Option.map_some]
  have hparts : s.storeParts msg g = s.nextParts g (.store i) := by
    unfold nextParts
    simp only [hi]
  refine h.step (a := Act.store i) ⟨⟨⟨⟨⟨msg, hi⟩, hm⟩, hn⟩, hparts⟩, fun msg' hi' => ?_⟩
  obtain rfl := CallPhase.logging.inj (hi.symm.trans hi')
  exact hfits

theorem reachable_endLog {i : ι} (h : Reachable ((parted ι).guarded StoreFits) (s, g))
    (hi : s.callers i = .logged) : Reachable ((parted ι).guarded StoreFits)
      ({ s.setCaller i .idle with mutex := none }, g) :=
  h.step (a := Act.endLog i) ⟨⟨⟨hi, rfl⟩, rfl⟩, trivial⟩

/-- One thread has logged a long message and comes to the lock with the next one. -/
theorem reachable_longLogged (first second : List Byte)
    (hlong : BUFFER_SIZE < (infoMsg first).length) :
    ∃ p : Logger Unit × Parts, Reachable ((parted Unit).guarded StoreFits) p ∧
      p.1.currentBuffer = some (infoMsg first) ∧ p.1.callers () = .logging (infoMsg second) ∧
      p.1.mutex = none := by
  have h0 : Reachable ((parted Unit).guarded StoreFits) (({} : Logger Unit), ({} : Parts)) :=
    .init ⟨rfl, rfl⟩
  have h1 := reachable_log first h0 (i := ()) rfl rfl
  have hi : (({} : Logger Unit).setCaller () (.logging (infoMsg first))).Insufficient
      (infoMsg first) := by
    have hroom : (BUFFER_SIZE + (SIZE_MAX + 1) - ([] : List Byte).length) % (SIZE_MAX + 1) =
        BUFFER_SIZE := by decide
    unfold Insufficient
    exact Nat.lt_of_le_of_lt (Nat.le_of_eq hroom) hlong
  have hf := filled_of_reachable (reachable_of_parted h1.of_guarded)
  have h2 := reachable_store h1 (i := ()) rfl rfl (Or.inr hi) (storeMsg_of_insufficient hf hi)
  have h3 := reachable_endLog h2 (i := ()) rfl
  exact ⟨_, reachable_log second h3 (i := ()) rfl rfl, rfl, rfl, rfl⟩

/-- The room for the second message is computed as nearly `2 ^ 64`. -/
theorem exists_short_after_long : ∃ p q : Logger Unit × Parts,
    Reachable ((parted Unit).guarded StoreFits) p ∧ (parted Unit).Step p (.store ()) q ∧
      ¬ StoreFits p (.store ()) := by
  have hlen : (infoMsg (List.replicate 4096 0)).length = 8 + 4096 := by
    rw [length_infoMsg, List.length_replicate]
  have hshort : (infoMsg []).length = 8 := length_infoMsg []
  obtain ⟨p, hp, hc, hi, hm⟩ := reachable_longLogged (List.replicate 4096 0) []
    (by rw [hlen]; decide)
  have hsuff : ¬ p.1.Insufficient (infoMsg []) := by
    unfold Insufficient
    rw [hc]
    simp only [hlen, hshort]
    decide
  have hn : p.1.next (.store ()) = some { ({ p.1 with
      currentBuffer := some (infoMsg (List.replicate 4096 0) ++ infoMsg [])
      logged := p.1.logged ++ [infoMsg []] } : Logger Unit).setCaller () .logged with
      mutex := some (.caller ()) } := by
    unfold next
    simp only [hi, storeMsg_of_sufficient hsuff hc, Option.map_some]
  refine ⟨p, (_, _), hp, ⟨⟨⟨⟨_, hi⟩, hm⟩, hn⟩, rfl⟩, fun hfits => ?_⟩
  rcases hfits _ hi with hle | hi
  · have hle := hle _ hc
    rw [hlen] at hle
    exact absurd hle (by decide)
  · exact hsuff hi

theorem long_then_short : ∃ p : Logger Unit × Parts,
    Reachable (parted Unit) p ∧ ¬ p.1.Bounded p.2 := by
  obtain ⟨p, q, hp, hs, hfits⟩ := exists_short_after_long
  have ht := tracks_of_reachable hp.of_guarded
  exact ⟨q, hp.of_guarded.step hs, not_bounded_of_not_fits ht hs hfits⟩

/-- The state before the short message is within the bound, and the one after it is not. -/
theorem bounded_iff_long : ∃ p q : Logger Unit × Parts,
    p.1.Bounded p.2 ∧ (parted Unit).Step p (.store ()) q ∧ ¬ q.1.Bounded q.2 := by
  obtain ⟨p, q, hp, hs, hfits⟩ := exists_short_after_long
  refine ⟨p, q, (bounded_iff Unit).1 p hp, hs, fun hb => hfits ?_⟩
  exact ((bounded_iff Unit).2 p _ q hp hs).mp hb

end Logger

end Dagger
