import Dagger.RtspServer

/-! # Requests and read events

The codec is asked once for each read event, so that a read event that brings several requests
hands one of them to its service and leaves the others in the buffer.  `dispatched_iff` compares
the runs over two ways of cutting a stream of requests into read events: they dispatch the same
requests exactly when they leave the same number of requests in the buffer (`backlog`). -/

namespace Dagger

/-- An occurrence in a prefix is the first one. -/
theorem memmem_of_prefix {str : List Byte} (q : List Byte) : ∀ {p : List Byte} {n : ℕ},
    memmem str p = some n → memmem str (p ++ q) = some n
  | [], n, h => by
      unfold memmem at h
      split_ifs at h with hs
      obtain rfl := Option.some.inj h
      subst hs
      cases q <;> rfl
  | b :: p, n, h => by
      have hle := memmem_le h
      unfold memmem at h
      split_ifs at h with hp
      · obtain rfl := Option.some.inj h
        have hp' : str.isPrefixOf (b :: p ++ q) = true := by
          rw [List.isPrefixOf_iff_prefix] at hp ⊢
          exact hp.trans (List.prefix_append _ _)
        rw [List.cons_append, memmem, ← List.cons_append, if_pos hp']
      · obtain ⟨k, hk, rfl⟩ := Option.map_eq_some_iff.mp h
        have hp' : ¬ str.isPrefixOf (b :: p ++ q) = true := by
          rw [List.isPrefixOf_iff_prefix] at hp ⊢
          exact fun hpre => hp (List.prefix_of_prefix_length_le hpre (List.prefix_append _ _)
            (by omega))
        rw [List.cons_append, memmem, ← List.cons_append, if_neg hp', memmem_of_prefix q hk]
        rfl

namespace RequestText

/-- The bytes of a sequence of requests. -/
def stream (rs : List RequestText) : List Byte := rs.flatMap encode

/-- The number of requests that the first `n` bytes of the stream complete. -/
def complete : List RequestText → ℕ → ℕ
  | [], _ => 0
  | r :: rs, n => if r.encode.length ≤ n then complete rs (n - r.encode.length) + 1 else 0

/-- The number of complete requests left after read events that bring `chunks`, when `n` bytes
had been read before and `w` requests were left: each event adds the requests it completes, and
takes one. -/
def backlog (rs : List RequestText) : ℕ → ℕ → List (List Byte) → ℕ
  | _, w, [] => w
  | n, w, chunk :: chunks =>
      let m := n + chunk.length
      backlog rs m (w + (complete rs m - complete rs n) - 1) chunks

variable {r : RequestText} {rs : List RequestText} {n m d : ℕ}

@[simp] theorem stream_nil : stream [] = [] := rfl

@[simp] theorem stream_cons (r : RequestText) (rs : List RequestText) :
    stream (r :: rs) = r.encode ++ stream rs := rfl

theorem stream_append (rs rs' : List RequestText) :
    stream (rs ++ rs') = stream rs ++ stream rs' := List.flatMap_append

theorem stream_split (rs : List RequestText) (d : ℕ) :
    stream rs = stream (rs.take d) ++ stream (rs.drop d) := by
  rw [← stream_append, List.take_append_drop]

theorem complete_stream (rs : List RequestText) : complete rs (stream rs).length = rs.length := by
  induction rs with
  | nil => rfl
  | cons r rs ih =>
      unfold complete
      rw [stream_cons, List.length_append, if_pos (Nat.le_add_right ..), Nat.add_sub_cancel_left,
        ih, List.length_cons]

theorem complete_mono (h : n ≤ m) : complete rs n ≤ complete rs m := by
  induction rs generalizing n m with
  | nil => exact Nat.le_refl 0
  | cons r rs ih =>
      unfold complete
      split_ifs with h1 h2
      · have := ih (show n - r.encode.length ≤ m - r.encode.length by omega)
        omega
      · omega
      · omega
      · omega

/-- The request after the first `d`, if it is complete. -/
theorem drop_of_lt (h : d < complete rs n) : ∃ r rs', rs.drop d = r :: rs' ∧
    (stream (rs.take d)).length + r.encode.length ≤ n := by
  induction rs generalizing n d with
  | nil => exact absurd h (Nat.not_lt_zero d)
  | cons r rs ih =>
      unfold complete at h
      split_ifs at h with h1
      · cases d with
        | zero => exact ⟨r, rs, rfl, by simpa using h1⟩
        | succ d =>
            obtain ⟨r', rs', hd, hle⟩ := ih (show d < complete rs (n - r.encode.length) by omega)
            refine ⟨r', rs', hd, ?_⟩
            rw [List.take_succ_cons, stream_cons, List.length_append]
            omega
      · omega

/-- The request after the first `d`, if it is not complete. -/
theorem drop_of_le (h : complete rs n ≤ d) : rs.drop d = [] ∨ ∃ r rs', rs.drop d = r :: rs' ∧
    n < (stream (rs.take d)).length + r.encode.length := by
  induction rs generalizing n d with
  | nil => exact Or.inl (by simp)
  | cons r rs ih =>
      unfold complete at h
      split_ifs at h with h1
      · cases d with
        | zero => omega
        | succ d =>
            have hle : complete rs (n - r.encode.length) ≤ d := by omega
            rcases ih hle with hd | ⟨r', rs', hd, hlt⟩
            · exact Or.inl hd
            · refine Or.inr ⟨r', rs', hd, ?_⟩
              rw [List.take_succ_cons, stream_cons, List.length_append]
              omega
      · cases d with
        | zero => exact Or.inr ⟨r, rs, rfl, by simp; omega⟩
        | succ d =>
            cases hd : rs.drop d with
            | nil => exact Or.inl hd
            | cons r' rs' =>
                refine Or.inr ⟨r', rs', hd, ?_⟩
                rw [List.take_succ_cons, stream_cons, List.length_append]
                omega

end RequestText

namespace ValidBuffer

variable {N : ℕ} {b : ValidBuffer N} {r : RequestText} {rest : List Byte}

/-- A part of a request is left as it is. -/
theorem codec_of_prefix (hr : r.WellFormed) (hb : b.bytes ++ rest = r.encode)
    (hlt : b.bytes.length < r.encode.length) :
    b.httpRequestDefaultCallback.1 = false ∧ b.httpRequestDefaultCallback.2.bytes = b.bytes := by
  have hnone : memmem [CR, LF, CR, LF] b.bytes = none := by
    by_contra hne
    obtain ⟨n, hn⟩ := Option.ne_none_iff_exists'.mp hne
    have hle := memmem_le hn
    -- the empty line is the end of the request
    obtain ⟨k, hk, hlen⟩ := memmem_crlf [] (List.cons_ne_nil r.requestLine _) hr.line
    have hfull := memmem_of_prefix rest hn
    rw [hb] at hfull
    obtain rfl : n = k := Option.some.inj (hfull.symm.trans hk)
    have hsize : r.encode.length = (RequestText.crlf r.lines).length + 2 := by
      simp [RequestText.encode]
    rw [← RequestText.lines] at hlen
    simp only [List.length_cons, List.length_nil] at hle
    omega
  have hc : Codec.httpRequestDefaultCallback b.raw = (false, b.raw) := by
    have hfind : b.raw.findStr [CR, LF, CR, LF] = none := hnone
    rw [Codec.httpRequestDefaultCallback, hfind]
  refine ⟨congrArg Prod.fst hc, ?_⟩
  show (Codec.httpRequestDefaultCallback b.raw).2.readable = _
  rw [hc]
  rfl

theorem codec_of_nil (hb : b.bytes = []) :
    b.httpRequestDefaultCallback.1 = false ∧ b.httpRequestDefaultCallback.2.bytes = [] := by
  have hfind : b.raw.findStr [CR, LF, CR, LF] = none := by
    have hread : b.raw.readable = [] := hb
    rw [Buffer.findStr, hread]
    rfl
  have hc : Codec.httpRequestDefaultCallback b.raw = (false, b.raw) := by
    rw [Codec.httpRequestDefaultCallback, hfind]
  refine ⟨congrArg Prod.fst hc, ?_⟩
  show (Codec.httpRequestDefaultCallback b.raw).2.readable = _
  rw [hc]
  exact hb

end ValidBuffer

/-! ### One event -/

namespace HttpConnection

open TcpConnection RequestText Transition

variable {server : RtspServer} {l : LoopId} {s t : HttpConnection} {r : RequestText}
  {rs : List RequestText} {pre chunk more : List Byte} {w d : ℕ}

/-- The requests of `rs` have no spaces in their values, and are for registered services. -/
def Served (server : RtspServer) (rs : List RequestText) : Prop :=
  ∀ r ∈ rs, r.WellFormed ∧ r.SpaceFree ∧ r.url ∈ server.services

/-- `pre` was read, `d` requests were dispatched, and `w` complete ones are left. -/
structure Progress (rs : List RequestText) (pre : List Byte) (d w : ℕ) (s : HttpConnection) :
    Prop where
  dispatched : s.dispatched = rs.take d
  count : d + w = complete rs pre.length
  bytes : pre = stream (rs.take d) ++ s.conn.readBuffer.bytes
  /-- No close is pending. -/
  isWillClose : s.conn.isWillClose = false

/-- What the codec sees of a read event. -/
def Reads (s : HttpConnection) (script : List ReadResult) (b : ValidBuffer IO_BUFFER_SIZE) : Prop :=
  b.bytes = s.conn.readBuffer.bytes ++ Buffer.received 4096 script

/-- A read event up to the message callback. -/
theorem preConnMsgCallback_eq {time : UInt32} {script : List ReadResult} {answer : List Byte}
    (hl : s.Legal (.read time script answer)) : ∃ (b : ValidBuffer IO_BUFFER_SIZE)
      (c : TcpConnection), s.Reads script b ∧ c.readBuffer = b.httpRequestDefaultCallback.2 ∧
      c.isWillClose = s.conn.isWillClose ∧
      server.tcpServer.preConnMsgCallback l time script s.conn =
        some (if b.httpRequestDefaultCallback.1 = true then
          (c.log .connMsgCallback, .connMsgCallback) else (c, .loop)) := by
  obtain ⟨hd, hpos, -⟩ := hl
  obtain ⟨b, hb, he⟩ :=
    @TcpServer.preConnMsgCallback_of_pos server.tcpServer l time script s.conn hd hpos
  exact ⟨b, { s.conn with
    data := some l
    readBuffer := b.httpRequestDefaultCallback.2
    lastReceiveTime := if server.tcpServer.idleConnectionsManager then time
      else s.conn.lastReceiveTime }, hb, rfl, rfl, he⟩

/-- A read event on which the codec reports nothing. -/
theorem next_of_not_ready {time : UInt32} {script : List ReadResult} {answer : List Byte}
    (hl : s.Legal (.read time script answer))
    (hcodec : ∀ b, s.Reads script b → b.httpRequestDefaultCallback.1 = false ∧
      b.httpRequestDefaultCallback.2.bytes = b.bytes) :
    ∃ conn, s.next server l (.read time script answer) = some { s with conn } ∧
      s.Reads script conn.readBuffer ∧ conn.isWillClose = s.conn.isWillClose := by
  obtain ⟨b, c, hb, hc, hwill, he⟩ := @preConnMsgCallback_eq server l s _ _ _ hl
  obtain ⟨hready, hbytes⟩ := hcodec b hb
  rw [hready, if_neg Bool.false_ne_true] at he
  refine ⟨c, ?_, ?_, hwill⟩
  · unfold next
    dsimp only
    rw [he]
    rfl
  · rw [hc]
    exact hbytes.trans hb

/-- A read event that hands a request to its service. -/
theorem next_of_ready {time : UInt32} {script : List ReadResult} {answer rest : List Byte}
    (hl : s.Legal (.read time script answer)) (hurl : r.url ∈ server.services)
    (hcodec : ∀ b, s.Reads script b → b.httpRequestDefaultCallback.1 = true ∧
      ∃ b', b.httpRequestDefaultCallback.2.parseRequest = some (b', r) ∧ b'.bytes = rest) :
    ∃ conn, s.next server l (.read time script answer) =
        some { conn, dispatched := s.dispatched ++ [r] } ∧
      conn.readBuffer.bytes = rest ∧ conn.isWillClose = false := by
  obtain ⟨b, c, hb, hc, -, he⟩ := @preConnMsgCallback_eq server l s _ _ _ hl
  obtain ⟨hready, b', hparse, hbytes⟩ := hcodec b hb
  rw [hready, if_pos rfl] at he
  have hhandle : server.handleRtspRequest l answer (c.log .connMsgCallback) =
      some (({ c.log .connMsgCallback with readBuffer := b' } : TcpConnection).queue answer,
        some r) := by
    have hparse' : (c.log .connMsgCallback).readBuffer.parseRequest = some (b', r) := by
      rw [← hparse, ← hc]
      rfl
    unfold RtspServer.handleRtspRequest
    rw [hparse']
    simp only [Option.bind_eq_bind, Option.bind_some, if_pos hurl, sendStr_eq hl.2.2]
  refine ⟨({ c.log .connMsgCallback with readBuffer := b' } : TcpConnection).queue answer, ?_,
    hbytes, rfl⟩
  unfold next
  dsimp only
  rw [he]
  simp only [Option.bind_eq_bind, Option.bind_some, if_true, hhandle, Option.toList_some]

/-- A read event adds the requests that it completes, and takes one. -/
theorem Progress.read (h : Progress rs pre d w s) (hrs : Served server rs) {time : UInt32}
    {script : List ReadResult} {answer : List Byte} (hl : s.Legal (.read time script answer))
    (hchunk : Buffer.received 4096 script = chunk) (hpre : pre ++ chunk ++ more = stream rs) :
    ∃ t d', s.next server l (.read time script answer) = some t ∧ Progress rs (pre ++ chunk) d'
      (w + (complete rs (pre.length + chunk.length) - complete rs pre.length) - 1) t := by
  have hlen : (pre ++ chunk).length = pre.length + chunk.length := List.length_append
  have hmono : complete rs pre.length ≤ complete rs (pre.length + chunk.length) :=
    complete_mono (Nat.le_add_right ..)
  have hcount := h.count
  -- what the buffer holds after the read, and what is still to come
  have hbuf : pre ++ chunk =
      stream (rs.take d) ++ (s.conn.readBuffer.bytes ++ chunk) := by
    rw [← List.append_assoc, ← h.bytes]
  have hrest : s.conn.readBuffer.bytes ++ chunk ++ more = stream (rs.drop d) := by
    have he := hpre.trans (stream_split rs d)
    rw [hbuf, List.append_assoc] at he
    exact List.append_cancel_left he
  by_cases hd : d < complete rs (pre.length + chunk.length)
  · obtain ⟨r, rs', hdrop, hle⟩ := drop_of_lt hd
    obtain ⟨hwf, hsp, hurl⟩ := hrs r (List.mem_of_mem_drop (hdrop ▸ List.mem_cons_self))
    have hsize : r.encode.length ≤ (s.conn.readBuffer.bytes ++ chunk).length := by
      have hlen' := congrArg List.length hbuf
      rw [hlen, List.length_append] at hlen'
      omega
    rw [hdrop, stream_cons] at hrest
    obtain ⟨rest, hsplit⟩ : r.encode <+: s.conn.readBuffer.bytes ++ chunk :=
      List.prefix_of_prefix_length_le ⟨_, hrest.symm⟩ (List.prefix_append _ _) hsize
    obtain ⟨conn, hn, hbytes, hwill⟩ := @next_of_ready server l s r time script answer rest hl hurl
      fun b hb => by
        have hb' : b.bytes = r.encode ++ rest := by
          rw [hsplit, ← hchunk]
          exact hb
        exact ⟨(ValidBuffer.codec_encode hwf.line hb').1,
          ValidBuffer.parseRequest_encode (hwf.scannable hsp) hb'⟩
    have htake : rs.take (d + 1) = rs.take d ++ [r] := by
      rw [List.take_add, hdrop]
      rfl
    refine ⟨_, d + 1, hn, ?_, ?_, ?_, hwill⟩
    · rw [htake, h.dispatched]
    · rw [hlen]
      omega
    · rw [hbuf, htake, stream_append, ← hsplit, hbytes]
      simp
  · have hd' : complete rs (pre.length + chunk.length) ≤ d := by omega
    obtain ⟨conn, hn, hbytes, hwill⟩ := @next_of_not_ready server l s time script answer hl
      fun b hb => by
        have hb' : b.bytes = s.conn.readBuffer.bytes ++ chunk := by
          rw [← hchunk]
          exact hb
        rcases drop_of_le hd' with hdrop | ⟨r, rs', hdrop, hlt⟩
        · rw [hdrop, stream_nil] at hrest
          have hnil := (List.append_eq_nil_iff.mp hrest).1
          rw [← hb'] at hnil
          rw [hnil]
          exact ValidBuffer.codec_of_nil hnil
        · obtain ⟨hwf, -, -⟩ := hrs r (List.mem_of_mem_drop (hdrop ▸ List.mem_cons_self))
          have hsize : (s.conn.readBuffer.bytes ++ chunk).length < r.encode.length := by
            have hlen' := congrArg List.length hbuf
            rw [hlen, List.length_append] at hlen'
            omega
          rw [hdrop, stream_cons] at hrest
          obtain ⟨rest, hsplit⟩ : s.conn.readBuffer.bytes ++ chunk <+: r.encode :=
            List.prefix_of_prefix_length_le ⟨_, hrest⟩ (List.prefix_append _ _) (Nat.le_of_lt hsize)
          rw [← hb'] at hsplit hsize
          exact ValidBuffer.codec_of_prefix hwf hsplit hsize
    refine ⟨_, d, hn, h.dispatched, ?_, ?_, hwill.trans h.isWillClose⟩
    · rw [hlen]
      omega
    · have hread : conn.readBuffer.bytes = s.conn.readBuffer.bytes ++ chunk := by
        rw [← hchunk]
        exact hbytes
      rw [hbuf, ← hread]

/-- A write event leaves the read buffer alone. -/
theorem Progress.write (h : Progress rs pre d w s) {r : WriteResult} (hl : s.Legal (.write r))
    (hn : s.next server l (.write r) = some t) : Progress rs pre d w t := by
  obtain ⟨conn, hw, rfl⟩ := Option.map_eq_some_iff.mp hn
  obtain ⟨n, rest, -, -, ⟨-, rfl⟩ | ⟨-, hwill, -⟩ | ⟨-, -, rfl⟩⟩ := sendNonblock_cases hl.2 hw
  · exact ⟨h.dispatched, h.count, h.bytes, h.isWillClose⟩
  · rw [h.isWillClose] at hwill
    cases hwill
  · exact ⟨h.dispatched, h.count, h.bytes, h.isWillClose⟩

/-- What a run dispatches depends on where its read events cut the stream. -/
theorem Progress.path (hrs : Served server rs) {as : List Act}
    (hp : Path (system server l) s as t) : ∀ {pre more : List Byte} {d w : ℕ},
    Progress rs pre d w s → pre ++ (chunks as).flatten ++ more = stream rs →
    ∃ d', Progress rs (pre ++ (chunks as).flatten) d' (backlog rs pre.length w (chunks as)) t := by
  induction hp with
  | nil s =>
      intro pre more d w h _
      refine ⟨d, ?_⟩
      rw [show chunks [] = [] from rfl, List.flatten_nil, List.append_nil]
      exact h
  | @cons s u t a as hs hp ih =>
      intro pre more d w h hpre
      obtain ⟨hl, hn⟩ := hs
      cases a with
      | read time script answer =>
          have hc : chunks (.read time script answer :: as) =
              Buffer.received 4096 script :: chunks as := rfl
          rw [hc, List.flatten_cons, ← List.append_assoc] at hpre ⊢
          have hpre' : pre ++ Buffer.received 4096 script ++ ((chunks as).flatten ++ more) =
              stream rs := by
            rw [← List.append_assoc]
            exact hpre
          obtain ⟨v, d', hv, hprog⟩ := h.read hrs hl rfl hpre'
          obtain rfl : u = v := Option.some.inj (hn.symm.trans hv)
          obtain ⟨d'', ht⟩ := ih hprog hpre
          refine ⟨d'', ?_⟩
          rw [List.length_append] at ht
          exact ht
      | write r => exact ih (h.write hl hn) hpre

theorem Progress.init (h : (system server l).Init s) : Progress rs [] 0 0 s := by
  obtain ⟨time, rfl⟩ := h
  refine ⟨rfl, ?_, rfl, rfl⟩
  cases rs with
  | nil => rfl
  | cons r rs =>
      have hpos : ¬ r.encode.length ≤ 0 := by simp [encode]
      unfold complete
      rw [List.length_nil, if_neg hpos]

/-- After the whole stream, the requests that were dispatched are the first ones, and all but
`backlog` many. -/
theorem dispatched_eq (hrs : Served server rs) {as : List Act} {s₀ : HttpConnection}
    (h0 : (system server l).Init s₀) (hp : Path (system server l) s₀ as s)
    (hread : (chunks as).flatten = stream rs) :
    ∃ d, s.dispatched = rs.take d ∧ d + backlog rs 0 0 (chunks as) = rs.length := by
  obtain ⟨d, h⟩ := Progress.path hrs hp (Progress.init h0)
    (show [] ++ (chunks as).flatten ++ [] = stream rs by
      rw [List.nil_append, List.append_nil, hread])
  have hcount := h.count
  rw [List.nil_append, hread, complete_stream] at hcount
  exact ⟨d, h.dispatched, hcount⟩

/-- No read event fails on the bytes of a stream of requests. -/
theorem isSome_next (hrs : Served server rs) {as : List Act} {s₀ : HttpConnection}
    (h0 : (system server l).Init s₀) (hp : Path (system server l) s₀ as s) {time : UInt32}
    {script : List ReadResult} {answer : List Byte} (hl : s.Legal (.read time script answer))
    (hread : (chunks as).flatten ++ Buffer.received 4096 script <+: stream rs) :
    (s.next server l (.read time script answer)).isSome := by
  obtain ⟨more, hmore⟩ := hread
  rw [List.append_assoc] at hmore
  obtain ⟨d, h⟩ := Progress.path hrs hp (Progress.init h0)
    (by rw [List.nil_append]; exact hmore)
  rw [List.nil_append] at h
  rw [← List.append_assoc] at hmore
  obtain ⟨t, d', ht, -⟩ := h.read hrs hl rfl hmore
  rw [ht]
  rfl

/-- **Requests and read events**: over one stream of requests, two runs dispatch the same requests
exactly when they leave equally many complete requests in the buffer. -/
theorem dispatched_iff (hrs : Served server rs) {as bs : List Act} {s₀ t₀ : HttpConnection}
    (hs₀ : (system server l).Init s₀) (ht₀ : (system server l).Init t₀)
    (hs : Path (system server l) s₀ as s) (ht : Path (system server l) t₀ bs t)
    (hreads : (chunks as).flatten = stream rs) (hreadt : (chunks bs).flatten = stream rs) :
    s.dispatched = t.dispatched ↔ backlog rs 0 0 (chunks as) = backlog rs 0 0 (chunks bs) := by
  obtain ⟨d, hd, hcount⟩ := dispatched_eq hrs hs₀ hs hreads
  obtain ⟨e, he, hcount'⟩ := dispatched_eq hrs ht₀ ht hreadt
  rw [hd, he]
  constructor
  · intro h
    have hlen := congrArg List.length h
    rw [List.length_take, List.length_take] at hlen
    omega
  · intro h
    have hde : d = e := by omega
    rw [hde]

/-- Read events that complete one request each at most leave none behind. -/
theorem backlog_eq_zero : ∀ {chunks : List (List Byte)} {n : ℕ},
    (∀ pre chunk post, chunks = pre ++ chunk :: post →
      complete rs (n + pre.flatten.length + chunk.length) ≤
        complete rs (n + pre.flatten.length) + 1) → backlog rs n 0 chunks = 0
  | [], n, _ => rfl
  | chunk :: chunks, n, h => by
      have h1 := h [] chunk chunks rfl
      rw [List.flatten_nil, List.length_nil, Nat.add_zero] at h1
      have hw : 0 + (complete rs (n + chunk.length) - complete rs n) - 1 = 0 := by omega
      show backlog rs (n + chunk.length) (0 + (complete rs (n + chunk.length) - complete rs n) - 1)
        chunks = 0
      rw [hw]
      refine backlog_eq_zero fun pre chunk' post he => ?_
      have h2 := h (chunk :: pre) chunk' post (by rw [he]; rfl)
      rw [List.flatten_cons, List.length_append, ← Nat.add_assoc] at h2
      exact h2

/-! ### Two requests in one read event -/

/-- A read event whose first `::read` brings all of `chunk`. -/
def readAll (chunk : List Byte) : Act := .read 0 [.data chunk] [0]

theorem received_readAll (hc : chunk.length < 4096) :
    Buffer.received 4096 [.data chunk] = chunk := by
  unfold Buffer.received
  rw [if_neg (by omega), List.append_nil]

theorem chunks_readAll : ∀ {cs : List (List Byte)}, (∀ c ∈ cs, c.length < 4096) →
    chunks (cs.map readAll) = cs
  | [], _ => rfl
  | c :: cs, h => by
      have hc : chunks ((c :: cs).map readAll) =
          Buffer.received 4096 [.data c] :: chunks (cs.map readAll) := rfl
      rw [hc, received_readAll (h c List.mem_cons_self),
        chunks_readAll fun x hx => h x (List.mem_cons_of_mem _ hx)]

/-- Every way of cutting a stream into small pieces belongs to a run. -/
theorem Progress.exists_path (hrs : Served server rs) : ∀ {cs : List (List Byte)},
    (∀ c ∈ cs, c ≠ [] ∧ c.length < 4096) → ∀ {pre : List Byte} {d w : ℕ} {s : HttpConnection},
    Progress rs pre d w s → pre ++ cs.flatten = stream rs →
    ∃ t, Path (system server l) s (cs.map readAll) t
  | [], _, _, _, _, s, _, _ => ⟨s, .nil s⟩
  | c :: cs, hcs, pre, d, w, s, h, hpre => by
      obtain ⟨hne, hlt⟩ := hcs c List.mem_cons_self
      have hl : s.Legal (readAll c) := by
        refine ⟨⟨Nat.le_of_lt hlt, fun he => absurd he (Nat.ne_of_lt hlt)⟩, ?_, by simp⟩
        have hpos := List.length_pos_iff.mpr hne
        show 0 < (c.length : ℤ)
        omega
      rw [List.flatten_cons, ← List.append_assoc] at hpre
      obtain ⟨u, d', hu, hprog⟩ := h.read hrs hl (received_readAll hlt) hpre
      obtain ⟨t, hp⟩ := exists_path hrs (fun x hx => hcs x (List.mem_cons_of_mem _ hx)) hprog hpre
      exact ⟨t, .cons ⟨hl, hu⟩ hp⟩

/-- `"GET /p H\r\n\r\n"` -/
def getP : RequestText := ⟨[71, 69, 84], [47, 112], [72], []⟩

/-- A server with the service `/p`. -/
def portServer : RtspServer := ⟨[[47, 112]], false⟩

theorem served_getP : Served portServer [getP, getP] := by
  have hwf : getP.WellFormed :=
    ⟨(by decide : Token [71, 69, 84]), (by decide : Token [47, 112]), (by decide : Token [72]),
      nofun⟩
  intro r hr
  have he : r = getP := by simpa using hr
  rw [he]
  exact ⟨hwf, nofun, List.mem_cons_self⟩

theorem init_accepted : (system portServer 0).Init { conn := TcpServer.accepted 0 0 } := ⟨0, rfl⟩

theorem exists_path_getP {cs : List (List Byte)} (hcs : ∀ c ∈ cs, c ≠ [] ∧ c.length < 4096)
    (hflat : cs.flatten = stream [getP, getP]) : ∃ t,
    Path (system portServer 0) { conn := TcpServer.accepted 0 0 } (cs.map readAll) t ∧
      (chunks (cs.map readAll)).flatten = stream [getP, getP] := by
  obtain ⟨t, ht⟩ := Progress.exists_path served_getP hcs (Progress.init init_accepted) hflat
  exact ⟨t, ht, by rw [chunks_readAll fun c hc => (hcs c hc).2, hflat]⟩

/-- Two ways of cutting the stream that leave no request behind. -/
theorem dispatched_iff_getP : ∃ s t,
    Path (system portServer 0) { conn := TcpServer.accepted 0 0 }
      ([getP.encode, getP.encode].map readAll) s ∧
    Path (system portServer 0) { conn := TcpServer.accepted 0 0 }
      ([getP.encode.take 5, getP.encode.drop 5, getP.encode].map readAll) t ∧
    s.dispatched = t.dispatched := by
  obtain ⟨s, hs, hreads⟩ :=
    exists_path_getP (show ∀ c ∈ [getP.encode, getP.encode], c ≠ [] ∧ c.length < 4096 by decide)
      (by decide)
  obtain ⟨t, ht, hreadt⟩ :=
    exists_path_getP (show ∀ c ∈ [getP.encode.take 5, getP.encode.drop 5, getP.encode],
      c ≠ [] ∧ c.length < 4096 by decide) (by decide)
  exact ⟨s, t, hs, ht, (dispatched_iff served_getP init_accepted init_accepted hs ht hreads
    hreadt).mpr (by decide)⟩

/-- Both requests in one read event: the second one is not dispatched. -/
theorem request_left : Served portServer [getP, getP] ∧ ∃ s t,
    Path (system portServer 0) { conn := TcpServer.accepted 0 0 }
      ([stream [getP, getP]].map readAll) s ∧
    Path (system portServer 0) { conn := TcpServer.accepted 0 0 }
      ([getP.encode, getP.encode].map readAll) t ∧
    s.dispatched = [getP] ∧ t.dispatched = [getP, getP] := by
  obtain ⟨s, hs, hreads⟩ :=
    exists_path_getP (show ∀ c ∈ [stream [getP, getP]], c ≠ [] ∧ c.length < 4096 by decide)
      (by decide)
  obtain ⟨t, ht, hreadt⟩ :=
    exists_path_getP (show ∀ c ∈ [getP.encode, getP.encode], c ≠ [] ∧ c.length < 4096 by decide)
      (by decide)
  obtain ⟨d, hd, hcount⟩ := dispatched_eq served_getP init_accepted hs hreads
  obtain ⟨e, he, hcount'⟩ := dispatched_eq served_getP init_accepted ht hreadt
  have hone : backlog [getP, getP] 0 0 (chunks ([stream [getP, getP]].map readAll)) = 1 := by
    decide
  have hzero : backlog [getP, getP] 0 0 (chunks ([getP.encode, getP.encode].map readAll)) = 0 := by
    decide
  obtain rfl : d = 1 := by
    rw [hone] at hcount
    exact Nat.succ.inj hcount
  obtain rfl : e = 2 := by
    rw [hzero] at hcount'
    exact hcount'
  exact ⟨served_getP, s, t, hs, ht, hd, he⟩

end HttpConnection

end Dagger
