import Dagger.Codec
import Dagger.Scan
import Mathlib.Data.List.Forall2

/-! # The request scanner of the HTTP server

`handleRtspRequest` (`src/HttpServer.h`) parses a request in place: it walks a pointer over
the read buffer, overwrites the delimiter behind each field with `'\0'` and keeps pointers
to the fields.  `scanRtspRequest` is that walk over the readable region, `none` as soon as
a byte outside the region would be read or written.

`Request` describes the byte strings the walk gets through, field by field and without
offsets.  `scanRtspRequest_iff` proves that these are exactly the contents on which the walk
ends inside the region. -/

namespace Dagger.HttpServer

open Scan

/-- `HttpRequest`: every field is an offset from `peek()` and ends at the next `'\0'`. -/
structure HttpRequest where
  method : ℕ
  url : ℕ
  version : ℕ
  headers : List (ℕ × ℕ)
deriving DecidableEq, Repr

def readField (mem : List Byte) (ptr : ℕ) (ch : Byte) : Option (List Byte × ℕ) := do
  let ptr ← skipWhile (· != ch) mem ptr
  let mem ← store mem ptr NUL
  let ptr ← skipWhile (· == ch) mem (ptr + 1)
  some (mem, ptr)

/-- The last `++ptr` is made whatever the byte it passes, so the cursor may end one past the
region. -/
def readLastField (mem : List Byte) (ptr : ℕ) : Option (List Byte × ℕ) := do
  let ptr ← skipWhile (fun c => c != CR && c != SP) mem ptr
  let mem ← store mem ptr NUL
  let ptr ← skipWhile (· == SP) mem (ptr + 1)
  let c ← mem[ptr]?
  some (mem, (if c = CR then ptr + 1 else ptr) + 1)

/-- The loop over the header lines, for at most `fuel` rounds.  Every round moves the cursor
on, so that more rounds than there are bytes change nothing (`headerLoop_iff`). -/
def headerLoop : ℕ → List Byte → ℕ → List (ℕ × ℕ) → Option (List Byte × ℕ × List (ℕ × ℕ))
  | 0, _, _, _ => none
  | fuel + 1, mem, ptr, headers => do
      let c ← mem[ptr]?
      if c = CR then some (mem, ptr, headers)
      else do
        let first := ptr
        let (mem, ptr) ← readField mem ptr COLON
        let ptr ← skipWhile (· == SP) mem ptr
        let second := ptr
        let (mem, ptr) ← readLastField mem ptr
        headerLoop fuel mem ptr (headers ++ [(first, second)])

/-- The scan of `handleRtspRequest`: the region afterwards, the request and `readLen`. -/
def scanRtspRequest (mem : List Byte) : Option (List Byte × HttpRequest × ℕ) := do
  let method := 0
  let (mem, ptr) ← readField mem method SP
  let url := ptr
  let (mem, ptr) ← readField mem url SP
  let version := ptr
  let (mem, ptr) ← readLastField mem version
  let (mem, ptr, headers) ← headerLoop (mem.length + 1) mem ptr []
  let ptr ← skipWhile (· != NUL) mem ptr
  some (mem, ⟨method, url, version, headers⟩, ptr + 1)

/-! ### The shape of a request -/

/-- `l` is `text`, free of `ch`, then one or more `ch`, then `rest`, which starts with
another byte. -/
def Field (ch : Byte) (l text rest : List Byte) : Prop :=
  ∃ tail seps, Stops (· != ch) l text (ch :: tail) ∧ Stops (· == ch) tail seps rest

/-- `l` is `text`, free of CR and space, then a CR or a space, any spaces, an optional CR and
one more byte, then `rest`; the last byte may be missing after the optional CR. -/
def LastField (l text rest : List Byte) : Prop :=
  ∃ d tail seps after, Stops (fun c => c != CR && c != SP) l text (d :: tail) ∧
    Stops (· == SP) tail seps after ∧
    ((∃ more, after = CR :: more ∧ rest = more.drop 1) ∨ ∃ c, c ≠ CR ∧ after = c :: rest)

/-- Header fields `key`, colons, spaces, `value`, up to a line that starts with CR. -/
inductive Headers : List Byte → List (List Byte × List Byte) → List Byte → Prop
  | done {l : List Byte} : Headers (CR :: l) [] (CR :: l)
  | header {c : Byte} {cs key l₁ seps l₂ value l₃ rest : List Byte}
      {headers : List (List Byte × List Byte)} :
      c ≠ CR → Field COLON (c :: cs) key l₁ → Stops (· == SP) l₁ seps l₂ →
      LastField l₂ value l₃ → Headers l₃ headers rest →
      Headers (c :: cs) ((key, value) :: headers) rest

/-- Method, url, version, headers, and a `'\0'` somewhere in what is left; `rest` is what
follows that `'\0'`. -/
def Request (l method url version : List Byte) (headers : List (List Byte × List Byte))
    (rest : List Byte) : Prop :=
  ∃ l₁ l₂ l₃ l₄ skipped, Field SP l method l₁ ∧ Field SP l₁ url l₂ ∧ LastField l₂ version l₃ ∧
    Headers l₃ headers l₄ ∧ Stops (· != NUL) l₄ skipped (NUL :: rest)

/-! ### Fields -/

variable {mem mem' : List Byte} {ptr q : ℕ} {ch : Byte} {text rest : List Byte}

theorem readField_spec (h : readField mem ptr ch = some (mem', q)) :
    ∃ text, Field ch (mem.drop ptr) text (mem'.drop q) ∧ mem'.length = mem.length ∧ ptr < q := by
  unfold readField at h
  simp only [Option.bind_eq_bind, Option.bind_eq_some_iff, Option.some.injEq, Prod.mk.injEq] at h
  obtain ⟨p₁, h1, m, h2, p₂, h3, rfl, rfl⟩ := h
  obtain ⟨text, c, tail, seps, s1, s2, rfl, rfl, rfl⟩ := exists_stops_of_scan h1 h2 h3
  obtain ⟨c', tail', he, hc⟩ := s1.head
  obtain ⟨rfl, rfl⟩ := List.cons.inj he
  obtain rfl : c = ch := by simpa using hc
  exact ⟨text, ⟨tail, seps, s1, s2⟩, List.length_set .., by omega⟩

theorem readField_of_field (h : Field ch (mem.drop ptr) text rest) :
    ∃ mem' q, readField mem ptr ch = some (mem', q) ∧ mem'.drop q = rest ∧
      mem'.length = mem.length ∧ ptr < q ∧ mem'.take ptr = mem.take ptr ∧
        TextAt NUL mem' ptr text q := by
  obtain ⟨tail, seps, s1, s2⟩ := h
  obtain ⟨h1, h2, h3, hrest⟩ := s1.scan_store_scan NUL s2
  refine ⟨mem.set (ptr + text.length) NUL, _, ?_, hrest, List.length_set .., ?_,
    List.take_set_of_le (Nat.le_add_right ..), textAt_set s1.eq ?_⟩
  · simp [readField, h1, h2, h3]
  · omega
  · omega

theorem readLastField_spec (h : readLastField mem ptr = some (mem', q)) :
    ∃ text, LastField (mem.drop ptr) text (mem'.drop q) ∧ mem'.length = mem.length ∧ ptr < q := by
  unfold readLastField at h
  simp only [Option.bind_eq_bind, Option.bind_eq_some_iff, Option.some.injEq, Prod.mk.injEq] at h
  obtain ⟨p₁, h1, m, h2, p₂, h3, c, h4, rfl, rfl⟩ := h
  obtain ⟨text, d, tail, seps, s1, s2, rfl, rfl, rfl⟩ := exists_stops_of_scan h1 h2 h3
  obtain ⟨x, more, hd, -⟩ := s2.head
  rw [getElem?_of_drop hd] at h4
  obtain rfl := Option.some.inj h4
  refine ⟨text, ⟨d, tail, seps, _, s1, s2, ?_⟩, List.length_set .., ?_⟩
  · rw [hd]
    split_ifs with hcr
    · refine Or.inl ⟨more, by rw [hcr], ?_⟩
      rw [← List.drop_drop, drop_succ hd]
    · exact Or.inr ⟨x, hcr, by rw [drop_succ hd]⟩
  · split_ifs <;> omega

theorem readLastField_of_lastField (h : LastField (mem.drop ptr) text rest) :
    ∃ mem' q, readLastField mem ptr = some (mem', q) ∧ mem'.drop q = rest ∧
      mem'.length = mem.length ∧ ptr < q ∧ mem'.take ptr = mem.take ptr ∧
        TextAt NUL mem' ptr text q := by
  obtain ⟨d, tail, seps, after, s1, s2, hrest⟩ := h
  obtain ⟨h1, h2, h3, hd⟩ := s1.scan_store_scan NUL s2
  obtain ⟨x, more, hx, -⟩ := s2.head
  rw [hx] at hd
  have h4 := getElem?_of_drop hd
  refine ⟨mem.set (ptr + text.length) NUL,
    (if x = CR then ptr + text.length + 1 + seps.length + 1
      else ptr + text.length + 1 + seps.length) + 1, ?_, ?_, List.length_set .., ?_,
    List.take_set_of_le (Nat.le_add_right ..), textAt_set s1.eq ?_⟩
  · simp only [readLastField, h1, h2, h3, h4, Option.bind_eq_bind, Option.bind_some]
  · rcases hrest with ⟨more', hafter, rfl⟩ | ⟨c, hc, hafter⟩
    · obtain ⟨rfl, rfl⟩ := List.cons.inj (hx.symm.trans hafter)
      rw [if_pos rfl, ← List.drop_drop, drop_succ hd]
    · obtain ⟨rfl, rfl⟩ := List.cons.inj (hx.symm.trans hafter)
      rw [if_neg hc, drop_succ hd]
  · split_ifs <;> omega
  · split_ifs <;> omega

/-! ### The header lines -/

theorem headerLoop_spec : ∀ (fuel : ℕ) {mem mem' : List Byte} {ptr q : ℕ} {acc hs : List (ℕ × ℕ)},
    headerLoop fuel mem ptr acc = some (mem', q, hs) →
    ∃ headers, Headers (mem.drop ptr) headers (mem'.drop q) ∧ mem'.length = mem.length := by
  intro fuel
  induction fuel with
  | zero =>
      intro mem mem' ptr q acc hs h
      cases h
  | succ fuel ih =>
      intro mem mem' ptr q acc hs h
      unfold headerLoop at h
      simp only [Option.bind_eq_bind, Option.bind_eq_some_iff] at h
      obtain ⟨c, hc, h⟩ := h
      obtain ⟨hlt, hget⟩ := List.getElem?_eq_some_iff.mp hc
      have hd : mem.drop ptr = c :: mem.drop (ptr + 1) := by
        rw [List.drop_eq_getElem_cons hlt, hget]
      split_ifs at h with hcr
      · simp only [Option.some.injEq, Prod.mk.injEq] at h
        obtain ⟨rfl, rfl, rfl⟩ := h
        rw [hd, hcr]
        exact ⟨[], .done, rfl⟩
      · simp only [Option.bind_eq_some_iff] at h
        obtain ⟨⟨m₁, p₁⟩, h1, p₂, h2, ⟨m₃, p₃⟩, h3, h4⟩ := h
        obtain ⟨key, f1, e1, -⟩ := readField_spec h1
        obtain ⟨seps, l₂, s2, rfl⟩ := skipWhile_eq_some_iff.mp h2
        obtain ⟨value, f3, e3, -⟩ := readLastField_spec h3
        obtain ⟨headers, f4, e4⟩ := ih h4
        rw [s2.drop] at f3
        rw [hd] at f1 ⊢
        exact ⟨(key, value) :: headers, .header hcr f1 s2 f3 f4, by rw [e4, e3, e1]⟩

/-- Enough rounds for every byte left are enough. -/
theorem headerLoop_of_headers {l rest : List Byte} {headers : List (List Byte × List Byte)}
    (h : Headers l headers rest) : ∀ (fuel : ℕ) {mem : List Byte} {ptr : ℕ} (acc : List (ℕ × ℕ)),
    mem.drop ptr = l → mem.length - ptr < fuel →
    ∃ mem' q new, headerLoop fuel mem ptr acc = some (mem', q, acc ++ new) ∧
      mem'.drop q = rest ∧ mem'.length = mem.length ∧ ptr ≤ q ∧ mem'.take ptr = mem.take ptr ∧
        List.Forall₂ (fun h o => TextAt NUL mem' o.1 h.1 q ∧ TextAt NUL mem' o.2 h.2 q)
          headers new := by
  induction h with
  | @done l =>
      intro fuel mem ptr acc hd hf
      obtain ⟨fuel, rfl⟩ : ∃ k, fuel = k + 1 := ⟨fuel - 1, by omega⟩
      refine ⟨mem, ptr, [], ?_, hd, rfl, Nat.le_refl _, rfl, .nil⟩
      simp [headerLoop, getElem?_of_drop hd]
  | @header c cs key l₁ seps l₂ value l₃ rest headers hcr f1 s2 f3 _ ih =>
      intro fuel mem ptr acc hd hf
      obtain ⟨fuel, rfl⟩ : ∃ k, fuel = k + 1 := ⟨fuel - 1, by omega⟩
      have hlt := lt_length_of_drop hd
      rw [← hd] at f1
      obtain ⟨m₁, p₁, e1, d1, n1, g1, t1, x1⟩ := readField_of_field f1
      rw [← d1] at s2
      have e2 := skipWhile_eq_some_iff.mpr ⟨seps, _, s2, rfl⟩
      rw [← s2.drop] at f3
      obtain ⟨m₃, p₃, e3, d3, n3, g3, t3, x3⟩ := readLastField_of_lastField f3
      obtain ⟨m₄, p₄, new, e4, d4, n4, g4, t4, hnew⟩ :=
        ih fuel (acc ++ [(ptr, p₁ + seps.length)]) d3 (by omega)
      -- the key and the value lie in front of what the next rounds write to
      have x1' : TextAt NUL m₃ ptr key p₁ := x1.of_take (take_of_take (by omega) t3)
      have hkey := (x1'.mono (show p₁ ≤ p₃ by omega)).of_take t4
      have hvalue := x3.of_take t4
      refine ⟨m₄, p₄, (ptr, p₁ + seps.length) :: new, ?_, d4, by rw [n4, n3, n1], by omega, ?_,
        .cons ⟨hkey.mono g4, hvalue.mono g4⟩ hnew⟩
      · simp [headerLoop, getElem?_of_drop hd, hcr, e1, e2, e3, e4]
      · rw [take_of_take (by omega) t4, take_of_take (by omega) t3, t1]

/-- The loop ends inside the region exactly when header lines follow, whatever the number of
rounds beyond the number of bytes. -/
theorem headerLoop_iff {fuel : ℕ} {acc : List (ℕ × ℕ)} (hf : mem.length - ptr < fuel) :
    (headerLoop fuel mem ptr acc).isSome ↔ ∃ headers rest, Headers (mem.drop ptr) headers rest := by
  constructor
  · intro h
    obtain ⟨⟨mem', q, hs⟩, hr⟩ := Option.isSome_iff_exists.mp h
    obtain ⟨headers, hh, -⟩ := headerLoop_spec fuel hr
    exact ⟨headers, _, hh⟩
  · rintro ⟨headers, rest, hh⟩
    obtain ⟨mem', q, new, hr, -⟩ := headerLoop_of_headers hh fuel acc rfl hf
    rw [hr]
    rfl

/-! ### The whole scan -/

theorem scanRtspRequest_spec {req : HttpRequest} {readLen : ℕ}
    (h : scanRtspRequest mem = some (mem', req, readLen)) :
    (∃ method url version headers, Request mem method url version headers (mem'.drop readLen)) ∧
      mem'.length = mem.length ∧ readLen ≤ mem.length := by
  unfold scanRtspRequest at h
  simp only [Option.bind_eq_bind, Option.bind_eq_some_iff, Option.some.injEq, Prod.mk.injEq] at h
  obtain ⟨⟨m₁, p₁⟩, h1, ⟨m₂, p₂⟩, h2, ⟨m₃, p₃⟩, h3, ⟨m₄, p₄, hs⟩, h4, p₅, h5, rfl, -, rfl⟩ := h
  obtain ⟨method, f1, e1, -⟩ := readField_spec h1
  obtain ⟨url, f2, e2, -⟩ := readField_spec h2
  obtain ⟨version, f3, e3, -⟩ := readLastField_spec h3
  obtain ⟨headers, f4, e4⟩ := headerLoop_spec _ h4
  obtain ⟨skipped, after, s5, rfl⟩ := skipWhile_eq_some_iff.mp h5
  obtain ⟨c, rest, rfl, hc⟩ := s5.head
  obtain rfl : c = NUL := by simpa using hc
  have hlt := lt_length_of_drop s5.drop
  have hlen : m₄.length = mem.length := by rw [e4, e3, e2, e1]
  rw [drop_succ s5.drop]
  refine ⟨⟨method, url, version, headers, _, _, _, _, skipped, f1, f2, f3, f4, s5⟩, hlen, ?_⟩
  rw [← hlen]
  exact hlt

/-- The offsets of `req` are those of the texts. -/
structure HttpRequest.Names (req : HttpRequest) (mem : List Byte)
    (method url version : List Byte) (headers : List (List Byte × List Byte)) : Prop where
  method : ∃ n, TextAt NUL mem req.method method n
  url : ∃ n, TextAt NUL mem req.url url n
  version : ∃ n, TextAt NUL mem req.version version n
  headers : List.Forall₂
    (fun h o => (∃ n, TextAt NUL mem o.1 h.1 n) ∧ ∃ n, TextAt NUL mem o.2 h.2 n) headers req.headers

theorem scanRtspRequest_of_request {method url version rest : List Byte}
    {headers : List (List Byte × List Byte)} (h : Request mem method url version headers rest) :
    ∃ mem' req readLen, scanRtspRequest mem = some (mem', req, readLen) ∧
      mem'.drop readLen = rest ∧ req.Names mem' method url version headers := by
  obtain ⟨l₁, l₂, l₃, l₄, skipped, f1, f2, f3, f4, s5⟩ := h
  have f0 : Field SP (mem.drop 0) method l₁ := f1
  obtain ⟨m₁, p₁, e1, rfl, -, g1, -, x1⟩ := readField_of_field f0
  obtain ⟨m₂, p₂, e2, rfl, -, g2, t2, x2⟩ := readField_of_field f2
  obtain ⟨m₃, p₃, e3, rfl, -, g3, t3, x3⟩ := readLastField_of_lastField f3
  obtain ⟨m₄, p₄, new, e4, rfl, -, g4, t4, hnew⟩ :=
    headerLoop_of_headers f4 (m₃.length + 1) [] rfl (by omega)
  have e5 := skipWhile_eq_some_iff.mpr ⟨skipped, _, s5, rfl⟩
  have x1' := (x1.of_take t2).of_take (take_of_take (show p₁ ≤ p₂ by omega) t3)
  refine ⟨m₄, ⟨0, p₁, p₂, new⟩, p₄ + skipped.length + 1, ?_, ?_, ?_, ?_, ?_, ?_⟩
  · simp only [scanRtspRequest, e1, e2, e3, e4, e5, Option.bind_eq_bind, Option.bind_some,
      List.nil_append]
  · exact drop_succ s5.drop
  · exact ⟨p₁, x1'.of_take (take_of_take (by omega) t4)⟩
  · exact ⟨p₂, (x2.of_take t3).of_take (take_of_take (by omega) t4)⟩
  · exact ⟨p₃, x3.of_take t4⟩
  · exact hnew.imp (fun h o hx => ⟨⟨p₄, hx.1⟩, p₄, hx.2⟩)

variable {N : ℕ} {b b' : Buffer N}

/-- **Safety of the scan**: on the content a successful codec leaves behind, the scan ends
inside the readable region, with a length that may be retrieved, exactly when that content
has the shape of a request. -/
theorem scanRtspRequest_iff (h : b.Wf) (hc : Codec.httpRequestDefaultCallback b = (true, b')) :
    (∃ mem' req readLen, scanRtspRequest b'.readable = some (mem', req, readLen) ∧
      readLen ≤ b'.readableBytes) ↔
    ∃ method url version headers rest, Request b'.readable method url version headers rest := by
  have hw := (Codec.httpRequestDefaultCallback_spec h hc).1
  constructor
  · rintro ⟨mem', req, readLen, hs, -⟩
    obtain ⟨⟨method, url, version, headers, hr⟩, -⟩ := scanRtspRequest_spec hs
    exact ⟨method, url, version, headers, _, hr⟩
  · rintro ⟨method, url, version, headers, rest, hr⟩
    obtain ⟨mem', req, readLen, hs, -⟩ := scanRtspRequest_of_request hr
    refine ⟨mem', req, readLen, hs, ?_⟩
    rw [← Buffer.length_readable hw]
    exact (scanRtspRequest_spec hs).2.2

/-- `"GET / HTTP/1.1\r\n\r\n"` -/
def getRoot : List Byte :=
  [71, 69, 84, 32, 47, 32, 72, 84, 84, 80, 47, 49, 46, 49, 13, 10, 13, 10]

/-- The shortest request line, without headers. -/
theorem scanRtspRequest_iff_getRoot :
    (∃ mem' req readLen,
      scanRtspRequest (Buffer.readable (N := 18) ⟨getRoot.set 17 NUL, 0, 18⟩) =
        some (mem', req, readLen) ∧
      readLen ≤ (⟨getRoot.set 17 NUL, 0, 18⟩ : Buffer 18).readableBytes) ↔
    ∃ method url version headers rest,
      Request (Buffer.readable (N := 18) ⟨getRoot.set 17 NUL, 0, 18⟩) method url version headers
        rest :=
  scanRtspRequest_iff (b := ⟨getRoot, 0, 18⟩) ⟨by decide, by decide⟩ (by decide)

/-- `"GET\r\n\r\n"`: no space before the end, so the first field has no delimiter. -/
def bareMethod : List Byte := [71, 69, 84, 13, 10, 13, 10]

/-- A connection that has received `bareMethod` only: the codec reports a complete request
and the scan leaves the readable region. -/
theorem scanRtspRequest_bareMethod : ∃ b b' : Buffer 8192,
    (Buffer.make 8192).append bareMethod = some b ∧ b.Wf ∧
      Codec.httpRequestDefaultCallback b = (true, b') ∧ scanRtspRequest b'.readable = none := by
  obtain ⟨b, e, w, r⟩ := Buffer.append_spec (Buffer.wf_make 8192) bareMethod
  have hf : b.findStr [CR, LF, CR, LF] = some 3 := by
    rw [Buffer.findStr, r]
    decide
  have hc : Codec.httpRequestDefaultCallback b =
      (true, { b with vec := b.vec.set (b.readIndex + 3 + 3) NUL }) := by
    rw [Codec.httpRequestDefaultCallback, hf]
  obtain ⟨-, pc, hpc, -, hr⟩ := Codec.httpRequestDefaultCallback_spec w hc
  obtain rfl : 3 = pc := Option.some.inj (hf.symm.trans hpc)
  refine ⟨b, _, e, w, hc, ?_⟩
  rw [hr, r]
  decide

end Dagger.HttpServer
