import Dagger.HttpServer
import Mathlib.Data.List.TakeWhile

/-! # Requests and their parse

`encode` writes a request the way the parser's rule describes it, and `parseRequest` is what
`handleRtspRequest` takes out of the read buffer.  `parse_encode` gives the contents on which the
second inverts the first: a header value that contains a space is cut off there, and whatever
follows is read as something else. -/

namespace Dagger

/-- The strings of a request. -/
structure RequestText where
  method : List Byte
  url : List Byte
  version : List Byte
  headers : List (List Byte × List Byte)
deriving DecidableEq, Repr

namespace RequestText

/-- The lines, each ended by CR LF. -/
def crlf (lines : List (List Byte)) : List Byte := lines.flatMap (· ++ [CR, LF])

def requestLine (r : RequestText) : List Byte := r.method ++ [SP] ++ r.url ++ [SP] ++ r.version

def headerLine (header : List Byte × List Byte) : List Byte := header.1 ++ [COLON, SP] ++ header.2

def lines (r : RequestText) : List (List Byte) := r.requestLine :: r.headers.map headerLine

/-- The request line, the header lines and an empty line. -/
def encode (r : RequestText) : List Byte := crlf r.lines ++ [CR, LF]

/-- Not empty, without space, CR, LF and `'\0'`. -/
def Token (text : List Byte) : Prop := text ≠ [] ∧ ∀ c ∈ text, c ∉ [SP, CR, LF, NUL]

def Key (text : List Byte) : Prop := text ≠ [] ∧ ∀ c ∈ text, c ∉ [COLON, CR, LF, NUL]

/-- Without CR, LF and `'\0'`, and with no space at its ends. -/
def Value (text : List Byte) : Prop :=
  (∀ c ∈ text, c ∉ [CR, LF, NUL]) ∧ text.head? ≠ some SP ∧ text.getLast? ≠ some SP

/-- Without space, CR, LF and `'\0'`; it may be empty. -/
def Word (text : List Byte) : Prop := ∀ c ∈ text, c ∉ [SP, CR, LF, NUL]

instance (text bytes : List Byte) : Decidable (∀ c ∈ text, c ∉ bytes) := List.decidableBAll _ _

instance (text : List Byte) : Decidable (Token text) := inferInstanceAs (Decidable (_ ∧ _))

instance (text : List Byte) : Decidable (Key text) := inferInstanceAs (Decidable (_ ∧ _))

instance (text : List Byte) : Decidable (Value text) := inferInstanceAs (Decidable (_ ∧ _))

structure WellFormed (r : RequestText) : Prop where
  method : Token r.method
  url : Token r.url
  version : Token r.version
  headers : ∀ header ∈ r.headers, Key header.1 ∧ Value header.2

/-- No header value contains a space. -/
def SpaceFree (r : RequestText) : Prop := ∀ header ∈ r.headers, SP ∉ header.2

/-- What the scan gets right. -/
structure Scannable (r : RequestText) : Prop where
  method : Word r.method
  url : Token r.url
  version : Word r.version
  headers : ∀ header ∈ r.headers, (∀ c ∈ header.1, c ∉ [COLON, CR, LF, NUL]) ∧ Word header.2

end RequestText

/-! ### The search for the empty line -/

/-- A byte that does not start `str` is passed. -/
theorem memmem_cons {str : List Byte} {c d : Byte} {l : List Byte} (h : c ≠ d) :
    memmem (c :: str) (d :: l) = (memmem (c :: str) l).map (· + 1) := by
  have hp : (c :: str).isPrefixOf (d :: l) = false := by
    simp [List.isPrefixOf, h]
  rw [memmem, hp]
  rfl

theorem memmem_append {c : Byte} {str l : List Byte} : ∀ {pre : List Byte}, c ∉ pre →
    memmem (c :: str) (pre ++ l) = (memmem (c :: str) l).map (· + pre.length)
  | [], _ => by
      rw [List.nil_append]
      exact Option.map_id'.symm
  | d :: pre, h => by
      have hd : c ≠ d := fun he => h (he ▸ List.mem_cons_self)
      have hpre : c ∉ pre := fun hin => h (List.mem_cons_of_mem _ hin)
      rw [List.cons_append, memmem_cons hd, memmem_append hpre, Option.map_map]
      rfl

open RequestText in
/-- The empty line is found behind the last line, and not before. -/
theorem memmem_crlf (rest : List Byte) : ∀ {lines : List (List Byte)}, lines ≠ [] →
    (∀ l ∈ lines, l ≠ [] ∧ CR ∉ l) →
    ∃ n, memmem [CR, LF, CR, LF] (crlf lines ++ CR :: LF :: rest) = some n ∧
      n + 2 = (crlf lines).length
  | [], h, _ => absurd rfl h
  | [l], _, h => by
      refine ⟨l.length, ?_, by simp [crlf]⟩
      have he : crlf [l] ++ CR :: LF :: rest = l ++ CR :: LF :: CR :: LF :: rest := by
        simp [crlf]
      rw [he, memmem_append (h l List.mem_cons_self).2]
      simp [memmem]
  | l :: l' :: lines, _, h => by
      obtain ⟨n, hn, hlen⟩ := memmem_crlf rest (List.cons_ne_nil l' lines)
        (fun x hx => h x (List.mem_cons_of_mem _ hx))
      -- the next line starts with a byte other than CR
      obtain ⟨hne, hcr⟩ := h l' (List.mem_cons_of_mem _ List.mem_cons_self)
      obtain ⟨d, ds, rfl⟩ := List.exists_cons_of_ne_nil hne
      have hd : CR ≠ d := fun he => hcr (he ▸ List.mem_cons_self)
      have he : crlf (l :: (d :: ds) :: lines) ++ CR :: LF :: rest =
          l ++ CR :: LF :: (crlf ((d :: ds) :: lines) ++ CR :: LF :: rest) := by
        simp [crlf]
      have hcrlf : memmem [CR, LF, CR, LF]
          (CR :: LF :: (crlf ((d :: ds) :: lines) ++ CR :: LF :: rest)) =
            (memmem [CR, LF, CR, LF] (crlf ((d :: ds) :: lines) ++ CR :: LF :: rest)).map
              (· + 2) := by
        have hp : [CR, LF, CR, LF].isPrefixOf
            (CR :: LF :: (crlf ((d :: ds) :: lines) ++ CR :: LF :: rest)) = false := by
          simp [crlf, List.isPrefixOf, hd]
        rw [memmem, hp, memmem_cons (by decide), Option.map_map]
        rfl
      refine ⟨n + 2 + l.length, ?_, ?_⟩
      · rw [he, memmem_append (h l List.mem_cons_self).2, hcrlf, hn]
        rfl
      · have hsplit : (crlf (l :: (d :: ds) :: lines)).length =
            l.length + 2 + (crlf ((d :: ds) :: lines)).length := by
          simp only [crlf, List.flatMap_cons, List.length_append, List.length_cons, List.length_nil]
        rw [hsplit]
        omega

/-! ### Well-formed requests -/

namespace RequestText

variable {r : RequestText} {rest : List Byte}

theorem not_mem_of_forall {text bytes : List Byte} {x : Byte} (h : ∀ c ∈ text, c ∉ bytes)
    (hx : x ∈ bytes) : x ∉ text := fun hin => h x hin hx

/-- The lines are not empty, and contain no CR if the strings do not. -/
theorem line_of_notMem (hm : CR ∉ r.method) (hu : CR ∉ r.url) (hv : CR ∉ r.version)
    (hh : ∀ header ∈ r.headers, CR ∉ header.1 ∧ CR ∉ header.2) :
    ∀ l ∈ r.lines, l ≠ [] ∧ CR ∉ l := by
  intro l hl
  rcases List.mem_cons.mp hl with rfl | hl
  · refine ⟨by simp [requestLine], ?_⟩
    simp [requestLine, hm, hu, hv, show CR ≠ SP by decide]
  · obtain ⟨header, hin, rfl⟩ := List.mem_map.mp hl
    obtain ⟨hk, hv⟩ := hh header hin
    refine ⟨by simp [headerLine], ?_⟩
    simp [headerLine, hk, hv, show CR ≠ SP by decide, show CR ≠ COLON by decide]

theorem WellFormed.line (h : r.WellFormed) : ∀ l ∈ r.lines, l ≠ [] ∧ CR ∉ l := by
  have hcr : CR ∈ [SP, CR, LF, NUL] := by decide
  refine line_of_notMem (not_mem_of_forall h.method.2 hcr) (not_mem_of_forall h.url.2 hcr)
    (not_mem_of_forall h.version.2 hcr) fun header hin => ?_
  obtain ⟨⟨-, hkey⟩, hvalue, -⟩ := h.headers header hin
  exact ⟨not_mem_of_forall hkey (by decide), not_mem_of_forall hvalue (by decide)⟩

theorem Scannable.line (h : r.Scannable) : ∀ l ∈ r.lines, l ≠ [] ∧ CR ∉ l := by
  have hcr : CR ∈ [SP, CR, LF, NUL] := by decide
  refine line_of_notMem (not_mem_of_forall h.method hcr) (not_mem_of_forall h.url.2 hcr)
    (not_mem_of_forall h.version hcr) fun header hin => ?_
  obtain ⟨hkey, hvalue⟩ := h.headers header hin
  exact ⟨not_mem_of_forall hkey (by decide), not_mem_of_forall hvalue hcr⟩

theorem WellFormed.scannable (h : r.WellFormed) (hsp : r.SpaceFree) : r.Scannable where
  method := h.method.2
  url := h.url
  version := h.version.2
  headers header hin := by
    obtain ⟨⟨-, hkey⟩, hvalue, -⟩ := h.headers header hin
    refine ⟨hkey, fun c hc hin' => ?_⟩
    rcases List.mem_cons.mp hin' with rfl | hin'
    · exact hsp header hin hc
    · exact hvalue c hc hin'

open HttpServer Scan

theorem stops_append {p : Byte → Bool} {text tail : List Byte} {c : Byte}
    (hall : ∀ x ∈ text, p x = true) (hc : p c = false) :
    Stops p (text ++ c :: tail) text (c :: tail) :=
  ⟨rfl, hall, c, tail, rfl, hc⟩

/-- `l` goes on with a byte other than `ch`. -/
def GoesOn (ch : Byte) (l : List Byte) : Prop := ∃ c cs, l = c :: cs ∧ c ≠ ch

theorem goesOn_append {ch c : Byte} {text : List Byte} (h : ch ∉ text) (hc : c ≠ ch)
    (tail : List Byte) :
    GoesOn ch (text ++ c :: tail) := by
  cases text with
  | nil => exact ⟨c, tail, rfl, hc⟩
  | cons d ds => exact ⟨d, _, rfl, fun he => h (he ▸ List.mem_cons_self)⟩

/-- A text is read up to the delimiter behind it, if another byte follows. -/
theorem field_append {text next : List Byte} {ch : Byte} (h : ch ∉ text) (hnext : GoesOn ch next) :
    Field ch (text ++ ch :: next) text next := by
  obtain ⟨c, tail, rfl, hc⟩ := hnext
  refine ⟨c :: tail, [], stops_append (fun x hx => ?_) (by simp), stops_nil (by simpa using hc)⟩
  have hne : x ≠ ch := fun he => h (he ▸ hx)
  simpa using hne

/-- The space in front of a value is skipped. -/
theorem stops_value {value tail : List Byte} (h : SP ∉ value) :
    Stops (· == SP) (SP :: (value ++ CR :: tail)) [SP] (value ++ CR :: tail) := by
  obtain ⟨c, cs, he, hc⟩ := goesOn_append h (show CR ≠ SP by decide) tail
  exact ⟨rfl, by simp, c, cs, he, by simpa using hc⟩

/-- A text without spaces is read up to the end of its line. -/
theorem lastField_crlf {text : List Byte} (hcr : CR ∉ text) (hsp : SP ∉ text) :
    LastField (text ++ CR :: LF :: rest) text rest := by
  refine ⟨CR, LF :: rest, [], LF :: rest, stops_append (fun x hx => ?_) (by decide),
    stops_nil (by decide), Or.inr ⟨LF, by decide, rfl⟩⟩
  have h1 : x ≠ CR := fun he => hcr (he ▸ hx)
  have h2 : x ≠ SP := fun he => hsp (he ▸ hx)
  simp [h1, h2]

theorem headers_crlf : ∀ {headers : List (List Byte × List Byte)},
    (∀ header ∈ headers, (∀ c ∈ header.1, c ∉ [COLON, CR, LF, NUL]) ∧ Word header.2) →
    Headers (crlf (headers.map headerLine) ++ CR :: rest) headers (CR :: rest)
  | [], _ => .done
  | (key, value) :: headers, h => by
      obtain ⟨hkey, hvalue⟩ := h (key, value) List.mem_cons_self
      have ih := headers_crlf fun x hx => h x (List.mem_cons_of_mem _ hx)
      have hcr := not_mem_of_forall hkey (show CR ∈ [COLON, CR, LF, NUL] by decide)
      have hcolon := not_mem_of_forall hkey (show COLON ∈ [COLON, CR, LF, NUL] by decide)
      have hvcr := not_mem_of_forall hvalue (show CR ∈ [SP, CR, LF, NUL] by decide)
      have hvsp := not_mem_of_forall hvalue (show SP ∈ [SP, CR, LF, NUL] by decide)
      have he : crlf (((key, value) :: headers).map headerLine) ++ CR :: rest =
          key ++ COLON :: SP :: (value ++ CR :: LF ::
            (crlf (headers.map headerLine) ++ CR :: rest)) := by
        simp [crlf, headerLine]
      have hfield : Field COLON (crlf (((key, value) :: headers).map headerLine) ++ CR :: rest) key
          (SP :: (value ++ CR :: LF :: (crlf (headers.map headerLine) ++ CR :: rest))) := by
        rw [he]
        exact field_append hcolon ⟨SP, _, rfl, by decide⟩
      obtain ⟨c, cs, hline, hc⟩ : GoesOn CR (crlf (((key, value) :: headers).map headerLine) ++
          CR :: rest) := by
        rw [he]
        exact goesOn_append hcr (by decide) _
      rw [hline] at hfield ⊢
      exact .header hc hfield (stops_value hvsp) (lastField_crlf hvcr hvsp) ih

/-- What the codec leaves of a request is read as the request. -/
theorem request_crlf (h : r.Scannable) (rest : List Byte) :
    Request (crlf r.lines ++ CR :: NUL :: rest) r.method r.url r.version r.headers rest := by
  have he : crlf r.lines ++ CR :: NUL :: rest =
      r.method ++ SP :: (r.url ++ SP :: (r.version ++ CR :: LF ::
        (crlf (r.headers.map headerLine) ++ CR :: NUL :: rest))) := by
    simp [lines, crlf, requestLine]
  rw [he]
  have hsp : SP ∈ [SP, CR, LF, NUL] := by decide
  have hcr := not_mem_of_forall h.version (show CR ∈ [SP, CR, LF, NUL] by decide)
  have hurl := not_mem_of_forall h.url.2 hsp
  have hversion := not_mem_of_forall h.version hsp
  have hgoes : GoesOn SP (r.url ++ SP :: (r.version ++ CR :: LF ::
      (crlf (r.headers.map headerLine) ++ CR :: NUL :: rest))) := by
    obtain ⟨c, cs, hc⟩ := List.exists_cons_of_ne_nil h.url.1
    refine ⟨c, _, by rw [hc]; rfl, fun he => hurl ?_⟩
    rw [hc, ← he]
    exact List.mem_cons_self
  have hcr' : ∀ x ∈ [CR], (x != NUL) = true := by
    intro x hx
    rw [List.mem_singleton.mp hx]
    decide
  have hnul : Stops (· != NUL) (CR :: NUL :: rest) [CR] (NUL :: rest) :=
    ⟨rfl, hcr', NUL, rest, rfl, by decide⟩
  exact ⟨_, _, _, _, [CR], field_append (not_mem_of_forall h.method hsp) hgoes,
    field_append hurl (goesOn_append hversion (by decide) _), lastField_crlf hcr hversion,
    headers_crlf h.headers, hnul⟩

end RequestText

/-! ### The strings of the parse -/

namespace HttpServer

open Scan

/-- The part in front of the first `'\0'`. -/
def cut (text : List Byte) : List Byte := text.takeWhile (· != NUL)

/-- The C string at offset `off`. -/
def cString (mem : List Byte) (off : ℕ) : List Byte := cut (mem.drop off)

/-- What the pointers of an `HttpRequest` point to. -/
def HttpRequest.text (req : HttpRequest) (mem : List Byte) : RequestText where
  method := cString mem req.method
  url := cString mem req.url
  version := cString mem req.version
  headers := req.headers.map fun kv => (cString mem kv.1, cString mem kv.2)

theorem cut_append (rest text : List Byte) : cut (text ++ NUL :: rest) = cut text :=
  takeWhile_append_cons rfl rest text

theorem cut_of_notMem {text : List Byte} (h : NUL ∉ text) : cut text = text := by
  refine List.takeWhile_eq_self_iff.mpr fun c hc => ?_
  have hne : c ≠ NUL := fun he => h (he ▸ hc)
  simpa using hne

theorem cString_of_textAt {mem text : List Byte} {off n : ℕ} (h : TextAt NUL mem off text n) :
    cString mem off = cut text := by
  obtain ⟨rest, h⟩ := h.drop
  rw [cString, h, cut_append]

theorem map_cString {mem : List Byte} {headers : List (List Byte × List Byte)}
    {offs : List (ℕ × ℕ)} (h : List.Forall₂ (fun header off =>
      (∃ n, TextAt NUL mem off.1 header.1 n) ∧ ∃ n, TextAt NUL mem off.2 header.2 n) headers offs) :
    offs.map (fun off => (cString mem off.1, cString mem off.2)) =
      headers.map fun header => (cut header.1, cut header.2) := by
  induction h with
  | nil => rfl
  | cons hx _ ih =>
      obtain ⟨⟨_, hk⟩, _, hv⟩ := hx
      rw [List.map_cons, List.map_cons, ih, cString_of_textAt hk, cString_of_textAt hv]

theorem HttpRequest.Names.text {req : HttpRequest} {mem method url version : List Byte}
    {headers : List (List Byte × List Byte)} (h : req.Names mem method url version headers) :
    req.text mem = ⟨cut method, cut url, cut version,
      headers.map fun header => (cut header.1, cut header.2)⟩ := by
  obtain ⟨⟨_, h1⟩, ⟨_, h2⟩, ⟨_, h3⟩, h4⟩ := h
  unfold HttpRequest.text
  rw [cString_of_textAt h1, cString_of_textAt h2, cString_of_textAt h3, map_cString h4]

/-- A value that was parsed contains no space. -/
theorem Headers.value {l rest : List Byte} {headers : List (List Byte × List Byte)}
    (h : Headers l headers rest) : ∀ header ∈ headers, SP ∉ header.2 := by
  induction h with
  | done => nofun
  | header _ _ _ hlast _ ih =>
      intro header hin
      rcases List.mem_cons.mp hin with rfl | hin
      · obtain ⟨_, _, _, _, hstops, -⟩ := hlast
        intro hsp
        have hp := hstops.all SP hsp
        simp at hp
      · exact ih header hin

end HttpServer

/-- The strings of a request have no end of their own. -/
theorem RequestText.Scannable.cut {r : RequestText} (h : r.Scannable) :
    (⟨HttpServer.cut r.method, HttpServer.cut r.url, HttpServer.cut r.version,
      r.headers.map fun header => (HttpServer.cut header.1, HttpServer.cut header.2)⟩ :
        RequestText) = r := by
  have hword : ∀ {text : List Byte}, RequestText.Word text → HttpServer.cut text = text :=
    fun ht => HttpServer.cut_of_notMem
      (RequestText.not_mem_of_forall ht (show NUL ∈ [SP, CR, LF, NUL] by decide))
  have hheaders : r.headers.map (fun header =>
      (HttpServer.cut header.1, HttpServer.cut header.2)) = r.headers := by
    refine (List.map_congr_left fun header hin => ?_).trans (List.map_id' r.headers)
    obtain ⟨hkey, hvalue⟩ := h.headers header hin
    rw [hword hvalue, HttpServer.cut_of_notMem (RequestText.not_mem_of_forall hkey
      (show NUL ∈ [COLON, CR, LF, NUL] by decide))]
  rw [hword h.method, hword h.url.2, hword h.version, hheaders]

/-! ### `handleRtspRequest` up to the service -/

namespace Buffer

variable {N : ℕ}

/-- The buffer after stores into its readable bytes. -/
def setReadable (b : Buffer N) (mem : List Byte) : Buffer N :=
  { b with vec := b.vec.take b.readIndex ++ mem ++ b.vec.drop b.writeIndex }

theorem setReadable_spec {b : Buffer N} {mem : List Byte} (h : b.Wf)
    (hm : mem.length = b.readable.length) :
    (b.setReadable mem).Wf ∧ (b.setReadable mem).readable = mem := by
  have h1 := h.read_le
  have h2 := h.write_le
  rw [length_readable h, readableBytes] at hm
  have hfront : (b.vec.take b.readIndex).length = b.readIndex := by
    rw [List.length_take]
    omega
  refine ⟨⟨h1, ?_⟩, ?_⟩
  · simp only [setReadable, List.length_append, List.length_drop, hfront, hm]
    omega
  · simp only [setReadable, readable, readableBytes]
    rw [List.append_assoc, List.drop_left' hfront, List.take_left' hm]

/-- The parse of `handleRtspRequest`: the strings of the request, and the buffer from which it was
retrieved. -/
def parseRequest (b : Buffer N) : Option (Buffer N × RequestText) := do
  let (mem, req, readLen) ← HttpServer.scanRtspRequest b.readable
  let (b, _) ← (b.setReadable mem).retrieve readLen
  some (b, req.text mem)

theorem parseRequest_of_scan {b : Buffer N} (h : b.Wf) {mem : List Byte}
    {req : HttpServer.HttpRequest} {readLen : ℕ}
    (hs : HttpServer.scanRtspRequest b.readable = some (mem, req, readLen)) :
    ∃ b', b.parseRequest = some (b', req.text mem) ∧ b'.Wf ∧ b'.readable = mem.drop readLen := by
  obtain ⟨-, hlen, hle⟩ := HttpServer.scanRtspRequest_spec hs
  obtain ⟨hw, hr⟩ := setReadable_spec h hlen
  have hle' : readLen ≤ (b.setReadable mem).readableBytes := by
    rw [← length_readable hw, hr, hlen]
    exact hle
  obtain ⟨b', p, e, hw', hr'⟩ := retrieve_spec hw hle'
  refine ⟨b', ?_, hw', by rw [hr', hr]⟩
  simp only [parseRequest, hs, e, Option.bind_eq_bind, Option.bind_some]

theorem parseRequest_cases {b : Buffer N} (h : b.Wf) {r : Buffer N × RequestText}
    (hp : b.parseRequest = some r) : r.1.Wf ∧ ∃ mem req readLen,
      HttpServer.scanRtspRequest b.readable = some (mem, req, readLen) ∧ r.2 = req.text mem := by
  have hp' := hp
  unfold parseRequest at hp'
  simp only [Option.bind_eq_bind, Option.bind_eq_some_iff] at hp'
  obtain ⟨⟨mem, req, readLen⟩, hs, -⟩ := hp'
  obtain ⟨b', e, hw, -⟩ := parseRequest_of_scan h hs
  obtain rfl := Option.some.inj (e.symm.trans hp)
  exact ⟨hw, mem, req, readLen, hs, rfl⟩

end Buffer

namespace ValidBuffer

variable {N : ℕ}

/-- The codec of the HTTP server. -/
def httpRequestDefaultCallback (b : ValidBuffer N) : Bool × ValidBuffer N :=
  ((Codec.httpRequestDefaultCallback b.raw).1,
    ⟨(Codec.httpRequestDefaultCallback b.raw).2, Codec.httpRequestDefaultCallback_wf b.wf⟩)

def parseRequest (b : ValidBuffer N) : Option (ValidBuffer N × RequestText) :=
  lift b.raw.parseRequest (fun _ hp => (Buffer.parseRequest_cases b.wf hp).1)

theorem parseRequest_of_scan {b : ValidBuffer N} {mem : List Byte} {req : HttpServer.HttpRequest}
    {readLen : ℕ} (hs : HttpServer.scanRtspRequest b.bytes = some (mem, req, readLen)) :
    ∃ b', b.parseRequest = some (b', req.text mem) ∧ b'.bytes = mem.drop readLen := by
  obtain ⟨b', e, hw, hr⟩ := Buffer.parseRequest_of_scan b.wf hs
  exact ⟨⟨b', hw⟩, lift_some e, hr⟩

theorem scan_of_parseRequest {b b' : ValidBuffer N} {r : RequestText}
    (hp : b.parseRequest = some (b', r)) : ∃ mem req readLen,
      HttpServer.scanRtspRequest b.bytes = some (mem, req, readLen) ∧ r = req.text mem := by
  cases h : b.raw.parseRequest with
  | none =>
      unfold parseRequest at hp
      rw [lift_none h] at hp
      cases hp
  | some x =>
      unfold parseRequest at hp
      rw [lift_some h] at hp
      obtain ⟨-, mem, req, readLen, hs, hx⟩ := Buffer.parseRequest_cases b.wf h
      exact ⟨mem, req, readLen, hs, (Prod.mk.inj (Option.some.inj hp)).2.symm.trans hx⟩

/-- The codec reports a request that is there as a whole, and marks its end. -/
theorem codec_encode {b : ValidBuffer N} {r : RequestText} {rest : List Byte}
    (hline : ∀ l ∈ r.lines, l ≠ [] ∧ CR ∉ l) (hb : b.bytes = r.encode ++ rest) :
    b.httpRequestDefaultCallback.1 = true ∧
      b.httpRequestDefaultCallback.2.bytes =
        RequestText.crlf r.lines ++ CR :: NUL :: rest := by
  have he : r.encode ++ rest = RequestText.crlf r.lines ++ CR :: LF :: rest := by
    simp [RequestText.encode]
  obtain ⟨n, hn, hlen⟩ := memmem_crlf rest (List.cons_ne_nil r.requestLine _) hline
  rw [← RequestText.lines, ← he, ← hb] at hn
  have hfind : b.raw.findStr [CR, LF, CR, LF] = some n := hn
  have hc : Codec.httpRequestDefaultCallback b.raw =
      (true, { b.raw with vec := b.raw.vec.set (b.raw.readIndex + n + 3) NUL }) := by
    rw [Codec.httpRequestDefaultCallback, hfind]
  obtain ⟨-, pc, hpc, -, hread⟩ := Codec.httpRequestDefaultCallback_spec b.wf hc
  obtain rfl : n = pc := Option.some.inj (hfind.symm.trans hpc)
  refine ⟨congrArg Prod.fst hc, ?_⟩
  have hbytes : b.httpRequestDefaultCallback.2.bytes = b.bytes.set (n + 3) NUL := by
    show (Codec.httpRequestDefaultCallback b.raw).2.readable = _
    rw [hc]
    exact hread
  rw [← RequestText.lines] at hlen
  rw [hbytes, hb, he, List.set_append_right _ _ (by omega)]
  have hoff : n + 3 - (RequestText.crlf r.lines).length = 1 := by omega
  rw [hoff]
  rfl

/-- A request is parsed, and retrieved, whatever follows it. -/
theorem parseRequest_encode {b : ValidBuffer N} {r : RequestText} {rest : List Byte}
    (hr : r.Scannable) (hb : b.bytes = r.encode ++ rest) :
    ∃ b', b.httpRequestDefaultCallback.2.parseRequest = some (b', r) ∧ b'.bytes = rest := by
  have hreq := r.request_crlf hr rest
  rw [← (codec_encode hr.line hb).2] at hreq
  obtain ⟨mem, req, readLen, hs, hrest, hnames⟩ := HttpServer.scanRtspRequest_of_request hreq
  obtain ⟨b', hp, hb'⟩ := parseRequest_of_scan hs
  rw [hnames.text, hr.cut] at hp
  exact ⟨b', hp, hb'.trans hrest⟩

/-- **Parsing a request**: when the read buffer holds exactly a well-formed request, the codec
check succeeds, and what is parsed is the request exactly when no header value contains a
space. -/
theorem parse_encode (b : ValidBuffer N) (r : RequestText) (hr : r.WellFormed)
    (hb : b.bytes = r.encode) : b.httpRequestDefaultCallback.1 = true ∧
      ((∃ b', b.httpRequestDefaultCallback.2.parseRequest = some (b', r)) ↔ r.SpaceFree) := by
  have hb' : b.bytes = r.encode ++ [] := by rw [hb, List.append_nil]
  refine ⟨(codec_encode hr.line hb').1, ?_, ?_⟩
  · rintro ⟨b', hp⟩
    obtain ⟨mem, req, readLen, hs, rfl⟩ := scan_of_parseRequest hp
    obtain ⟨⟨method, url, version, headers, hreq⟩, -⟩ := HttpServer.scanRtspRequest_spec hs
    obtain ⟨mem', req', readLen', hs', -, hnames⟩ := HttpServer.scanRtspRequest_of_request hreq
    rw [hs] at hs'
    obtain ⟨rfl, rfl, rfl⟩ : mem = mem' ∧ req = req' ∧ readLen = readLen' := by
      simpa using hs'
    obtain ⟨_, _, _, _, _, _, _, _, hheaders, _⟩ := hreq
    intro header hin
    rw [hnames.text] at hin
    obtain ⟨header', hin', rfl⟩ := List.mem_map.mp hin
    -- what is parsed as a value stops at the first space
    exact fun hsp => hheaders.value header' hin' ((List.takeWhile_sublist _).subset hsp)
  · intro hsp
    obtain ⟨b', hp, -⟩ := parseRequest_encode (hr.scannable hsp) hb'
    exact ⟨b', hp⟩

/-- A request for `/` with the headers `k: v` and `l: b`. -/
def twoHeaders (v : List Byte) : RequestText :=
  ⟨[71, 69, 84], [47], [72, 84, 84, 80, 47, 49, 46, 49], [([107], v), ([108], [98])]⟩

theorem wellFormed_twoHeaders {v : List Byte} (hv : RequestText.Value v) :
    (twoHeaders v).WellFormed := by
  have hmethod : RequestText.Token [71, 69, 84] := by decide
  have hurl : RequestText.Token [47] := by decide
  have hversion : RequestText.Token [72, 84, 84, 80, 47, 49, 46, 49] := by decide
  have hk : RequestText.Key [107] := by decide
  have hl : RequestText.Key [108] := by decide
  have hb : RequestText.Value [98] := by decide
  refine ⟨hmethod, hurl, hversion, fun h hin => ?_⟩
  rcases List.mem_cons.mp hin with rfl | hin
  · exact ⟨hk, hv⟩
  · obtain rfl := List.mem_singleton.mp hin
    exact ⟨hl, hb⟩

/-- A value without a space is parsed, the value `"a b"` is not. -/
theorem parse_encode_twoHeaders :
    let parse := fun v : List Byte => (((make 8192).append
      (twoHeaders v).encode).httpRequestDefaultCallback.2).parseRequest
    (∃ b', parse [97] = some (b', twoHeaders [97])) ∧
      ¬ ∃ b', parse [97, 32, 98] = some (b', twoHeaders [97, 32, 98]) := by
  have hw := wellFormed_twoHeaders (show RequestText.Value [97] by decide)
  have hw' := wellFormed_twoHeaders (show RequestText.Value [97, 32, 98] by decide)
  have h := (parse_encode ((make 8192).append (twoHeaders [97]).encode) _ hw (by simp)).2
  have h' := (parse_encode ((make 8192).append (twoHeaders [97, 32, 98]).encode) _ hw' (by simp)).2
  refine ⟨h.mpr ?_, fun hp => ?_⟩
  · unfold RequestText.SpaceFree
    decide
  · exact absurd (h'.mp hp ([107], [97, 32, 98]) List.mem_cons_self) (by decide)

/-- The value `"a b"` is read as `"a"`, and the header behind it is lost. -/
theorem value_cut : RequestText.WellFormed (twoHeaders [97, 32, 98]) ∧
    ∃ b : ValidBuffer 8192, b.bytes = (twoHeaders [97, 32, 98]).encode ∧
      b.httpRequestDefaultCallback.1 = true ∧
      ∃ b' r, b.httpRequestDefaultCallback.2.parseRequest = some (b', r) ∧
        r.headers = [([107], [97])] := by
  have hw := wellFormed_twoHeaders (show RequestText.Value [97, 32, 98] by decide)
  have hb : ((make 8192).append (twoHeaders [97, 32, 98]).encode).bytes =
      (twoHeaders [97, 32, 98]).encode ++ [] := by simp
  obtain ⟨hc, hbytes⟩ := codec_encode hw.line hb
  have hs : ∃ mem req readLen, HttpServer.scanRtspRequest
      (RequestText.crlf (twoHeaders [97, 32, 98]).lines ++ [CR, NUL]) = some (mem, req, readLen) ∧
        (req.text mem).headers = [([107], [97])] :=
    ⟨_, _, _, rfl, by decide⟩
  obtain ⟨mem, req, readLen, hs, htext⟩ := hs
  rw [← hbytes] at hs
  obtain ⟨b', hp, -⟩ := parseRequest_of_scan hs
  exact ⟨hw, _, by simp, hc, b', _, hp, htext⟩

end ValidBuffer

end Dagger
