import Dagger.HttpParse

/-! # A request head and what follows it

The bytes behind a request are another request, or a part of one, or anything else.  The codec
and the scan of `handleRtspRequest` leave them alone (`head_parsed_iff`): the end of the head is
found by the `'\0'` that the codec has put there.

The strings of a head may be empty, except the url: `readField` skips every space behind the
method, so that a url without bytes cannot be told from none. -/

namespace Dagger

namespace RequestText

/-- Strings without space, CR, LF and `'\0'`, and keys without `':'`. -/
structure Head (r : RequestText) : Prop where
  method : Word r.method
  url : Word r.url
  version : Word r.version
  headers : ∀ header ∈ r.headers, Word header.1 ∧ COLON ∉ header.1 ∧ Word header.2

variable {r : RequestText}

theorem Head.scannable (h : r.Head) (hurl : r.url ≠ []) : r.Scannable where
  method := h.method
  url := ⟨hurl, h.url⟩
  version := h.version
  headers header hin := by
    obtain ⟨hkey, hcolon, hvalue⟩ := h.headers header hin
    refine ⟨fun c hc hin' => ?_, hvalue⟩
    rcases List.mem_cons.mp hin' with rfl | hin'
    · exact hcolon hc
    · exact hkey c hc (List.mem_cons_of_mem _ hin')

theorem Head.line (h : r.Head) : ∀ l ∈ r.lines, l ≠ [] ∧ CR ∉ l := by
  have hcr : CR ∈ [SP, CR, LF, NUL] := by decide
  refine line_of_notMem (not_mem_of_forall h.method hcr) (not_mem_of_forall h.url hcr)
    (not_mem_of_forall h.version hcr) fun header hin => ?_
  obtain ⟨hkey, -, hvalue⟩ := h.headers header hin
  exact ⟨not_mem_of_forall hkey hcr, not_mem_of_forall hvalue hcr⟩

end RequestText

namespace HttpServer

open Scan RequestText

variable {l pre rest text next : List Byte} {ch : Byte}

/-- Where a loop halts depends on the bytes only. -/
theorem stops_dropWhile {p : Byte → Bool} (h : Stops p l pre rest) : l.dropWhile p = rest := by
  obtain ⟨c, cs, rfl, hc⟩ := h.head
  rw [h.eq, List.dropWhile_append_of_pos h.all, List.dropWhile_cons_of_neg (by simp [hc])]

/-- Behind a field, its delimiters are skipped. -/
theorem Field.rest_eq (h : Field ch l text rest) :
    rest = (l.dropWhile (· != ch)).tail.dropWhile (· == ch) := by
  obtain ⟨tail, seps, h1, h2⟩ := h
  rw [stops_dropWhile h1, List.tail_cons, stops_dropWhile h2]

/-- A field that starts with a byte other than its delimiter and `'\0'` names a string that is not
empty. -/
theorem Field.cut_ne_nil (h : Field ch l text rest) (hch : GoesOn ch l) (hnul : GoesOn NUL l) :
    cut text ≠ [] := by
  obtain ⟨tail, seps, h1, -⟩ := h
  obtain ⟨c, cs, rfl, hc⟩ := hch
  obtain ⟨c', cs', he, hc'⟩ := hnul
  obtain ⟨rfl, rfl⟩ := List.cons.inj he
  have heq := h1.eq
  cases text with
  | nil => exact absurd (List.cons.inj heq).1 hc
  | cons d ds =>
      obtain ⟨rfl, -⟩ := List.cons.inj heq
      have hne : (c != NUL) = true := by simpa using hc'
      simp [cut, hne]

end HttpServer

namespace ValidBuffer

open RequestText HttpServer

variable {N : ℕ} {b b' : ValidBuffer N} {r : RequestText} {rest : List Byte}

/-- An empty url is not found. -/
theorem parseRequest_url (hr : r.Head) (hb : b.bytes = r.encode ++ rest)
    (hp : b.httpRequestDefaultCallback.2.parseRequest = some (b', r)) : r.url ≠ [] := by
  intro hurl
  obtain ⟨mem, req, readLen, hs, hreq⟩ := scan_of_parseRequest hp
  rw [(codec_encode hr.line hb).2] at hs
  obtain ⟨⟨method, url, version, headers, hrequest⟩, -⟩ := scanRtspRequest_spec hs
  obtain ⟨mem', req', readLen', hs', -, hnames⟩ := scanRtspRequest_of_request hrequest
  rw [hs] at hs'
  obtain ⟨rfl, rfl, rfl⟩ : mem = mem' ∧ req = req' ∧ readLen = readLen' := by simpa using hs'
  have hcut : HttpServer.cut url = [] := by
    rw [← hurl, hreq, hnames.text]
  obtain ⟨l₁, l₂, l₃, l₄, skipped, hmethod, hfield, -⟩ := hrequest
  have hsp : SP ∈ [SP, CR, LF, NUL] := by decide
  have hnul : NUL ∈ [SP, CR, LF, NUL] := by decide
  -- both spaces behind the method are skipped
  have hl₁ : l₁ = r.version ++ CR :: LF ::
      (crlf (r.headers.map headerLine) ++ CR :: NUL :: rest) := by
    have he : crlf r.lines ++ CR :: NUL :: rest = r.method ++ SP :: SP :: (r.version ++ CR :: LF ::
        (crlf (r.headers.map headerLine) ++ CR :: NUL :: rest)) := by
      simp [lines, crlf, requestLine, hurl]
    have hpass : ∀ x ∈ r.method, (x != SP) = true := by
      intro x hx
      have hne : x ≠ SP := fun he => not_mem_of_forall hr.method hsp (he ▸ hx)
      simpa using hne
    obtain ⟨c, cs, hc, hne⟩ := goesOn_append (not_mem_of_forall hr.version hsp)
      (show CR ≠ SP by decide) (LF :: (crlf (r.headers.map headerLine) ++ CR :: NUL :: rest))
    rw [hmethod.rest_eq, he, List.dropWhile_append_of_pos hpass, hc]
    simp [hne]
  refine hfield.cut_ne_nil ?_ ?_ hcut
  · rw [hl₁]
    exact goesOn_append (not_mem_of_forall hr.version hsp) (by decide) _
  · rw [hl₁]
    exact goesOn_append (not_mem_of_forall hr.version hnul) (by decide) _

/-- **A head is parsed, and what follows it left alone**, whatever that is: the codec reports the
head, and the scan takes exactly its bytes and reads exactly its strings, if the url is not
empty.  A head with an empty url it never reads. -/
theorem head_parsed_iff (b : ValidBuffer N) (r : RequestText) (rest : List Byte) (hr : r.Head)
    (hb : b.bytes = r.encode ++ rest) : b.httpRequestDefaultCallback.1 = true ∧
      ((∃ b', b.httpRequestDefaultCallback.2.parseRequest = some (b', r) ∧ b'.bytes = rest) ↔
        r.url ≠ []) ∧
      (r.url = [] → ∀ b', b.httpRequestDefaultCallback.2.parseRequest ≠ some (b', r)) := by
  refine ⟨(codec_encode hr.line hb).1, ⟨?_, ?_⟩, ?_⟩
  · rintro ⟨b', hp, -⟩
    exact parseRequest_url hr hb hp
  · intro hurl
    exact parseRequest_encode (hr.scannable hurl) hb
  · intro hurl b' hp
    exact parseRequest_url hr hb hp hurl

/-- A head without headers, whose url is `url`. -/
def bareHead (url : List Byte) : RequestText := ⟨[71, 69, 84], url, [72], []⟩

theorem head_bareHead {url : List Byte} (h : Word url) : (bareHead url).Head := by
  have hmethod : Word [71, 69, 84] := by
    unfold Word
    decide
  have hversion : Word [72] := by
    unfold Word
    decide
  exact ⟨hmethod, h, hversion, nofun⟩

/-- The start of a second request stays in the buffer; a head without an url is not read. -/
theorem head_parsed_iff_bareHead :
    (∃ b : ValidBuffer 8192, b.bytes = (bareHead [47]).encode ++ [71, 69] ∧
      b.httpRequestDefaultCallback.1 = true ∧
      ∃ b', b.httpRequestDefaultCallback.2.parseRequest = some (b', bareHead [47]) ∧
        b'.bytes = [71, 69]) ∧
    ∃ b : ValidBuffer 8192, b.bytes = (bareHead []).encode ++ [71, 69] ∧
      ∀ b', b.httpRequestDefaultCallback.2.parseRequest ≠ some (b', bareHead []) := by
  have hhead : (bareHead [47]).Head := head_bareHead (by unfold Word; decide)
  have hempty : (bareHead []).Head := head_bareHead nofun
  have hb : ∀ url, ((make 8192).append ((bareHead url).encode ++ [71, 69])).bytes =
      (bareHead url).encode ++ [71, 69] := by simp
  obtain ⟨hcodec, hparsed, -⟩ := head_parsed_iff _ _ _ hhead (hb [47])
  obtain ⟨-, -, hnever⟩ := head_parsed_iff _ _ _ hempty (hb [])
  exact ⟨⟨_, hb [47], hcodec, hparsed.mpr (by decide)⟩, _, hb [], hnever rfl⟩

/-- `"GET  H"`: the url would be empty, and the scan leaves the readable bytes. -/
theorem empty_url_lost : (bareHead []).Head ∧ ∃ b : ValidBuffer 8192,
    b.bytes = (bareHead []).encode ∧ b.httpRequestDefaultCallback.1 = true ∧
      ¬ ∃ b' r, b.httpRequestDefaultCallback.2.parseRequest = some (b', r) := by
  have hhead : (bareHead []).Head := head_bareHead nofun
  have hb : ((make 8192).append (bareHead []).encode).bytes = (bareHead []).encode ++ [] := by simp
  obtain ⟨hc, hbytes⟩ := codec_encode hhead.line hb
  refine ⟨hhead, _, by simp, hc, ?_⟩
  rintro ⟨b', r, hp⟩
  obtain ⟨mem, req, readLen, hs, -⟩ := scan_of_parseRequest hp
  have hnone : scanRtspRequest (crlf (bareHead []).lines ++ [CR, NUL]) = none := rfl
  rw [hbytes, hnone] at hs
  cases hs

end ValidBuffer

end Dagger
