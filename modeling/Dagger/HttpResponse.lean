import Dagger.DecimalText
import Dagger.RtspServer

/-! # The bytes of a response

`addHeader` and `addBody` of `HttpResponse` (`src/HttpServer.h`) are called in any order: each adds
a line to one string, and `addBody` replaces the body.  `bytes_respond` gives the bytes that come
of it.

`Framed` is what a reader needs of the bytes to find the end of the body: header lines up to an
empty one, of which exactly one gives the length. -/

namespace Dagger

namespace HttpResponse

open HttpServer RequestText UnsignedNumeral

/-- `addBody(str, len)`. -/
def addBodyOfLen (str : List Byte) (len : ℕ) (r : HttpResponse) : HttpResponse :=
  { r.addHeader (chars "content-length") (chars (toString len)) with response_body := str.take len }

/-- A call.  Keys and values are C strings. -/
inductive Call where
  | addHeader (key value : List Byte)
  | addBodyOfLen (str : List Byte) (len : ℕ) (h : len ≤ str.length)
  | addBody (body : List Byte)

namespace Call

def run (r : HttpResponse) : Call → HttpResponse
  | addHeader key value => r.addHeader (cut key) (cut value)
  | addBodyOfLen str len _ => r.addBodyOfLen str len
  | addBody body => r.addBody body

def key? : Call → Option (List Byte)
  | addHeader key _ => some (cut key)
  | _ => none

def body? : Call → Option (List Byte)
  | addHeader .. => none
  | addBodyOfLen str len _ => some (str.take len)
  | addBody body => some body

/-- The header line that a call adds. -/
def line : Call → List Byte
  | addHeader key value => headerLine (cut key, cut value)
  | addBodyOfLen _ len _ => headerLine (chars "content-length", decimal len)
  | addBody body => headerLine (chars "content-length", decimal body.length)

end Call

/-- The response after some calls. -/
def respond (calls : List Call) : HttpResponse := calls.foldl Call.run {}

/-- The keys given to `addHeader`. -/
def keys (calls : List Call) : List (List Byte) := calls.filterMap Call.key?

/-- The bodies given to `addBody`. -/
def bodies (calls : List Call) : List (List Byte) := calls.filterMap Call.body?

def statusLine : List Byte := chars "HTTP/1.1 200 OK"

/-- The header lines of every response. -/
def defaultLines : List (List Byte) :=
  [chars "content-type: text/html; charset=utf-8", chars "connection: close"]

variable {r : HttpResponse} {call : Call} {calls : List Call} {key value body : List Byte}

/-! ### The bytes after some calls -/

theorem chars_toString (n : ℕ) : chars (toString n) = decimal n := toUTF8_toString n

theorem addBody_eq (body : List Byte) (r : HttpResponse) :
    r.addBody body = r.addBodyOfLen body body.length := by
  unfold addBody addBodyOfLen
  rw [List.take_length]

theorem headers_addHeader : (r.addHeader key value).headers =
    r.headers ++ crlf [headerLine (key, value)] := by
  have hsep : chars ": " = [COLON, SP] := by decide
  have hend : chars "\r\n" = [CR, LF] := by decide
  unfold addHeader
  simp [hsep, hend, crlf, headerLine]

theorem headers_addBodyOfLen {str : List Byte} {len : ℕ} : (r.addBodyOfLen str len).headers =
    r.headers ++ crlf [headerLine (chars "content-length", decimal len)] := by
  refine headers_addHeader.trans ?_
  rw [chars_toString]

theorem headers_run (call : Call) (r : HttpResponse) :
    (call.run r).headers = r.headers ++ crlf [call.line] := by
  cases call with
  | addHeader key value => exact headers_addHeader
  | addBodyOfLen str len h => exact headers_addBodyOfLen
  | addBody body =>
      show (r.addBody body).headers = _
      rw [addBody_eq]
      exact headers_addBodyOfLen

theorem response_line_run (call : Call) (r : HttpResponse) :
    (call.run r).response_line = r.response_line := by
  cases call <;> rfl

theorem response_body_run (call : Call) (r : HttpResponse) :
    (call.run r).response_body = call.body?.getD r.response_body := by
  cases call <;> rfl

theorem crlf_append (lines lines' : List (List Byte)) :
    crlf (lines ++ lines') = crlf lines ++ crlf lines' := List.flatMap_append

theorem response_line_foldl : ∀ (calls : List Call) (r : HttpResponse),
    (calls.foldl Call.run r).response_line = r.response_line
  | [], _ => rfl
  | call :: calls, r => (response_line_foldl calls _).trans (response_line_run call r)

theorem headers_foldl : ∀ (calls : List Call) (r : HttpResponse),
    (calls.foldl Call.run r).headers = r.headers ++ crlf (calls.map Call.line)
  | [], r => (List.append_nil r.headers).symm
  | call :: calls, r => by
      have ih := headers_foldl calls (call.run r)
      rw [headers_run, List.append_assoc, ← crlf_append] at ih
      exact ih

/-- The last body is kept. -/
theorem response_body_foldl : ∀ (calls : List Call) (r : HttpResponse),
    (calls.foldl Call.run r).response_body = (bodies calls).getLast?.getD r.response_body
  | [], _ => rfl
  | call :: calls, r => by
      have ih := response_body_foldl calls (call.run r)
      rw [response_body_run] at ih
      refine ih.trans ?_
      unfold bodies
      cases hbody : call.body? with
      | none =>
          rw [List.filterMap_cons_none hbody]
          rfl
      | some body =>
          rw [List.filterMap_cons_some hbody, List.getLast?_cons]
          rfl

/-- The header lines of a response. -/
def fieldLines (calls : List Call) : List (List Byte) := defaultLines ++ calls.map Call.line

/-- A response is the status line, the header lines, an empty line and the last body. -/
theorem bytes_respond (hbody : (bodies calls).getLast? = some body) :
    (respond calls).bytes = crlf (statusLine :: fieldLines calls) ++ CR :: LF :: body := by
  have hstatus : chars "HTTP/1.1 200 OK\r\n" = crlf [statusLine] := by decide
  have hdefault : chars "content-type: text/html; charset=utf-8\r\nconnection: close\r\n" =
      crlf defaultLines := by decide
  have hend : chars "\r\n" = [CR, LF] := by decide
  unfold bytes respond
  rw [response_line_foldl, headers_foldl, response_body_foldl, hbody, hstatus, hdefault, hend,
    ← crlf_append, ← crlf_append]
  rw [List.append_assoc]
  rfl

/-! ### What a reader makes of the bytes -/

/-- Free of CR and LF. -/
def OneLine (text : List Byte) : Prop := CR ∉ text ∧ LF ∉ text

instance (text : List Byte) : Decidable (OneLine text) := inferInstanceAs (Decidable (_ ∧ _))

def Call.Plain : Call → Prop
  | addHeader key value => OneLine (cut key) ∧ OneLine (cut value)
  | _ => True

instance : DecidablePred Call.Plain
  | .addHeader key value => inferInstanceAs (Decidable (OneLine (cut key) ∧ OneLine (cut value)))
  | .addBodyOfLen .. => instDecidableTrue
  | .addBody _ => instDecidableTrue

/-- The name of a header ends at the first colon of its line. -/
def fieldName (line : List Byte) : List Byte := line.takeWhile (· ≠ COLON)

/-- The value follows the colon and any spaces. -/
def fieldValue (line : List Byte) : List Byte :=
  (line.dropWhile (· ≠ COLON)).tail.dropWhile (· = SP)

/-- The reader applies `fold` to the bytes of names before it compares them: `id`, or what makes
upper and lower case the same. -/
def isContentLength (fold : Byte → Byte) (line : List Byte) : Bool :=
  (fieldName line).map fold = (chars "content-length").map fold

/-- The status line, header lines, an empty line and `body`, whose length is the value of exactly
one header line. -/
def Framed (fold : Byte → Byte) (bytes body : List Byte) : Prop :=
  ∃ fields length, bytes = crlf (statusLine :: fields) ++ CR :: LF :: body ∧
    (∀ line ∈ fields, COLON ∈ line ∧ OneLine line) ∧
    fields.filter (isContentLength fold) = [length] ∧ fieldValue length = decimal body.length

variable {fold : Byte → Byte} {line : List Byte}

theorem ne_of_notMem {c : Byte} {text : List Byte} (h : c ∉ text) :
    ∀ x ∈ text, decide (x ≠ c) = true := by
  intro x hx
  rw [decide_eq_true_iff]
  rintro rfl
  exact h hx

theorem takeWhile_ne_append {c : Byte} {text : List Byte} (rest : List Byte) (h : c ∉ text) :
    (text ++ c :: rest).takeWhile (· ≠ c) = text := by
  rw [Scan.takeWhile_append_cons (by simp), List.takeWhile_eq_self_iff]
  exact ne_of_notMem h

/-- Lines that are not empty can be told apart. -/
theorem crlf_append_inj {rest rest' : List Byte} : ∀ {lines lines' : List (List Byte)},
    (∀ l ∈ lines, l ≠ [] ∧ CR ∉ l) → (∀ l ∈ lines', l ≠ [] ∧ CR ∉ l) →
    crlf lines ++ CR :: LF :: rest = crlf lines' ++ CR :: LF :: rest' → lines = lines'
  | [], [], _, _, _ => rfl
  | [], l' :: lines', _, h', he => by
      obtain ⟨hne, hcr⟩ := h' l' List.mem_cons_self
      obtain ⟨c, cs, rfl⟩ := List.exists_cons_of_ne_nil hne
      exact absurd (List.mem_cons.mpr (Or.inl (List.cons.inj he).1)) hcr
  | l :: lines, [], h, _, he => by
      obtain ⟨hne, hcr⟩ := h l List.mem_cons_self
      obtain ⟨c, cs, rfl⟩ := List.exists_cons_of_ne_nil hne
      exact absurd (List.mem_cons.mpr (Or.inl (List.cons.inj he).1.symm)) hcr
  | l :: lines, l' :: lines', h, h', he => by
      have hsplit : ∀ (l : List Byte) (lines : List (List Byte)) (rest : List Byte),
          crlf (l :: lines) ++ rest = l ++ CR :: LF :: (crlf lines ++ rest) := by
        intro l lines rest
        simp [crlf]
      rw [hsplit, hsplit] at he
      have hl := congrArg (List.takeWhile (· ≠ CR)) he
      rw [takeWhile_ne_append _ (h l List.mem_cons_self).2,
        takeWhile_ne_append _ (h' l' List.mem_cons_self).2] at hl
      subst hl
      have hrest := (List.cons.inj (List.cons.inj (List.append_cancel_left he)).2).2
      rw [crlf_append_inj (fun x hx => h x (List.mem_cons_of_mem _ hx))
        (fun x hx => h' x (List.mem_cons_of_mem _ hx)) hrest]

theorem OneLine.append {text text' : List Byte} (h : OneLine text) (h' : OneLine text') :
    OneLine (text ++ text') :=
  ⟨fun hin => (List.mem_append.mp hin).elim h.1 h'.1,
    fun hin => (List.mem_append.mp hin).elim h.2 h'.2⟩

theorem oneLine_decimal (n : ℕ) : OneLine (decimal n) := by
  refine ⟨fun hin => ?_, fun hin => ?_⟩
  · exact absurd (isDigit_of_mem_decimal hin) (by decide)
  · exact absurd (isDigit_of_mem_decimal hin) (by decide)

theorem oneLine_headerLine (hkey : OneLine key) (hvalue : OneLine value) :
    COLON ∈ headerLine (key, value) ∧ OneLine (headerLine (key, value)) := by
  have hsep : OneLine [COLON, SP] := by decide
  refine ⟨?_, (hkey.append hsep).append hvalue⟩
  exact List.mem_append_left _ (List.mem_append_right _ List.mem_cons_self)

theorem oneLine_line (h : call.Plain) : COLON ∈ call.line ∧ OneLine call.line := by
  have hname : OneLine (chars "content-length") := by decide
  cases call with
  | addHeader key value => exact oneLine_headerLine h.1 h.2
  | addBodyOfLen str len hlen => exact oneLine_headerLine hname (oneLine_decimal len)
  | addBody body => exact oneLine_headerLine hname (oneLine_decimal body.length)

theorem oneLine_fieldLines (h : ∀ call ∈ calls, call.Plain) :
    ∀ line ∈ fieldLines calls, COLON ∈ line ∧ OneLine line := by
  have hdefault : ∀ line ∈ defaultLines, COLON ∈ line ∧ OneLine line := by decide
  intro line hline
  rcases List.mem_append.mp hline with hline | hline
  · exact hdefault line hline
  · obtain ⟨call, hcall, rfl⟩ := List.mem_map.mp hline
    exact oneLine_line (h call hcall)

/-! ### The header lines that give a length -/

theorem headerLine_eq (key value : List Byte) :
    headerLine (key, value) = key ++ COLON :: SP :: value := by
  simp [headerLine]

theorem isContentLength_headerLine (fold : Byte → Byte) (key value : List Byte) :
    isContentLength fold (headerLine (key, value)) = isContentLength fold key := by
  unfold isContentLength fieldName
  rw [headerLine_eq, Scan.takeWhile_append_cons (by simp)]

theorem isContentLength_length (fold : Byte → Byte) (value : List Byte) :
    isContentLength fold (headerLine (chars "content-length", value)) = true := by
  have hname : fieldName (chars "content-length") = chars "content-length" := by decide
  rw [isContentLength_headerLine]
  unfold isContentLength
  rw [hname, decide_eq_true_iff]

theorem fieldValue_length (n : ℕ) :
    fieldValue (headerLine (chars "content-length", decimal n)) = decimal n := by
  have hname : COLON ∉ chars "content-length" := by decide
  obtain ⟨c, cs, hc⟩ := List.exists_cons_of_ne_nil (decimal_ne_nil n)
  have hsp : c ≠ SP := by
    rintro rfl
    have hdigit : isDigit SP = true := isDigit_of_mem_decimal (hc ▸ List.mem_cons_self)
    exact absurd hdigit (by decide)
  unfold fieldValue
  rw [headerLine_eq, List.dropWhile_append_of_pos (ne_of_notMem hname),
    List.dropWhile_cons_of_neg (by simp), List.tail_cons, List.dropWhile_cons_of_pos (by simp), hc,
    List.dropWhile_cons_of_neg (by simpa using hsp)]

theorem filter_defaultLines (fold : Byte → Byte) :
    defaultLines.filter (isContentLength fold) = [] := by
  have hne : ∀ line ∈ defaultLines, (fieldName line).length ≠ (chars "content-length").length := by
    decide
  refine List.filter_eq_nil_iff.mpr fun line hline he => hne line hline ?_
  have hlength := congrArg List.length (of_decide_eq_true he)
  rwa [List.length_map, List.length_map] at hlength

/-- A call gives a key or a body, and its line is made of that. -/
theorem line_cases (call : Call) :
    (∃ key value, call.key? = some key ∧ call.body? = none ∧ call.line = headerLine (key, value)) ∨
      ∃ body, call.key? = none ∧ call.body? = some body ∧
        call.line = headerLine (chars "content-length", decimal body.length) := by
  cases call with
  | addHeader key value => exact Or.inl ⟨cut key, cut value, rfl, rfl, rfl⟩
  | addBodyOfLen str len h =>
      refine Or.inr ⟨str.take len, rfl, rfl, ?_⟩
      rw [List.length_take, Nat.min_eq_left h]
      rfl
  | addBody body => exact Or.inr ⟨body, rfl, rfl, rfl⟩

/-- Every call of `addBody` adds such a line, and so does every key that names the length. -/
theorem length_filter_line (fold : Byte → Byte) : ∀ calls : List Call,
    ((calls.map Call.line).filter (isContentLength fold)).length =
      (bodies calls).length + ((keys calls).filter (isContentLength fold)).length
  | [] => rfl
  | call :: calls => by
      have ih := length_filter_line fold calls
      unfold bodies keys at ih ⊢
      obtain ⟨key, value, hkey, hbody, hline⟩ | ⟨body, hkey, hbody, hline⟩ := line_cases call
      · rw [List.map_cons, hline, List.filterMap_cons_none hbody, List.filterMap_cons_some hkey,
          List.filter_cons, List.filter_cons, isContentLength_headerLine]
        split_ifs
        · rw [List.length_cons, List.length_cons, ih]
          omega
        · exact ih
      · rw [List.map_cons, hline, List.filterMap_cons_some hbody, List.filterMap_cons_none hkey,
          List.filter_cons_of_pos (isContentLength_length fold _), List.length_cons,
          List.length_cons, ih]
        omega

theorem length_filter_fieldLines (fold : Byte → Byte) (calls : List Call) :
    ((fieldLines calls).filter (isContentLength fold)).length =
      (bodies calls).length + ((keys calls).filter (isContentLength fold)).length := by
  unfold fieldLines
  rw [List.filter_append, filter_defaultLines, List.nil_append, length_filter_line]

/-- Where the bytes are framed, the header lines are those of the calls. -/
theorem Framed.length_filter (hplain : ∀ call ∈ calls, call.Plain)
    (hbody : (bodies calls).getLast? = some body) (h : Framed fold (respond calls).bytes body) :
    (bodies calls).length + ((keys calls).filter (isContentLength fold)).length = 1 := by
  obtain ⟨fields, length, hbytes, hfields, hfilter, -⟩ := h
  have hstatus : statusLine ≠ [] ∧ CR ∉ statusLine := by decide
  have hlines : ∀ {fields : List (List Byte)}, (∀ line ∈ fields, COLON ∈ line ∧ OneLine line) →
      ∀ line ∈ statusLine :: fields, line ≠ [] ∧ CR ∉ line := by
    intro fields hfields line hline
    rcases List.mem_cons.mp hline with rfl | hline
    · exact hstatus
    · obtain ⟨hcolon, hone⟩ := hfields line hline
      exact ⟨List.ne_nil_of_mem hcolon, hone.1⟩
  rw [bytes_respond hbody] at hbytes
  have heq := crlf_append_inj (hlines (oneLine_fieldLines hplain)) (hlines hfields) hbytes
  rw [← length_filter_fieldLines, (List.cons.inj heq).2, hfilter]
  rfl

theorem framed_of_once (hplain : ∀ call ∈ calls, call.Plain) (hbody : bodies calls = [body])
    (hkeys : ∀ key ∈ keys calls, isContentLength fold key = false) :
    Framed fold (respond calls).bytes body := by
  have hlast : (bodies calls).getLast? = some body := by rw [hbody]; rfl
  have hnone : (keys calls).filter (isContentLength fold) = [] :=
    List.filter_eq_nil_iff.mpr fun key hkey => by
      rw [hkeys key hkey]
      exact Bool.false_ne_true
  have hone : ((fieldLines calls).filter (isContentLength fold)).length = 1 := by
    rw [length_filter_fieldLines, hbody, hnone]
    rfl
  obtain ⟨length, hlength⟩ := List.length_eq_one_iff.mp hone
  refine ⟨fieldLines calls, length, bytes_respond hlast, oneLine_fieldLines hplain, hlength, ?_⟩
  -- the line is that of the only body
  have hmem : length ∈ (fieldLines calls).filter (isContentLength fold) := by
    rw [hlength]
    exact List.mem_singleton.mpr rfl
  unfold fieldLines at hmem
  rw [List.filter_append, filter_defaultLines, List.nil_append, List.mem_filter, List.mem_map]
    at hmem
  obtain ⟨⟨call, hcall, rfl⟩, hnames⟩ := hmem
  obtain ⟨key, value, hkey, -, hline⟩ | ⟨body', -, hbody', hline⟩ := line_cases call
  · rw [hline, isContentLength_headerLine,
      hkeys key (List.mem_filterMap.mpr ⟨call, hcall, hkey⟩)] at hnames
    cases hnames
  · have hin : body' ∈ bodies calls := List.mem_filterMap.mpr ⟨call, hcall, hbody'⟩
    rw [hbody, List.mem_singleton] at hin
    rw [hline, fieldValue_length, hin]

/-- **The body is framed** exactly when `addBody` has been called once and no key names the length:
a second call replaces the body and leaves the length of the first. -/
theorem framed_iff (fold : Byte → Byte) (hplain : ∀ call ∈ calls, call.Plain)
    (hbody : (bodies calls).getLast? = some body) :
    Framed fold (respond calls).bytes body ↔
      (bodies calls).length = 1 ∧ ∀ key ∈ keys calls, isContentLength fold key = false := by
  constructor
  · intro h
    have hsum := h.length_filter hplain hbody
    have hpos : 0 < (bodies calls).length := by
      rw [List.length_pos_iff]
      intro hnil
      rw [hnil] at hbody
      cases hbody
    have hzero : (keys calls).filter (isContentLength fold) = [] := by
      rw [← List.length_eq_zero_iff]
      omega
    refine ⟨by omega, fun key hkey => ?_⟩
    rw [← Bool.not_eq_true]
    exact List.filter_eq_nil_iff.mp hzero key hkey
  · rintro ⟨hone, hkeys⟩
    obtain ⟨only, honly⟩ := List.length_eq_one_iff.mp hone
    rw [honly, List.getLast?_singleton, Option.some.injEq] at hbody
    exact framed_of_once hplain (hbody ▸ honly) hkeys

/-- A header, and the body of the service `/port`. -/
def portCalls : List Call :=
  [.addHeader (chars "server") (chars "dagger"), .addBody (chars "15558")]

theorem framed_iff_port : Framed id (respond portCalls).bytes (chars "15558") :=
  (framed_iff id (by decide) (by decide)).mpr ⟨by decide, by decide⟩

/-- Two bodies. -/
def twoBodies : List Call := [.addBody (chars "ab"), .addBody (chars "c")]

/-- The length of the first body stays in front of the second. -/
theorem two_bodies_misframed : (∀ call ∈ twoBodies, call.Plain) ∧ keys twoBodies = [] ∧
    (bodies twoBodies).getLast? = some (chars "c") ∧
    (fieldLines twoBodies).filter (isContentLength id) =
      [chars "content-length: 2", chars "content-length: 1"] ∧
    ¬ Framed id (respond twoBodies).bytes (chars "c") := by
  have hplain : ∀ call ∈ twoBodies, call.Plain := by decide
  have hbody : (bodies twoBodies).getLast? = some (chars "c") := by decide
  refine ⟨hplain, rfl, hbody, by decide, fun h => ?_⟩
  have hone := h.length_filter hplain hbody
  exact absurd hone (by decide)

end HttpResponse

end Dagger
