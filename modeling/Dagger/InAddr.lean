import Dagger.Codec
import Dagger.DecimalText

/-! # `InAddr`

The socket address of `src/InAddr.h`, with the family `AF_INET`, the default of its constructors
and the only one supported.  A `sockaddr` is the list of its 16 bytes in memory.

What the source leaves to its platform is a parameter: the order of the bytes of a number in
memory, and whether `inet_pton` takes octets with leading zeros, on which its documentation and the
C libraries differ.  The memory of a local variable before it is written is a parameter as well.

`forms_agree`: the three constructors make the same bytes of an address and a port, and
`ipPortStr` prints them as `a.b.c.d:p`. -/

namespace Dagger

open UnsignedNumeral

def DOT : Byte := 46

abbrev LONG_MAX : ℕ := 9223372036854775807
abbrev AF_INET : UInt16 := 2
abbrev INET_ADDRSTRLEN : ℕ := 16

inductive ByteOrder where
  | little
  | big
deriving DecidableEq, Repr

structure Platform where
  order : ByteOrder
  /-- `inet_pton` accepts octets such as `007`. -/
  leadingZeros : Bool

/-- `in_addr`, byte by byte. -/
structure Ipv4 where
  a : Byte
  b : Byte
  c : Byte
  d : Byte
deriving DecidableEq, Repr

/-! ### Numbers in memory -/

/-- The low and the high byte of a `uint16_t`. -/
def low (x : UInt16) : Byte := UInt8.ofNat (x.toNat % 256)
def high (x : UInt16) : Byte := UInt8.ofNat (x.toNat / 256)

def swapped (x : UInt16) : UInt16 := UInt16.ofNat (x.toNat % 256 * 256 + x.toNat / 256)

namespace ByteOrder

/-- The bytes of a `uint16_t` in memory. -/
def bytes : ByteOrder → UInt16 → List Byte
  | little, x => [low x, high x]
  | big, x => [high x, low x]

/-- The `uint16_t` at some bytes in memory. -/
def read : ByteOrder → List Byte → UInt16
  | little, bs => UInt16.ofNat ((bs.getD 1 0).toNat * 256 + (bs.getD 0 0).toNat)
  | big, bs => UInt16.ofNat ((bs.getD 0 0).toNat * 256 + (bs.getD 1 0).toNat)

/-- `htons`. -/
def htons : ByteOrder → UInt16 → UInt16
  | little, x => swapped x
  | big, x => x

/-- `ntohs`. -/
def ntohs : ByteOrder → UInt16 → UInt16
  | little, x => swapped x
  | big, x => x

end ByteOrder

/-! ### The functions of the C library -/

/-- `atoi`: `strtol` in a `long`, converted to `int`.  A NUL ends the numeral as any other byte
does that is not a digit. -/
def atoi (str : List Byte) : ℤ := Int.bmod (strtol LONG_MAX str) (2 ^ 32)

/-- An `int` as an `in_port_t`. -/
def toPort (v : ℤ) : UInt16 := UInt16.ofNat (v % 65536).toNat

/-- The characters of `str.c_str()`. -/
def cStr (str : List Byte) : List Byte := str.takeWhile (· ≠ NUL)

/-- One to three digits for a number up to 255. -/
def octet (P : Platform) (str : List Byte) : Option Byte :=
  if str ≠ [] ∧ str.length ≤ 3 ∧ str.all isDigit = true ∧ value str ≤ 255 ∧
      (P.leadingZeros = true ∨ str.length = 1 ∨ str.head? ≠ some 48) then
    some (UInt8.ofNat (value str))
  else none

/-- `inet_pton(AF_INET, src, ..)`; `none` if it writes nothing. -/
def inetPton (P : Platform) (src : List Byte) : Option Ipv4 :=
  match src.splitOn DOT with
  | [a, b, c, d] => do
      let a ← octet P a
      let b ← octet P b
      let c ← octet P c
      let d ← octet P d
      some ⟨a, b, c, d⟩
  | _ => none

/-- The text `a.b.c.d`. -/
def Ipv4.text (ip : Ipv4) : List Byte :=
  decimal ip.a.toNat ++ DOT :: (decimal ip.b.toNat ++ DOT :: (decimal ip.c.toNat ++
    DOT :: decimal ip.d.toNat))

/-- `inet_ntop(AF_INET, ip, .., size)`; `none` if the text and its NUL do not fit. -/
def inetNtop (ip : Ipv4) (size : ℕ) : Option (List Byte) :=
  if ip.text.length < size then some ip.text else none

/-! ### The class -/

/-- `struct sockaddr`. -/
abbrev Sockaddr := List Byte

/-- Bytes stored at an offset. -/
def store (addr : Sockaddr) (i : ℕ) (bs : List Byte) : Sockaddr :=
  addr.take i ++ bs ++ addr.drop (i + bs.length)

namespace InAddr

variable (P : Platform)

def initAddr (sin_port : UInt16) (sin_addr : Ipv4) : Sockaddr :=
  let addr := List.replicate 16 0
  let addr := store addr 0 (P.order.bytes AF_INET)
  let addr := store addr 2 (P.order.bytes sin_port)
  store addr 4 [sin_addr.a, sin_addr.b, sin_addr.c, sin_addr.d]

/-- `none` if the assertion fails; `addr` is what the local variable of this name holds at first,
and keeps if `inet_pton` fails. -/
def init (addr : Ipv4) (sin_port sin_addr : List Byte) : Option Sockaddr :=
  let portNum := toPort (atoi sin_port)
  if portNum = 0 then none
  else
    let addr := (inetPton P (cStr sin_addr)).getD addr
    let port := P.order.htons portNum
    some (initAddr P port addr)

/-- `ip_port.substr(0, ip_port.find_first_of(':'))`, all of it if there is no colon. -/
def getIp (ip_port : List Byte) : List Byte := ip_port.takeWhile (· ≠ COLON)

/-- `ip_port.substr(ip_port.find_first_of(':') + 1)`; without a colon `npos + 1` is 0. -/
def getPort (ip_port : List Byte) : List Byte :=
  if COLON ∈ ip_port then (ip_port.dropWhile (· ≠ COLON)).drop 1 else ip_port

/-- `InAddr(sin_port, sin_addr)`. -/
def ofStrings (addr : Ipv4) (sin_port sin_addr : List Byte) : Option Sockaddr :=
  init P addr sin_port sin_addr

/-- `InAddr(ip_port)`. -/
def ofString (addr : Ipv4) (ip_port : List Byte) : Option Sockaddr :=
  ofStrings P addr (getPort ip_port) (getIp ip_port)

/-- `InAddr(sin_port, sin_addr)` with a port in network order. -/
def ofNumbers (sin_port : UInt16) (sin_addr : Ipv4) : Sockaddr := initAddr P sin_port sin_addr

/-- `buf` is what the local array of this name holds at first. -/
def ipPortStr (buf : List Byte) (addr : Sockaddr) : List Byte :=
  let sin_addr : Ipv4 := ⟨addr.getD 4 0, addr.getD 5 0, addr.getD 6 0, addr.getD 7 0⟩
  let buf := (inetNtop sin_addr INET_ADDRSTRLEN).getD buf
  let port := P.order.ntohs (P.order.read ((addr.drop 2).take 2))
  buf ++ COLON :: decimal port.toNat

end InAddr

/-! ### Byte orders -/

theorem toNat_low (x : UInt16) : (low x).toNat = x.toNat % 256 := by
  unfold low
  rw [UInt8.toNat_ofNat']
  omega

theorem toNat_high (x : UInt16) : (high x).toNat = x.toNat / 256 := by
  have hx := x.toNat_lt
  unfold high
  rw [UInt8.toNat_ofNat']
  omega

theorem toNat_swapped (x : UInt16) :
    (swapped x).toNat = x.toNat % 256 * 256 + x.toNat / 256 := by
  have hx := x.toNat_lt
  unfold swapped
  rw [UInt16.toNat_ofNat']
  omega

theorem swapped_swapped (x : UInt16) : swapped (swapped x) = x := by
  have hx := x.toNat_lt
  apply UInt16.toNat_inj.mp
  rw [toNat_swapped, toNat_swapped]
  omega

namespace ByteOrder

variable (order : ByteOrder)

theorem ntohs_htons (x : UInt16) : order.ntohs (order.htons x) = x := by
  cases order with
  | little => exact swapped_swapped x
  | big => rfl

theorem read_bytes (x : UInt16) : order.read (order.bytes x) = x := by
  have hx := x.toNat_lt
  apply UInt16.toNat_inj.mp
  cases order with
  | little =>
      simp only [bytes, read, List.getD_cons_zero, List.getD_cons_succ, toNat_low, toNat_high,
        UInt16.toNat_ofNat']
      omega
  | big =>
      simp only [bytes, read, List.getD_cons_zero, List.getD_cons_succ, toNat_low, toNat_high,
        UInt16.toNat_ofNat']
      omega

end ByteOrder

/-! ### Dotted quads -/

/-- The text of an octet with the number `v`. -/
structure Octet (P : Platform) (str : List Byte) (v : Byte) : Prop where
  ne_nil : str ≠ []
  length_le : str.length ≤ 3
  digits : ∀ c ∈ str, isDigit c = true
  value_eq : value str = v.toNat
  zeros : P.leadingZeros = true ∨ str.length = 1 ∨ str.head? ≠ some 48

def DottedQuad (P : Platform) (str : List Byte) (ip : Ipv4) : Prop :=
  ∃ a b c d, str = a ++ DOT :: (b ++ DOT :: (c ++ DOT :: d)) ∧
    Octet P a ip.a ∧ Octet P b ip.b ∧ Octet P c ip.c ∧ Octet P d ip.d

variable {P : Platform} {str : List Byte} {v : Byte} {ip : Ipv4}

theorem octet_eq_some_iff : octet P str = some v ↔ Octet P str v := by
  unfold octet
  constructor
  · intro h
    split_ifs at h with hif
    obtain ⟨hne, hlen, hall, hmax, hzeros⟩ := hif
    refine ⟨hne, hlen, List.all_eq_true.mp hall, ?_, hzeros⟩
    rw [← Option.some.inj h, UInt8.toNat_ofNat']
    omega
  · intro h
    have hlt := v.toNat_lt
    have hmax : value str ≤ 255 := by
      rw [h.value_eq]
      omega
    rw [if_pos ⟨h.ne_nil, h.length_le, List.all_eq_true.mpr h.digits, hmax, h.zeros⟩, h.value_eq,
      UInt8.ofNat_toNat]

theorem Octet.dot_notMem (h : Octet P str v) : DOT ∉ str := by
  intro hin
  exact absurd (h.digits DOT hin) (by decide)

theorem intercalate_dots (a b c d : List Byte) :
    [DOT].intercalate [a, b, c, d] = a ++ DOT :: (b ++ DOT :: (c ++ DOT :: d)) := by
  simp [List.intercalate]

/-- `inet_pton` takes the dotted quads. -/
theorem inetPton_eq_some_iff : inetPton P str = some ip ↔ DottedQuad P str ip := by
  constructor
  · intro h
    have hjoin := @List.intercalate_splitOn _ str _ _ DOT
    unfold inetPton at h
    split at h
    · rename_i a b c d hsplit
      simp only [Option.bind_eq_bind, Option.bind_eq_some_iff] at h
      obtain ⟨a', ha, b', hb, c', hc, d', hd, hip⟩ := h
      obtain rfl := Option.some.inj hip
      rw [hsplit, intercalate_dots] at hjoin
      exact ⟨a, b, c, d, hjoin.symm, octet_eq_some_iff.mp ha, octet_eq_some_iff.mp hb,
        octet_eq_some_iff.mp hc, octet_eq_some_iff.mp hd⟩
    · cases h
  · rintro ⟨a, b, c, d, rfl, ha, hb, hc, hd⟩
    have hsplit : (a ++ DOT :: (b ++ DOT :: (c ++ DOT :: d))).splitOn DOT = [a, b, c, d] := by
      rw [← intercalate_dots]
      refine List.splitOn_intercalate DOT ?_ (List.cons_ne_nil _ _)
      intro l hl
      simp only [List.mem_cons, List.not_mem_nil, or_false] at hl
      rcases hl with rfl | rfl | rfl | rfl
      · exact ha.dot_notMem
      · exact hb.dot_notMem
      · exact hc.dot_notMem
      · exact hd.dot_notMem
    unfold inetPton
    simp only [hsplit, octet_eq_some_iff.mpr ha, octet_eq_some_iff.mpr hb,
      octet_eq_some_iff.mpr hc, octet_eq_some_iff.mpr hd, Option.bind_eq_bind, Option.bind_some]

/-- A dotted quad consists of digits and dots. -/
theorem DottedQuad.mem (h : DottedQuad P str ip) {c : Byte} (hc : c ∈ str) :
    isDigit c = true ∨ c = DOT := by
  obtain ⟨a, b, c', d, rfl, ha, hb, hc', hd⟩ := h
  simp only [List.mem_append, List.mem_cons] at hc
  rcases hc with hc | rfl | hc | rfl | hc | rfl | hc
  · exact Or.inl (ha.digits c hc)
  · exact Or.inr rfl
  · exact Or.inl (hb.digits c hc)
  · exact Or.inr rfl
  · exact Or.inl (hc'.digits c hc)
  · exact Or.inr rfl
  · exact Or.inl (hd.digits c hc)

/-- No character of a dotted quad is one that ends it. -/
theorem DottedQuad.forall_ne (h : DottedQuad P str ip) {stop : Byte} (hdigit : isDigit stop = false)
    (hdot : stop ≠ DOT) : ∀ c ∈ str, decide (c ≠ stop) = true := by
  intro c hc
  rw [decide_eq_true_eq]
  rintro rfl
  rcases h.mem hc with hd | rfl
  · rw [hdigit] at hd
    cases hd
  · exact hdot rfl

theorem DottedQuad.cStr (h : DottedQuad P str ip) : cStr str = str :=
  List.takeWhile_eq_self_iff.mpr (h.forall_ne (by decide) (by decide))

/-- The canonical numeral of an octet. -/
theorem octet_decimal (P : Platform) (v : Byte) : Octet P (decimal v.toNat) v := by
  have hlt := v.toNat_lt
  refine ⟨decimal_ne_nil _, length_decimal_le (by omega), fun c => isDigit_of_mem_decimal,
    value_decimal _, Or.inr ?_⟩
  by_cases hzero : v.toNat = 0
  · rw [hzero]
    exact Or.inl rfl
  · exact Or.inr (head_decimal_ne_zero hzero)

theorem dottedQuad_text (P : Platform) (ip : Ipv4) : DottedQuad P ip.text ip :=
  ⟨_, _, _, _, rfl, octet_decimal P ip.a, octet_decimal P ip.b, octet_decimal P ip.c,
    octet_decimal P ip.d⟩

theorem length_text_le (ip : Ipv4) : ip.text.length ≤ 15 := by
  have ha := (octet_decimal ⟨.little, false⟩ ip.a).length_le
  have hb := (octet_decimal ⟨.little, false⟩ ip.b).length_le
  have hc := (octet_decimal ⟨.little, false⟩ ip.c).length_le
  have hd := (octet_decimal ⟨.little, false⟩ ip.d).length_le
  unfold Ipv4.text
  simp only [List.length_append, List.length_cons]
  omega

/-! ### Ports -/

/-- Both conversions keep the number modulo `2 ^ 16`. -/
theorem toNat_toPort_atoi (str : List Byte) :
    (toPort (atoi str)).toNat = (strtol LONG_MAX str % 65536).toNat := by
  have hmod : atoi str % 65536 = strtol LONG_MAX str % 65536 := by
    unfold atoi
    have hdvd : (65536 : ℤ) ∣ ((2 ^ 32 : ℕ) : ℤ) := by decide
    rw [← Int.emod_emod_of_dvd _ hdvd, Int.bmod_emod, Int.emod_emod_of_dvd _ hdvd]
  have hnonneg := Int.emod_nonneg (strtol LONG_MAX str) (by decide : (65536 : ℤ) ≠ 0)
  have hlt := Int.emod_lt_of_pos (strtol LONG_MAX str) (by decide : (0 : ℤ) < 65536)
  unfold toPort
  rw [hmod, UInt16.toNat_ofNat']
  omega

/-- A numeral of digits only, within the range of a port. -/
theorem toPort_atoi_of_digits {port : UInt16} (hdigits : ∀ c ∈ str, isDigit c = true)
    (hne : str ≠ []) (hvalue : value str = port.toNat) : toPort (atoi str) = port := by
  have hlt := port.toNat_lt
  have hmin : min (value str) LONG_MAX = port.toNat := by
    rw [hvalue]
    exact Nat.min_eq_left (Nat.le_of_lt (Nat.lt_of_lt_of_le hlt (by decide)))
  apply UInt16.toNat_inj.mp
  rw [toNat_toPort_atoi, (splits_of_digits hdigits hne).strtol, if_neg (by decide), hmin]
  omega

namespace InAddr

/-! ### The constructors -/

theorem init_eq {addr : Ipv4} {portText ipText : List Byte} {port : UInt16}
    (hport : toPort (atoi portText) = port) (hne : port ≠ 0)
    (hip : inetPton P (cStr ipText) = some ip) :
    init P addr portText ipText = some (ofNumbers P (P.order.htons port) ip) := by
  unfold init
  simp only [hport, if_neg hne, hip, Option.getD_some]
  rfl

/-- What follows the text of an address and a colon. -/
theorem getPort_eq {ipText : List Byte} (h : DottedQuad P ipText ip) (portText : List Byte) :
    getPort (ipText ++ COLON :: portText) = portText := by
  have hdrop : (ipText ++ COLON :: portText).dropWhile (· ≠ COLON) = COLON :: portText := by
    rw [List.dropWhile_append_of_pos (h.forall_ne (by decide) (by decide))]
    exact List.dropWhile_cons_of_neg (by decide)
  unfold getPort
  rw [if_pos (List.mem_append_right _ List.mem_cons_self), hdrop]
  rfl

theorem getIp_eq {ipText : List Byte} (h : DottedQuad P ipText ip) (portText : List Byte) :
    getIp (ipText ++ COLON :: portText) = ipText := by
  unfold getIp
  rw [List.takeWhile_append_of_pos (h.forall_ne (by decide) (by decide)),
    List.takeWhile_cons_of_neg (by decide), List.append_nil]

theorem initAddr_eq (P : Platform) (port : UInt16) (ip : Ipv4) : initAddr P port ip =
    P.order.bytes AF_INET ++ (P.order.bytes port ++ ([ip.a, ip.b, ip.c, ip.d] ++
      List.replicate 8 0)) := by
  unfold initAddr
  cases P.order with
  | little => rfl
  | big => rfl

theorem ipPortStr_ofNumbers (P : Platform) (buf : List Byte) (port : UInt16) (ip : Ipv4) :
    ipPortStr P buf (ofNumbers P (P.order.htons port) ip) =
      ip.text ++ COLON :: decimal port.toNat := by
  have hfits : inetNtop ip INET_ADDRSTRLEN = some ip.text :=
    if_pos (Nat.lt_succ_of_le (length_text_le ip))
  have hbytes : ∀ x y : UInt16, ∃ w0 w1 w2 w3, P.order.bytes x = [w0, w1] ∧
      P.order.bytes y = [w2, w3] := by
    intro x y
    cases P.order with
    | little => exact ⟨_, _, _, _, rfl, rfl⟩
    | big => exact ⟨_, _, _, _, rfl, rfl⟩
  obtain ⟨w0, w1, w2, w3, hfamily, hport⟩ := hbytes AF_INET (P.order.htons port)
  unfold ofNumbers ipPortStr
  rw [initAddr_eq, hfamily, hport]
  have hread : P.order.ntohs (P.order.read [w2, w3]) = port := by
    rw [← hport, ByteOrder.read_bytes, ByteOrder.ntohs_htons]
  show (inetNtop ip INET_ADDRSTRLEN).getD buf ++
    COLON :: decimal (P.order.ntohs (P.order.read [w2, w3])).toNat = _
  rw [hfits, hread]
  rfl

/-- **The forms agree**: text in two parts, text in one and numbers give the same bytes, which
print as the text. -/
theorem forms_agree (P : Platform) (ip : Ipv4) (port : UInt16) (hport : port ≠ 0) (addr : Ipv4)
    (buf : List Byte) :
    ofStrings P addr (decimal port.toNat) ip.text =
        some (ofNumbers P (P.order.htons port) ip) ∧
      ofString P addr (ip.text ++ COLON :: decimal port.toNat) =
        some (ofNumbers P (P.order.htons port) ip) ∧
      ipPortStr P buf (ofNumbers P (P.order.htons port) ip) =
        ip.text ++ COLON :: decimal port.toNat := by
  have hquad := dottedQuad_text P ip
  have hnum : toPort (atoi (decimal port.toNat)) = port :=
    toPort_atoi_of_digits (fun c => isDigit_of_mem_decimal) (decimal_ne_nil _) (value_decimal _)
  have hinit : init P addr (decimal port.toNat) ip.text =
      some (ofNumbers P (P.order.htons port) ip) := by
    refine init_eq hnum hport ?_
    rw [hquad.cStr]
    exact inetPton_eq_some_iff.mpr hquad
  refine ⟨hinit, ?_, ipPortStr_ofNumbers P buf port ip⟩
  unfold ofString
  rw [getPort_eq hquad, getIp_eq hquad]
  exact hinit

/-- The address of the test `InAddrTest.Basic`. -/
theorem forms_agree_localhost :
    let P : Platform := ⟨.little, false⟩
    let addr := [2, 0, 26, 11, 127, 0, 0, 1, 0, 0, 0, 0, 0, 0, 0, 0]
    ofStrings P ⟨0, 0, 0, 0⟩ (decimal 6667) (⟨127, 0, 0, 1⟩ : Ipv4).text = some addr ∧
      ofString P ⟨0, 0, 0, 0⟩ ((⟨127, 0, 0, 1⟩ : Ipv4).text ++ COLON :: decimal 6667) = some addr ∧
      ipPortStr P [] addr = (⟨127, 0, 0, 1⟩ : Ipv4).text ++ COLON :: decimal 6667 :=
  forms_agree ⟨.little, false⟩ ⟨127, 0, 0, 1⟩ 6667 (by decide) ⟨0, 0, 0, 0⟩ []

example : (⟨127, 0, 0, 1⟩ : Ipv4).text ++ COLON :: decimal 6667 = chars "127.0.0.1:6667" := by
  decide

end InAddr

end Dagger
