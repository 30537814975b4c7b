import Dagger.InAddr

/-! # Parsing addresses

By its comment, the assertion in `init` fails where the port is no valid number or 0.  It fails
where the numeral at the start of the port's text vanishes in the conversions to `int` and
`in_port_t` (`Vanishes`); what follows the numeral, the range of a port and the result of
`inet_pton` are not looked at.  `sound_iff` gives the strings on which this does not matter. -/

namespace Dagger.InAddr

open UnsignedNumeral

/-- `s` is the text of an address and a port, with a colon in between. -/
def WellFormed (P : Platform) (s : List Byte) (ip : Ipv4) (port : UInt16) : Prop :=
  ∃ ipText portText, s = ipText ++ COLON :: portText ∧ DottedQuad P ipText ip ∧
    portText ≠ [] ∧ (∀ c ∈ portText, isDigit c = true) ∧ value portText = port.toNat ∧ port ≠ 0

/-- A string that passes the assertion is the text of the address and the port of the result,
whatever the memory held before. -/
def Sound (P : Platform) (s : List Byte) : Prop :=
  ∀ addr result, ofString P addr s = some result →
    ∃ ip port, WellFormed P s ip port ∧ result = ofNumbers P (P.order.htons port) ip

/-- The string begins with no numeral, or with one that is a multiple of `2 ^ 16` when it is
brought into the range of `long`. -/
def Vanishes (str : List Byte) : Prop :=
  ∀ spaces sign ds rest, Splits str spaces sign ds rest →
    if sign = [45] then LONG_MAX < value ds ∨ 65536 ∣ value ds
    else value ds ≤ LONG_MAX ∧ 65536 ∣ value ds

variable {P : Platform} {s str : List Byte} {ip : Ipv4} {port : UInt16}

/-! ### The assertion -/

theorem emod_neg_eq_zero_iff (v : ℕ) :
    (-((min v (LONG_MAX + 1) : ℕ) : ℤ) % 65536).toNat = 0 ↔ LONG_MAX < v ∨ 65536 ∣ v := by
  unfold LONG_MAX
  omega

theorem emod_eq_zero_iff (v : ℕ) :
    (((min v LONG_MAX : ℕ) : ℤ) % 65536).toNat = 0 ↔ v ≤ LONG_MAX ∧ 65536 ∣ v := by
  unfold LONG_MAX
  omega

theorem toPort_eq_zero_iff : toPort (atoi str) = 0 ↔ Vanishes str := by
  have hzero : toPort (atoi str) = 0 ↔ (strtol LONG_MAX str % 65536).toNat = 0 := by
    rw [← toNat_toPort_atoi, ← UInt16.toNat_inj]
    exact Iff.rfl
  have hsplit : ∀ {spaces sign ds rest}, Splits str spaces sign ds rest →
      (toPort (atoi str) = 0 ↔ if sign = [45] then LONG_MAX < value ds ∨ 65536 ∣ value ds
        else value ds ≤ LONG_MAX ∧ 65536 ∣ value ds) := by
    intro spaces sign ds rest h
    rw [hzero, h.strtol]
    split_ifs
    · exact emod_neg_eq_zero_iff _
    · exact emod_eq_zero_iff _
  constructor
  · intro hport spaces sign ds rest h
    exact (hsplit h).mp hport
  · intro hv
    by_cases hex : ∃ spaces sign ds rest, Splits str spaces sign ds rest
    · obtain ⟨spaces, sign, ds, rest, h⟩ := hex
      exact (hsplit h).mpr (hv spaces sign ds rest h)
    · rw [hzero, strtol_of_not_splits]
      · rfl
      · intro spaces sign ds rest h
        exact hex ⟨spaces, sign, ds, rest, h⟩

/-- The strings that are rejected. -/
theorem ofString_eq_none_iff (addr : Ipv4) :
    ofString P addr s = none ↔ Vanishes (getPort s) := by
  unfold ofString ofStrings init
  rw [← toPort_eq_zero_iff]
  dsimp only
  by_cases hport : toPort (atoi (getPort s)) = 0
  · rw [if_pos hport]
    exact iff_of_true rfl hport
  · rw [if_neg hport]
    exact iff_of_false (Option.some_ne_none _) hport

/-! ### Well-formed strings -/

theorem ofString_of_wellFormed (h : WellFormed P s ip port) (addr : Ipv4) :
    ofString P addr s = some (ofNumbers P (P.order.htons port) ip) := by
  obtain ⟨ipText, portText, rfl, hquad, hne, hdigits, hvalue, hport⟩ := h
  unfold ofString ofStrings
  rw [getPort_eq hquad, getIp_eq hquad]
  refine init_eq (toPort_atoi_of_digits hdigits hne hvalue) hport ?_
  rw [hquad.cStr]
  exact inetPton_eq_some_iff.mpr hquad

theorem WellFormed.colon_mem (h : WellFormed P s ip port) : COLON ∈ s := by
  obtain ⟨ipText, portText, rfl, -⟩ := h
  exact List.mem_append_right _ List.mem_cons_self

/-- **Parsing is sound** on a string exactly when the port vanishes or the string is well formed. -/
theorem sound_iff (P : Platform) (s : List Byte) :
    Sound P s ↔ Vanishes (getPort s) ∨ ∃ ip port, WellFormed P s ip port := by
  constructor
  · intro hsound
    by_cases hv : Vanishes (getPort s)
    · exact Or.inl hv
    · have hsome := mt (@ofString_eq_none_iff P s ⟨0, 0, 0, 0⟩).mp hv
      obtain ⟨result, hresult⟩ := Option.ne_none_iff_exists'.mp hsome
      obtain ⟨ip, port, hwf, -⟩ := hsound _ result hresult
      exact Or.inr ⟨ip, port, hwf⟩
  · rintro (hv | ⟨ip, port, hwf⟩) addr result hresult
    · rw [(ofString_eq_none_iff addr).mpr hv] at hresult
      cases hresult
    · rw [ofString_of_wellFormed hwf] at hresult
      exact ⟨ip, port, hwf, (Option.some.inj hresult).symm⟩

/-- A port without an address, as in a test: the address is what the memory held. -/
theorem port_only_accepted : let P : Platform := ⟨.little, false⟩
    ofString P ⟨0, 0, 0, 0⟩ (chars "12345") =
        some (ofNumbers P (P.order.htons 12345) ⟨0, 0, 0, 0⟩) ∧
      ofString P ⟨9, 9, 9, 9⟩ (chars "12345") =
        some (ofNumbers P (P.order.htons 12345) ⟨9, 9, 9, 9⟩) ∧
      ¬ Sound P (chars "12345") := by
  intro P
  have haccept : ∀ addr,
      ofString P addr (chars "12345") = some (ofNumbers P (P.order.htons 12345) addr) :=
    fun addr => rfl
  refine ⟨haccept _, haccept _, fun hsound => ?_⟩
  obtain ⟨ip, port, hwf, -⟩ := hsound ⟨0, 0, 0, 0⟩ _ (haccept _)
  exact absurd hwf.colon_mem (by decide)

end Dagger.InAddr
