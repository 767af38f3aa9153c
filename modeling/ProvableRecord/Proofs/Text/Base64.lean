import Mathlib.Data.List.Basic
import ProvableRecord.Text.Base64

/-!
# Bytes in Base64

Three bytes and the four numbers of six bits that they are written as are the same 24 bits, and the
spare bits of a shorter last group are zero.  So reading the symbols of a row of bytes gives the
bytes (`decode_encodeBytes`), and numbers that denote bytes are the ones that the bytes are written
as (`encodeBytes_of_groupBytes`).  Each row of bytes has one row of symbols (`decode_eq_ok_iff`).
-/

namespace ProvableRecord

namespace Base64

/-- A symbol stands for its number. -/
theorem value?_symbol : ∀ {n : ℕ}, n < 64 → value? (symbol n) = some n := by
  decide

theorem isSymbol_symbol {n : ℕ} (h : n < 64) : isSymbol (symbol n) = true := by
  rw [isSymbol, value?_symbol h]
  rfl

theorem getD_value?_symbol {n : ℕ} (h : n < 64) : (value? (symbol n)).getD 0 = n := by
  rw [value?_symbol h]
  rfl

theorem isSymbol_of_mem_encodeBytes {bs : List UInt8} {c : Char} (h : c ∈ encodeBytes bs) :
    isSymbol c = true := by
  induction bs using encodeBytes.induct with
  | case1 => cases h
  | case2 a =>
    have ha := a.toNat_lt
    simp only [encodeBytes, List.mem_cons, List.not_mem_nil, or_false] at h
    rcases h with rfl | rfl <;> exact isSymbol_symbol (by omega)
  | case3 a b =>
    have ha := a.toNat_lt
    have hb := b.toNat_lt
    simp only [encodeBytes, List.mem_cons, List.not_mem_nil, or_false] at h
    rcases h with rfl | rfl | rfl <;> exact isSymbol_symbol (by omega)
  | case4 a b c' rest ih =>
    have ha := a.toNat_lt
    have hb := b.toNat_lt
    have hc := c'.toNat_lt
    simp only [encodeBytes, List.mem_cons] at h
    rcases h with rfl | rfl | rfl | rfl | hrest
    iterate 4 exact isSymbol_symbol (by omega)
    exact ih hrest

theorem length_encodeBytes (bs : List UInt8) :
    (encodeBytes bs).length = (4 * bs.length + 2) / 3 := by
  induction bs using encodeBytes.induct with
  | case1 => rfl
  | case2 a => simp only [encodeBytes, List.length_cons, List.length_nil]
  | case3 a b => simp only [encodeBytes, List.length_cons, List.length_nil]
  | case4 a b c rest ih =>
    simp only [encodeBytes, List.length_cons, ih]
    omega

/-- The first byte of a group is in its first number and the high bits of the second. -/
theorem ofNat_first (a : UInt8) {low : ℕ} (h : low < 16) :
    UInt8.ofNat (a.toNat / 4 * 4 + (a.toNat % 4 * 16 + low) / 16) = a := by
  have hbits : a.toNat / 4 * 4 + (a.toNat % 4 * 16 + low) / 16 = a.toNat := by omega
  rw [hbits]
  exact UInt8.ofNat_toNat

/-- The second byte is in the low bits of the second number and the high bits of the third. -/
theorem ofNat_second (b : UInt8) (high : ℕ) {low : ℕ} (h : low < 4) :
    UInt8.ofNat ((high * 16 + b.toNat / 16) % 16 * 16 + (b.toNat % 16 * 4 + low) / 4) = b := by
  have hb := b.toNat_lt
  have hbits : (high * 16 + b.toNat / 16) % 16 * 16 + (b.toNat % 16 * 4 + low) / 4 = b.toNat := by
    omega
  rw [hbits]
  exact UInt8.ofNat_toNat

/-- The third byte is in the low bits of the third number and in the fourth. -/
theorem ofNat_third (c : UInt8) (high : ℕ) :
    UInt8.ofNat ((high * 4 + c.toNat / 64) % 4 * 64 + c.toNat % 64) = c := by
  have hc := c.toNat_lt
  have hbits : (high * 4 + c.toNat / 64) % 4 * 64 + c.toNat % 64 = c.toNat := by omega
  rw [hbits]
  exact UInt8.ofNat_toNat

/-- The bytes of the numbers that the symbols stand for. -/
theorem groupBytes_encodeBytes (bs : List UInt8) :
    groupBytes ((encodeBytes bs).map fun c => (value? c).getD 0) = some bs := by
  induction bs using encodeBytes.induct with
  | case1 => rfl
  | case2 a =>
    have ha := a.toNat_lt
    have hspare : a.toNat % 4 * 16 % 16 = 0 := by omega
    have hfirst := ofNat_first a (show 0 < 16 by omega)
    rw [Nat.add_zero] at hfirst
    simp only [encodeBytes, List.map_cons, List.map_nil, groupBytes, hspare, if_true, hfirst,
      getD_value?_symbol (show a.toNat / 4 < 64 by omega),
      getD_value?_symbol (show a.toNat % 4 * 16 < 64 by omega)]
  | case3 a b =>
    have ha := a.toNat_lt
    have hb := b.toNat_lt
    have hspare : b.toNat % 16 * 4 % 4 = 0 := by omega
    have hsecond := ofNat_second b (a.toNat % 4) (show 0 < 4 by omega)
    rw [Nat.add_zero] at hsecond
    simp only [encodeBytes, List.map_cons, List.map_nil, groupBytes, hspare, if_true,
      ofNat_first a (show b.toNat / 16 < 16 by omega), hsecond,
      getD_value?_symbol (show a.toNat / 4 < 64 by omega),
      getD_value?_symbol (show a.toNat % 4 * 16 + b.toNat / 16 < 64 by omega),
      getD_value?_symbol (show b.toNat % 16 * 4 < 64 by omega)]
  | case4 a b c rest ih =>
    have ha := a.toNat_lt
    have hb := b.toNat_lt
    have hc := c.toNat_lt
    simp only [encodeBytes, List.map_cons, groupBytes, ih, Option.map_some,
      ofNat_first a (show b.toNat / 16 < 16 by omega),
      ofNat_second b (a.toNat % 4) (show c.toNat / 64 < 4 by omega), ofNat_third c,
      getD_value?_symbol (show a.toNat / 4 < 64 by omega),
      getD_value?_symbol (show a.toNat % 4 * 16 + b.toNat / 16 < 64 by omega),
      getD_value?_symbol (show b.toNat % 16 * 4 + c.toNat / 64 < 64 by omega),
      getD_value?_symbol (show c.toNat % 64 < 64 by omega)]

/-- **The symbols of a row of bytes denote the bytes.** -/
theorem decode_encodeBytes (bs : List UInt8) : decode (encodeBytes bs) = .ok bs := by
  have hlength : ¬ (encodeBytes bs).length % 4 = 1 := by
    rw [length_encodeBytes]
    omega
  rw [decode, if_neg hlength, groupBytes_encodeBytes]

/-! ## What reading accepts -/

/-- A character that stands for a number is the symbol of this number. -/
theorem symbol_of_value? {c : Char} {n : ℕ} (h : value? c = some n) : n < 64 ∧ symbol n = c := by
  have hle : ∀ {a b : Char}, a ≤ b ↔ a.toNat ≤ b.toNat := UInt32.le_iff_toNat_le
  have hchar : ∀ {k : ℕ}, k = c.toNat → Char.ofNat k = c := by
    rintro k rfl
    exact Char.ofNat_toNat c
  simp only [value?, hle, Char.reduceToNat] at h
  split at h
  · cases h
    refine ⟨by omega, ?_⟩
    rw [symbol, if_pos (by omega)]
    exact hchar (by omega)
  split at h
  · cases h
    refine ⟨by omega, ?_⟩
    rw [symbol, if_neg (by omega), if_pos (by omega)]
    exact hchar (by omega)
  split at h
  · cases h
    refine ⟨by omega, ?_⟩
    rw [symbol, if_neg (by omega), if_neg (by omega), if_pos (by omega)]
    exact hchar (by omega)
  split at h
  · next hplus =>
    cases h
    exact ⟨by omega, hplus.symm⟩
  split at h
  · next hslash =>
    cases h
    exact ⟨by omega, hslash.symm⟩
  · cases h

/-- Symbols are the symbols of the numbers that they stand for. -/
theorem map_symbol_value {cs : List Char} (h : ∀ c ∈ cs, isSymbol c = true) :
    (∀ n ∈ cs.map fun c => (value? c).getD 0, n < 64)
      ∧ (cs.map fun c => (value? c).getD 0).map symbol = cs := by
  have hvalue : ∀ c ∈ cs, (value? c).getD 0 < 64 ∧ symbol ((value? c).getD 0) = c := by
    intro c hc
    obtain ⟨n, hn⟩ := Option.isSome_iff_exists.mp (h c hc)
    rw [hn]
    exact symbol_of_value? hn
  refine ⟨?_, ?_⟩
  · intro n hn
    obtain ⟨c, hc, rfl⟩ := List.mem_map.mp hn
    exact (hvalue c hc).1
  · rw [List.map_map]
    exact (List.map_congr_left fun c hc => (hvalue c hc).2).trans (List.map_id cs)

/-- **Numbers of six bits that denote bytes are those that the bytes are written as.** -/
theorem encodeBytes_of_groupBytes {ns : List ℕ} {bs : List UInt8} (hlt : ∀ n ∈ ns, n < 64)
    (h : groupBytes ns = some bs) : encodeBytes bs = ns.map symbol := by
  induction ns using groupBytes.induct generalizing bs with
  | case1 =>
    cases h
    rfl
  | case2 p => cases h
  | case3 p q hspare =>
    simp only [List.forall_mem_cons] at hlt
    obtain ⟨hp, hq, -⟩ := hlt
    simp only [groupBytes, hspare, if_true] at h
    cases h
    have hfirst : (UInt8.ofNat (p * 4 + q / 16)).toNat = p * 4 + q / 16 :=
      UInt8.toNat_ofNat_of_lt (show _ < 256 by omega)
    have hp' : (p * 4 + q / 16) / 4 = p := by omega
    have hq' : (p * 4 + q / 16) % 4 * 16 = q := by omega
    simp only [encodeBytes, hfirst, hp', hq', List.map_cons, List.map_nil]
  | case4 p q hspare =>
    simp only [groupBytes, hspare, if_false] at h
    cases h
  | case5 p q r hspare =>
    simp only [List.forall_mem_cons] at hlt
    obtain ⟨hp, hq, hr, -⟩ := hlt
    simp only [groupBytes, hspare, if_true] at h
    cases h
    have hfirst : (UInt8.ofNat (p * 4 + q / 16)).toNat = p * 4 + q / 16 :=
      UInt8.toNat_ofNat_of_lt (show _ < 256 by omega)
    have hsecond : (UInt8.ofNat (q % 16 * 16 + r / 4)).toNat = q % 16 * 16 + r / 4 :=
      UInt8.toNat_ofNat_of_lt (show _ < 256 by omega)
    have hp' : (p * 4 + q / 16) / 4 = p := by omega
    have hq' : (p * 4 + q / 16) % 4 * 16 + (q % 16 * 16 + r / 4) / 16 = q := by omega
    have hr' : (q % 16 * 16 + r / 4) % 16 * 4 = r := by omega
    simp only [encodeBytes, hfirst, hsecond, hp', hq', hr', List.map_cons, List.map_nil]
  | case6 p q r hspare =>
    simp only [groupBytes, hspare, if_false] at h
    cases h
  | case7 p q r s rest ih =>
    simp only [List.forall_mem_cons] at hlt
    obtain ⟨hp, hq, hr, hs, hrest⟩ := hlt
    simp only [groupBytes, Option.map_eq_some_iff] at h
    obtain ⟨bytes, hbytes, rfl⟩ := h
    have hfirst : (UInt8.ofNat (p * 4 + q / 16)).toNat = p * 4 + q / 16 :=
      UInt8.toNat_ofNat_of_lt (show _ < 256 by omega)
    have hsecond : (UInt8.ofNat (q % 16 * 16 + r / 4)).toNat = q % 16 * 16 + r / 4 :=
      UInt8.toNat_ofNat_of_lt (show _ < 256 by omega)
    have hthird : (UInt8.ofNat (r % 4 * 64 + s)).toNat = r % 4 * 64 + s :=
      UInt8.toNat_ofNat_of_lt (show _ < 256 by omega)
    have hp' : (p * 4 + q / 16) / 4 = p := by omega
    have hq' : (p * 4 + q / 16) % 4 * 16 + (q % 16 * 16 + r / 4) / 16 = q := by omega
    have hr' : (q % 16 * 16 + r / 4) % 16 * 4 + (r % 4 * 64 + s) / 64 = r := by omega
    have hs' : (r % 4 * 64 + s) % 64 = s := by omega
    simp only [encodeBytes, hfirst, hsecond, hthird, hp', hq', hr', hs', ih hrest hbytes,
      List.map_cons]

/-- **Of rows of symbols only those that bytes are written as denote bytes.** -/
theorem decode_eq_ok_iff {cs : List Char} (h : ∀ c ∈ cs, isSymbol c = true) {bs : List UInt8} :
    decode cs = .ok bs ↔ cs = encodeBytes bs := by
  constructor
  · intro hdecode
    obtain ⟨hlt, hsymbols⟩ := map_symbol_value h
    unfold decode at hdecode
    split at hdecode
    · cases hdecode
    split at hdecode
    · next bytes hbytes =>
      cases hdecode
      rw [encodeBytes_of_groupBytes hlt hbytes, hsymbols]
    · cases hdecode
  · rintro rfl
    exact decode_encodeBytes bs

end Base64

end ProvableRecord
