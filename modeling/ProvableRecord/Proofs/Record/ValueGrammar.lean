import ProvableRecord.Proofs.Curve.Encoding
import ProvableRecord.Proofs.Record.RoundTrip
import ProvableRecord.Proofs.Text.Grammar

/-!
# What the value of an entry denotes

The value of an entry is a JSON object of a type and a payload (`Json.HasFields`).  What a payload
denotes depends on the type, which is the relation `ValueType.Denotes`; an integer is denoted by a
numeral or by a number (`Json.DenotesInt`).

Reading finds what is denoted and accepts nothing else, for an integer
(`Value.integerOfJson_eq_ok_iff`), for a payload (`Value.ofPayload_eq_ok_iff`) and for a value
(`Value.ofJson_eq_ok_iff`).  What is refused is refused as out of range if it denotes an integer
that its type cannot hold, and for its shape otherwise (`Value.isRangeIff_of_ofPayload`,
`Value.isRangeIff_of_ofJson`).
-/

namespace ProvableRecord

/-- The error is one of range if the condition holds, and one of shape otherwise. -/
def ErrorClass.IsRangeIff (c : ErrorClass) (p : Prop) : Prop := c = .range ∧ p ∨ c = .shape ∧ ¬ p

theorem ErrorClass.isRangeIff_congr {c : ErrorClass} {p q : Prop} (h : p ↔ q) :
    c.IsRangeIff p ↔ c.IsRangeIff q := by
  rw [h]

/-! ## Keys -/

namespace PublicKey

variable {s : String}

/-- A key is read from bytes that are a point. -/
theorem ofText_eq_ok_iff {k : PublicKey} : ofText s = .ok k
    ↔ ∃ b, Bytes.ofText 32 s "public key" = .ok b ∧ Point.unpack b = .ok k.point := by
  rw [ofText, Except.bind_eq_ok_iff]
  simp only [ofBytes_eq_ok_iff]

/-- A text of no key is an error of shape. -/
theorem errorClass_of_ofText {e : PrimitiveError} (h : ofText s = .error e) :
    e.errorClass = .shape := by
  rw [ofText] at h
  cases hbytes : Bytes.ofText 32 s "public key" with
  | error e' =>
    rw [hbytes] at h
    cases h
    rcases Bytes.length_or_encoding hbytes with ⟨-, n, rfl⟩ | ⟨-, fault, rfl⟩
    · rfl
    · rfl
  | ok b =>
    rw [hbytes] at h
    cases hpoint : Point.unpack b with
    | ok P =>
      simp only [bind, Except.bind, ofBytes, hpoint] at h
      cases h
    | error e' =>
      simp only [bind, Except.bind, ofBytes, hpoint] at h
      cases h
      obtain ⟨fault, rfl, -⟩ := Point.unpack_eq_error_iff.mp hpoint
      rfl

end PublicKey

/-! ## Payloads -/

namespace Json

/-- The payload denotes an integer: as a numeral `-?[0-9]+`, or as a number that is an integer of 64
bits with or without a sign. -/
inductive DenotesInt : Json → ℤ → Prop where
  | numeral {s : String} {n : ℤ} (form : s.toList ∈ Decimal.numeralForm.matches')
    (value : Decimal.numeralValue s.toList = n) : DenotesInt (.string s) n
  | number {n : ℤ} (fits : -9223372036854775808 ≤ n ∧ n < 18446744073709551616) :
    DenotesInt (.number (.integer n fits)) n

/-- The value is an object of a type and a payload. -/
def HasFields (v : Json) (tag : String) (payload : Json) : Prop :=
  ∃ members, v = .object members ∧ (∀ m ∈ members, m.1 = "type" ∨ m.1 = "value")
    ∧ v.member? "type" = some (.string tag) ∧ v.member? "value" = some payload

theorem HasFields.unique {v payload payload' : Json} {tag tag' : String}
    (h : v.HasFields tag payload) (h' : v.HasFields tag' payload') :
    tag = tag' ∧ payload = payload' := by
  obtain ⟨-, -, -, htag, hpayload⟩ := h
  obtain ⟨-, -, -, htag', hpayload'⟩ := h'
  rw [htag, Option.some_inj] at htag'
  rw [hpayload, Option.some_inj] at hpayload'
  cases htag'
  exact ⟨rfl, hpayload'⟩

end Json

/-- What a payload denotes as a value of each type. -/
inductive ValueType.Denotes : ValueType → Json → Value → Prop where
  | string (s : String) : Denotes .string (.string s) (.string s)
  | int {payload : Json} {n : ℤ} {i : Int64} (denotes : payload.DenotesInt n)
    (range : -2 ^ 63 ≤ n ∧ n < 2 ^ 63) (value : i.toInt = n) : Denotes .int payload (.int i)
  | cryptographic {payload : Json} {n : ℕ} (denotes : payload.DenotesInt n)
    (range : n < fieldModulus) : Denotes .cryptographic payload (.cryptographic n)
  | publicKey {s : String} {b : Bytes 32} {P : Point}
    (bytes : Bytes.ofText 32 s "public key" = .ok b) (point : Point.unpack b = .ok P) :
    Denotes .publicKey (.string s) (.publicKey ⟨P⟩)

/-- What is denoted is valid. -/
theorem ValueType.Denotes.isValid {t : ValueType} {payload : Json} {a : Value}
    (h : t.Denotes payload a) : a.IsValid := by
  cases h with
  | cryptographic _ hlt => exact hlt
  | _ => trivial

/-- The integer is out of the range of the type. -/
def ValueType.Exceeds : ValueType → ℤ → Prop
  | .int, n => ¬ (-2 ^ 63 ≤ n ∧ n < 2 ^ 63)
  | .cryptographic, n => ¬ (0 ≤ n ∧ n < fieldModulus)
  | _, _ => False

namespace Json

/-- What an object of a type and a payload denotes. -/
def Denotes (v : Json) (a : Value) : Prop :=
  ∃ (t : ValueType) (payload : Json), v.HasFields t.tag payload ∧ t.Denotes payload a

/-- The value is an object of a type and an integer that is out of the range of the type. -/
def OutOfRange (v : Json) : Prop :=
  ∃ (t : ValueType) (payload : Json) (n : ℤ),
    v.HasFields t.tag payload ∧ payload.DenotesInt n ∧ t.Exceeds n

end Json

namespace Value

variable {v payload payload' : Json} {a : Value} {t : ValueType} {n : ℤ} {fault : ValueFault}

/-! ## Reading a payload -/

/-- **The integer that is read is the one that is denoted.** -/
theorem integerOfJson_eq_ok_iff : integerOfJson payload = .ok n ↔ payload.DenotesInt n := by
  constructor
  · intro h
    unfold integerOfJson at h
    split at h
    · split at h
      · next k hparse =>
        cases h
        obtain ⟨hform, hvalue⟩ := Decimal.parseInt?_eq_some_iff.mp hparse
        exact .numeral hform hvalue
      · cases h
    · next k fits =>
      cases h
      exact .number fits
    · cases h
    · cases h
  · intro h
    cases h with
    | numeral hform hvalue =>
      have hparse := Decimal.parseInt?_eq_some_iff.mpr ⟨hform, hvalue⟩
      simp only [integerOfJson, hparse]
    | number fits => rfl

/-- A numeral may begin with zeros, and zero may have a sign. -/
example : integerOfJson (.string "-007") = .ok (-7) ∧ integerOfJson (.string "-0") = .ok 0 := by
  decide

/-- A payload that denotes no integer is an error of shape. -/
theorem errorClass_of_integerOfJson (h : integerOfJson payload = .error fault) :
    fault.errorClass = .shape := by
  unfold integerOfJson at h
  split at h
  · split at h
    · cases h
    · cases h
      rfl
  · cases h
  · cases h
    rfl
  · cases h
    rfl

/-- An integer is made a value of type `int` or it is out of range. -/
theorem ofInt_cases (n : ℤ) :
    (-2 ^ 63 ≤ n ∧ n < 2 ^ 63) ∧ ofInt n = .ok (.int (Int64.ofInt n)) ∧ (Int64.ofInt n).toInt = n
    ∨ ValueType.int.Exceeds n ∧ ofInt n = .error (.intRange n) := by
  by_cases h : -2 ^ 63 ≤ n ∧ n < 2 ^ 63
  · refine .inl ⟨h, if_pos (by omega), ?_⟩
    exact Int64.toInt_ofInt_of_le (by omega) (by omega)
  · exact .inr ⟨h, if_neg (by omega)⟩

/-- An integer is made a cryptographic value or it is out of range. -/
theorem ofElement_cases (n : ℤ) :
    (∃ m : ℕ, n = m ∧ m < fieldModulus ∧ ofElement n = .ok (.cryptographic m))
    ∨ ValueType.cryptographic.Exceeds n
      ∧ ∃ fault, ofElement n = .error fault ∧ fault.errorClass = .range := by
  by_cases hneg : n < 0
  · exact .inr ⟨fun h => by omega, _, if_pos hneg, rfl⟩
  · obtain ⟨m, rfl⟩ := Int.eq_ofNat_of_zero_le (not_lt.mp hneg)
    by_cases hlt : m < fieldModulus
    · refine .inl ⟨m, rfl, hlt, ?_⟩
      rw [ofElement, if_neg hneg]
      exact if_pos hlt
    · refine .inr ⟨fun h => hlt (by omega), .largeElement m, ?_, rfl⟩
      rw [ofElement, if_neg hneg]
      exact if_neg hlt

/-- **The value that is read is the one that is denoted.** -/
theorem ofPayload_eq_ok_iff : ofPayload t payload = .ok a ↔ t.Denotes payload a := by
  constructor
  · intro h
    cases t with
    | string =>
      cases payload <;> cases h
      exact .string _
    | int =>
      obtain ⟨n, hn, h⟩ := Except.bind_eq_ok_iff.mp h
      rcases ofInt_cases n with ⟨hrange, hok, hvalue⟩ | ⟨-, herror⟩
      · cases hok.symm.trans h
        exact .int (integerOfJson_eq_ok_iff.mp hn) hrange hvalue
      · cases herror.symm.trans h
    | cryptographic =>
      obtain ⟨n, hn, h⟩ := Except.bind_eq_ok_iff.mp h
      rcases ofElement_cases n with ⟨m, rfl, hlt, hok⟩ | ⟨-, fault, herror, -⟩
      · cases hok.symm.trans h
        exact .cryptographic (integerOfJson_eq_ok_iff.mp hn) hlt
      · cases herror.symm.trans h
    | publicKey =>
      cases payload with
      | string s =>
        obtain ⟨k, hk, rfl⟩ := Except.map_eq_ok_iff.mp (Except.mapError_eq_ok_iff.mp h)
        obtain ⟨b, hbytes, hpoint⟩ := PublicKey.ofText_eq_ok_iff.mp hk
        exact .publicKey hbytes hpoint
      | _ => cases h
  · intro h
    cases h with
    | string s => rfl
    | @int _ n i hn hrange hvalue =>
      refine Except.bind_eq_ok_iff.mpr ⟨n, integerOfJson_eq_ok_iff.mpr hn, ?_⟩
      rw [← hvalue, ofInt_toInt]
    | @cryptographic _ n hn hlt =>
      exact Except.bind_eq_ok_iff.mpr
        ⟨n, integerOfJson_eq_ok_iff.mpr hn, ofElement_natCast hlt⟩
    | publicKey hbytes hpoint =>
      have hk := PublicKey.ofText_eq_ok_iff.mpr ⟨_, hbytes, hpoint⟩
      simp only [ofPayload, hk, Except.map, Except.mapError_ok]

/-- An integer is refused for its range only. -/
theorem isRangeIff_of_integer {f : ℤ → Except ValueFault Value}
    (h : integerOfJson payload >>= f = .error fault)
    (hf : ∀ n fault, f n = .error fault → t.Exceeds n ∧ fault.errorClass = .range) :
    fault.errorClass.IsRangeIff (∃ n, payload.DenotesInt n ∧ t.Exceeds n) := by
  cases hn : integerOfJson payload with
  | error e =>
    rw [hn] at h
    cases h
    refine .inr ⟨errorClass_of_integerOfJson hn, ?_⟩
    rintro ⟨n, hdenotes, -⟩
    cases hn.symm.trans (integerOfJson_eq_ok_iff.mpr hdenotes)
  | ok n =>
    rw [hn] at h
    obtain ⟨hexceeds, hclass⟩ := hf n fault h
    exact .inl ⟨hclass, n, integerOfJson_eq_ok_iff.mp hn, hexceeds⟩

/-- **A payload is refused for its range** if it denotes an integer that its type cannot hold. -/
theorem isRangeIff_of_ofPayload (h : ofPayload t payload = .error fault) :
    fault.errorClass.IsRangeIff (∃ n, payload.DenotesInt n ∧ t.Exceeds n) := by
  cases t with
  | string =>
    refine .inr ⟨by cases payload <;> cases h <;> rfl, ?_⟩
    rintro ⟨n, -, hexceeds⟩
    exact hexceeds
  | int =>
    refine isRangeIff_of_integer h fun n fault hn => ?_
    rcases ofInt_cases n with ⟨-, hok, -⟩ | ⟨hexceeds, herror⟩
    · cases hok.symm.trans hn
    · cases herror.symm.trans hn
      exact ⟨hexceeds, rfl⟩
  | cryptographic =>
    refine isRangeIff_of_integer h fun n fault hn => ?_
    rcases ofElement_cases n with ⟨m, -, -, hok⟩ | ⟨hexceeds, fault', herror, hclass⟩
    · cases hok.symm.trans hn
    · cases herror.symm.trans hn
      exact ⟨hexceeds, hclass⟩
  | publicKey =>
    refine .inr ⟨?_, by rintro ⟨n, -, hexceeds⟩; exact hexceeds⟩
    cases payload with
    | string s =>
      cases hk : PublicKey.ofText s with
      | ok k =>
        simp only [ofPayload, hk, Except.map, Except.mapError_ok] at h
        cases h
      | error e =>
        simp only [ofPayload, hk, Except.map, Except.mapError_error] at h
        cases h
        exact PublicKey.errorClass_of_ofText hk
    | _ =>
      cases h
      rfl

/-- Numeric types take an integer in either form. -/
theorem ofPayload_eq_of_denotesInt (ht : t = .int ∨ t = .cryptographic)
    (h : payload.DenotesInt n) (h' : payload'.DenotesInt n) :
    ofPayload t payload = ofPayload t payload' := by
  rw [← integerOfJson_eq_ok_iff] at h h'
  rcases ht with rfl | rfl
  · simp only [ofPayload, h, h']
  · simp only [ofPayload, h, h']

/-! ## Reading a value -/

/-- The search for a member of another key. -/
theorem find?_eq_none_iff {members : List (String × Json)} :
    (members.find? fun m => m.1 ≠ "type" ∧ m.1 ≠ "value") = none
      ↔ ∀ m ∈ members, m.1 = "type" ∨ m.1 = "value" := by
  rw [List.find?_eq_none]
  simp only [decide_eq_true_eq, not_and_or, not_not]

/-- An object of a type and a payload is read as the payload. -/
theorem ofJson_of_hasFields (h : v.HasFields t.tag payload) : ofJson v = ofPayload t payload := by
  obtain ⟨members, rfl, hkeys, htag, hpayload⟩ := h
  have hfind := find?_eq_none_iff.mpr hkeys
  simp only [ofJson, ofMembers, hfind, htag, hpayload, Option.bind_some, Json.asString?, ofTag?_tag,
    bind]

/-- Every other value is an error of shape. -/
theorem ofJson_of_not_hasFields
    (h : ∀ (t : ValueType) (payload : Json), ¬ v.HasFields t.tag payload) :
    ∃ fault, ofJson v = .error fault ∧ fault.errorClass = .shape := by
  cases v with
  | object members =>
    rw [ofJson, ofMembers]
    split
    · exact ⟨_, rfl, rfl⟩
    · next hfind =>
      dsimp only
      split
      case h_2 => exact ⟨_, rfl, rfl⟩
      next tag htag =>
      split
      case h_2 => exact ⟨_, rfl, rfl⟩
      next payload hpayload =>
      split
      case h_2 => exact ⟨_, rfl, rfl⟩
      next t ht =>
      obtain ⟨w, hw, hstring⟩ := Option.bind_eq_some_iff.mp htag
      cases w <;> cases hstring
      rw [ValueType.ofTag?] at ht
      have ht' := List.find?_some ht
      rw [decide_eq_true_eq] at ht'
      exact absurd ⟨members, rfl, find?_eq_none_iff.mp hfind, ht' ▸ hw, hpayload⟩ (h t payload)
  | _ => exact ⟨_, rfl, rfl⟩

/-- **The value that is read is the one that is denoted.** -/
theorem ofJson_eq_ok_iff : ofJson v = .ok a ↔ v.Denotes a := by
  constructor
  · intro h
    by_cases hfields : ∃ (t : ValueType) (payload : Json), v.HasFields t.tag payload
    · obtain ⟨t, payload, hfields⟩ := hfields
      rw [ofJson_of_hasFields hfields, ofPayload_eq_ok_iff] at h
      exact ⟨t, payload, hfields, h⟩
    · push Not at hfields
      obtain ⟨fault, herror, -⟩ := ofJson_of_not_hasFields hfields
      cases herror.symm.trans h
  · rintro ⟨t, payload, hfields, h⟩
    rw [ofJson_of_hasFields hfields, ofPayload_eq_ok_iff]
    exact h

/-- **A value is refused for its range** if it is well shaped and its integer is out of range. -/
theorem isRangeIff_of_ofJson (h : ofJson v = .error fault) :
    fault.errorClass.IsRangeIff v.OutOfRange := by
  by_cases hfields : ∃ (t : ValueType) (payload : Json), v.HasFields t.tag payload
  · obtain ⟨t, payload, hfields⟩ := hfields
    rw [ofJson_of_hasFields hfields] at h
    refine (ErrorClass.isRangeIff_congr ?_).mp (isRangeIff_of_ofPayload h)
    constructor
    · rintro ⟨n, hdenotes, hexceeds⟩
      exact ⟨t, payload, n, hfields, hdenotes, hexceeds⟩
    · rintro ⟨t', payload', n, hfields', hdenotes, hexceeds⟩
      obtain ⟨htag, rfl⟩ := hfields.unique hfields'
      have htype := ofTag?_tag t
      rw [htag, ofTag?_tag, Option.some_inj] at htype
      exact ⟨n, hdenotes, htype ▸ hexceeds⟩
  · push Not at hfields
    obtain ⟨fault', herror, hclass⟩ := ofJson_of_not_hasFields hfields
    cases herror.symm.trans h
    refine .inr ⟨hclass, ?_⟩
    rintro ⟨t, payload, n, hfields', -⟩
    exact hfields t payload hfields'

end Value

end ProvableRecord
