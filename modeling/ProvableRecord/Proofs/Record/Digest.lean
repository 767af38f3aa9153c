import ProvableRecord.Proofs.Record.Binding
import ProvableRecord.Proofs.Signature.Keys

/-!
# Two hashes of a value, and what they are hashes of

A value is hashed once for the tree, where a number is reduced without a check, and once outside,
where a number that is no field element is refused.  Each hash is the result of a computation, a
hash function with its input: `Value.call` for the tree, `Value.requireCall` outside
(`hash_eq_map_requireCall`).  For a valid value the second succeeds with the first
(`requireCall_eq_call`), so no number is ever reduced in the tree, and the hash outside fails only
where a number is no field element (`hash_eq_error_iff`).

Valid values with one computation are equal, or an integer and the field element that it stands for
(`call_eq_iff`): the integer is hashed as that element, and neither texts nor the residues of
integers nor points are identified.
-/

namespace ProvableRecord

namespace Value

/-- The computation of the hash of a value, where a number is checked first. -/
def requireCall : Value → Except RecordError HashCall
  | string s => .ok (.fold (textBytes s))
  | int n => .ok (.one (.ofInt n.toInt))
  | cryptographic n => (requireElement n).map .one
  | publicKey k => .ok (.two k.point.x k.point.y)

variable {v w : Value}

/-- The hash of a value is the result of its computation. -/
theorem hash_eq_map_requireCall (v : Value) :
    v.hash = v.requireCall.map fun c => c.result.val := by
  cases v with
  | string s =>
    have hlt : byteDigest (textBytes s) < fieldModulus := byteDigest_lt _
    simp only [hash, requireCall, Except.map, HashCall.result, Fp.val_ofNat, Nat.mod_eq_of_lt hlt,
      textDigest]
  | int n => simp only [hash, requireCall, Except.map, HashCall.result, intHash_eq]
  | cryptographic n =>
    rw [hash, requireCall, elementHash]
    cases requireElement n <;> rfl
  | publicKey k => simp only [hash, requireCall, Except.map, HashCall.result, PublicKey.hash]

/-- **A valid value passes the check with the computation of its leaf.** -/
theorem requireCall_eq_call (h : v.IsValid) : v.requireCall = .ok v.call := by
  cases v with
  | cryptographic n =>
    rw [requireCall, requireElement_eq_ok h]
    rfl
  | string | int | publicKey => rfl

theorem not_isValid_iff : ¬ v.IsValid ↔ ∃ n, v = .cryptographic n ∧ fieldModulus ≤ n := by
  constructor
  · intro h
    cases v with
    | cryptographic n => exact ⟨n, rfl, not_lt.mp h⟩
    | string | int | publicKey => exact absurd trivial h
  · rintro ⟨n, rfl, hge⟩
    exact hge.not_gt

/-- **The hash of a value fails exactly for a number that is no field element**, with that number as
the fault. -/
theorem hash_eq_error_iff {fault : RecordError} : v.hash = .error fault
    ↔ ∃ n, v = .cryptographic n ∧ fieldModulus ≤ n ∧ fault = .primitive (.notFieldElement n) := by
  constructor
  · intro h
    have hvalid : ¬ v.IsValid := by
      intro hvalid
      rw [hash_eq_val_leaf hvalid] at h
      cases h
    obtain ⟨n, rfl, hge⟩ := not_isValid_iff.mp hvalid
    rw [hash, elementHash, requireElement_eq_error hge] at h
    cases h
    exact ⟨n, rfl, hge, rfl⟩
  · rintro ⟨n, rfl, hge, rfl⟩
    rw [hash, elementHash, requireElement_eq_error hge]
    rfl

/-- **Valid values with one computation are equal or aliases.** -/
theorem call_eq_iff (hv : v.IsValid) (hw : w.IsValid) : v.call = w.call ↔ v = w ∨ v.Alias w := by
  refine ⟨agree_of_call_eq hv hw, ?_⟩
  rintro (rfl | ⟨n, ⟨rfl, rfl⟩ | ⟨rfl, rfl⟩⟩)
  · rfl
  · rw [call, call, Fp.ofNat_val]
  · rw [call, call, Fp.ofNat_val]

/-- Keys have one computation exactly if they are one point. -/
theorem call_publicKey_eq_iff {j k : PublicKey} :
    (publicKey j).call = (publicKey k).call ↔ j.point = k.point := by
  obtain ⟨⟨x, y⟩⟩ := j
  obtain ⟨⟨x', y'⟩⟩ := k
  rw [call, call, HashCall.two.injEq, Point.mk.injEq]

end Value

/-- **The two hashes of a value agree, and tell values apart up to aliases.**  The hash of a name
has 248 bits and is the number of its leaf.  A valid value has a hash, which is the number of its
leaf, and a hash fails exactly for a number that is no field element, which is out of range.  The
hash and the leaf are results of computations, the same ones for a valid value, and valid values
have one computation exactly if they are equal, keys with the bytes that are kept with them, or an
integer and the field element that it stands for. -/
theorem hashes_agree :
    (∀ name : String, textDigest name < 2 ^ 248 ∧ (nameLeaf name).val = textDigest name)
    ∧ (∀ v : Value, v.IsValid → v.hash = .ok v.leaf.val ∧ v.leaf.val < fieldModulus)
    ∧ (∀ v : Value, (∃ fault, v.hash = .error fault) ↔ ∃ n, v = .cryptographic n ∧ fieldModulus ≤ n)
    ∧ (∀ (v : Value) (fault : RecordError), v.hash = .error fault → fault.errorClass = .range)
    ∧ (∀ v : Value, v.hash = v.requireCall.map (fun c => c.result.val) ∧ v.leaf = v.call.result)
    ∧ (∀ v : Value, v.IsValid → v.requireCall = .ok v.call)
    ∧ (∀ v w : Value, v.IsValid → w.IsValid → (v.call = w.call ↔ v = w ∨ v.Alias w))
    ∧ ∀ (b b' : Bytes 32) (k k' : PublicKey), k.Kept b → k'.Kept b' →
      ((Value.publicKey k).call = (Value.publicKey k').call ↔ (b, k) = (b', k')) := by
  refine ⟨fun name => ⟨byteDigest_lt_two_pow _, val_nameLeaf name⟩,
    fun v hv => ⟨Value.hash_eq_val_leaf hv, Fp.val_lt _⟩, fun v => ⟨?_, ?_⟩, ?_,
    fun v => ⟨v.hash_eq_map_requireCall, v.result_call.symm⟩,
    fun v hv => Value.requireCall_eq_call hv, fun v w hv hw => Value.call_eq_iff hv hw,
    fun _ _ _ _ h h' => Value.call_publicKey_eq_iff.trans (h.eq_iff h').2.symm⟩
  · rintro ⟨fault, h⟩
    obtain ⟨n, hn, hge, -⟩ := Value.hash_eq_error_iff.mp h
    exact ⟨n, hn, hge⟩
  · rintro ⟨n, hn, hge⟩
    exact ⟨_, Value.hash_eq_error_iff.mpr ⟨n, hn, hge, rfl⟩⟩
  · intro v fault h
    obtain ⟨n, -, -, rfl⟩ := Value.hash_eq_error_iff.mp h
    rfl

/-- The integer `-1` with the field element that it stands for, the least number that is no field
element, and a key once made and once read from its bytes. -/
theorem hashes_agree_minus_one :
    let v : Value := .int (-1)
    let w : Value := .cryptographic (fieldModulus - 1)
    let k := (⟨Bytes.ofNat 32 5⟩ : PrivateKey).publicKey
    (v.IsValid ∧ w.IsValid ∧ k.Kept k.point.pack ∧ k.Kept k.bytes)
      ∧ (v.hash = .ok v.leaf.val ∧ v.leaf.val < fieldModulus)
      ∧ (w.hash = .ok w.leaf.val ∧ w.leaf.val < fieldModulus)
      ∧ (∃ fault, (Value.cryptographic fieldModulus).hash = .error fault
        ∧ fault.errorClass = .range)
      ∧ (v.requireCall = .ok v.call ∧ w.requireCall = .ok w.call ∧ v.call = w.call ∧ v ≠ w)
      ∧ ((Value.publicKey k).call = (Value.publicKey k).call
        ↔ (k.point.pack, k) = (k.bytes, k)) := by
  intro v w k
  have hv : v.IsValid := trivial
  have hw : w.IsValid := Nat.sub_lt fieldModulus_pos Nat.one_pos
  have hmade : k.Kept k.point.pack := .ofPrivate _
  have hread : k.Kept k.bytes := .ofBytes (PublicKey.Obtainable.ofPrivate _).ofBytes_bytes
  obtain ⟨-, hhash, hfails, hrange, -, hcheck, hcall, hkeys⟩ := hashes_agree
  obtain ⟨fault, hfault⟩ := (hfails (.cryptographic fieldModulus)).mpr ⟨_, rfl, le_rfl⟩
  have hone : v.call = w.call := (hcall v w hv hw).mpr (.inr ⟨-1, .inl ⟨rfl, rfl⟩⟩)
  exact ⟨⟨hv, hw, hmade, hread⟩, hhash v hv, hhash w hw, ⟨fault, hfault, hrange _ _ hfault⟩,
    ⟨hcheck v hv, hcheck w hw, hone, fun h => nomatch h⟩, hkeys _ _ k k hmade hread⟩

end ProvableRecord
