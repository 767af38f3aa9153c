import Mathlib.Data.List.Infix
import ProvableRecord.Proofs.Json.Level
import ProvableRecord.Proofs.Json.Token

/-!
# More fuel reads the same

A reader of JSON text takes what it reads off the front of the text, so what is left is an end of it
(`suffix_of_readValue`), and once it has read something, more fuel changes nothing
(`readValue_of_le`).  Both go by induction on the fuel, one level of the text at a time
(`ReadsLevel.suffix`, `ReadsLevel.extend`).
-/

namespace ProvableRecord.Json

variable {fuel fuel' depth : ℕ} {s t rest : List Char}

/-! ## Tokens -/

theorem skipBlanks_suffix (s : List Char) : skipBlanks s <:+ s := List.dropWhile_suffix _

theorem suffix_of_skipBlanks {c : Char} (h : skipBlanks s = c :: t) : t <:+ s :=
  (List.suffix_cons c t).trans (h ▸ skipBlanks_suffix s)

theorem suffix_of_skipWord {word : List Char} (h : skipWord word s = some rest) : rest <:+ s := by
  rw [skipWord] at h
  split at h
  · cases h
    exact List.drop_suffix _ _
  · cases h

/-- A token that was found behind blanks makes the text shorter. -/
theorem length_lt_of_skipBlanks {c : Char} (h : skipBlanks s = c :: t) : t.length < s.length := by
  have hle := (skipBlanks_suffix s).length_le
  rw [h, List.length_cons] at hle
  exact hle

theorem suffix_of_readNumberedEscape {c : Char} (h : readNumberedEscape s = some (c, rest)) :
    rest <:+ s := by
  unfold readNumberedEscape at h
  split at h
  case h_2 => cases h
  case h_1 a b c d s =>
    obtain ⟨n, -, h⟩ := Option.bind_eq_some_iff.mp h
    have hrest : rest <:+ s := by
      split at h
      · cases h
      · split at h
        · split at h
          · next a' b' c' d' s' _ =>
            obtain ⟨m, -, h⟩ := Option.bind_eq_some_iff.mp h
            split at h
            · obtain ⟨-, rfl⟩ := Prod.mk.inj (Option.some.inj h)
              exact List.suffix_append ['\\', 'u', a', b', c', d'] s'
            · cases h
          · cases h
        · cases h
          exact List.suffix_rfl
    exact hrest.trans (List.suffix_append [a, b, c, d] s)

theorem suffix_of_readStringChar {c : Char} (h : readStringChar s = some (c, rest)) :
    rest <:+ s := by
  unfold readStringChar at h
  split at h
  · exact (suffix_of_readNumberedEscape h).trans (List.suffix_append [_, _] _)
  · obtain ⟨_, -, h⟩ := Option.map_eq_some_iff.mp h
    cases h
    exact List.suffix_append [_, _] _
  · split at h
    · cases h
    · cases h
      exact List.suffix_cons _ _
  · cases h

/-- The rest of a string is its closing quote, or a character and the rest after it. -/
theorem readStringRest_succ_iff {cs : List Char} :
    readStringRest (fuel + 1) s = some (cs, rest) ↔ s = '"' :: rest ∧ cs = []
      ∨ ∃ c s' cs', readStringChar s = some (c, s') ∧ readStringRest fuel s' = some (cs', rest)
        ∧ cs = c :: cs' := by
  constructor
  · intro h
    unfold readStringRest at h
    split at h
    · next heq => cases heq
    · cases h
      exact .inl ⟨rfl, rfl⟩
    · next heq _ =>
      obtain rfl := Nat.succ.inj heq
      obtain ⟨⟨c, s'⟩, hc, h⟩ := Option.bind_eq_some_iff.mp h
      obtain ⟨⟨cs', rest'⟩, hcs, h⟩ := Option.bind_eq_some_iff.mp h
      cases h
      exact .inr ⟨c, s', cs', hc, hcs, rfl⟩
  · rintro (⟨rfl, rfl⟩ | ⟨c, s', cs', hc, hcs, rfl⟩)
    · rfl
    · exact readStringRest_succ hc hcs

theorem suffix_of_readStringRest {cs : List Char} (h : readStringRest fuel s = some (cs, rest)) :
    rest <:+ s := by
  induction fuel generalizing s cs with
  | zero => cases h
  | succ fuel ih =>
    rcases readStringRest_succ_iff.mp h with ⟨rfl, -⟩ | ⟨c, s', cs', hc, hcs, -⟩
    · exact List.suffix_cons _ _
    · exact (ih hcs).trans (suffix_of_readStringChar hc)

theorem readStringRest_of_le {cs : List Char} (h : readStringRest fuel s = some (cs, rest))
    (hle : fuel ≤ fuel') : readStringRest fuel' s = some (cs, rest) := by
  induction fuel generalizing s cs fuel' with
  | zero => cases h
  | succ fuel ih =>
    obtain ⟨fuel', rfl⟩ : ∃ k, fuel' = k + 1 := ⟨fuel' - 1, by omega⟩
    refine readStringRest_succ_iff.mpr ((readStringRest_succ_iff.mp h).imp_right ?_)
    rintro ⟨c, s', cs', hc, hcs, hcons⟩
    exact ⟨c, s', cs', hc, ih hcs (Nat.le_of_succ_le_succ hle), hcons⟩

theorem readString_eq_some_iff {str : String} : readString fuel s = some (str, rest)
    ↔ ∃ cs, readStringRest fuel s = some (cs, rest) ∧ String.ofList cs = str := by
  rw [readString, Option.map_eq_some_iff]
  constructor
  · rintro ⟨⟨cs, rest'⟩, hcs, heq⟩
    obtain ⟨rfl, rfl⟩ := Prod.mk.inj heq
    exact ⟨cs, hcs, rfl⟩
  · rintro ⟨cs, hcs, rfl⟩
    exact ⟨(cs, rest), hcs, rfl⟩

theorem suffix_of_readString {str : String} (h : readString fuel s = some (str, rest)) :
    rest <:+ s := by
  obtain ⟨cs, hcs, -⟩ := readString_eq_some_iff.mp h
  exact suffix_of_readStringRest hcs

theorem readString_of_le {str : String} (h : readString fuel s = some (str, rest))
    (hle : fuel ≤ fuel') : readString fuel' s = some (str, rest) := by
  obtain ⟨cs, hcs, hstr⟩ := readString_eq_some_iff.mp h
  exact readString_eq_some_iff.mpr ⟨cs, readStringRest_of_le hcs hle, hstr⟩

/-! ## Numbers -/

theorem suffix_of_scanDigits {ds : List Char} (h : Numeral.scanDigits s = some (ds, rest)) :
    rest <:+ s := by
  unfold Numeral.scanDigits at h
  split at h
  · cases h
  · cases h
    exact List.dropWhile_suffix _

theorem suffix_of_scanWhole {ds : List Char} (h : Numeral.scanWhole s = some (ds, rest)) :
    rest <:+ s := by
  unfold Numeral.scanWhole at h
  split at h
  · cases h
  · cases h
    exact List.drop_suffix _ _
  · cases h
  · cases h
    exact List.dropWhile_suffix _

theorem suffix_of_scanFraction {f : Option (List Char)}
    (h : Numeral.scanFraction s = some (f, rest)) : rest <:+ s := by
  unfold Numeral.scanFraction at h
  split at h
  · obtain ⟨⟨ds, rest'⟩, hds, heq⟩ := Option.map_eq_some_iff.mp h
    cases heq
    exact (suffix_of_scanDigits hds).trans (List.suffix_cons _ _)
  · cases h
    exact List.suffix_rfl

theorem suffix_scanSign (s : List Char) : (Numeral.scanSign s).2 <:+ s := by
  unfold Numeral.scanSign
  split
  · exact List.suffix_cons _ _
  · exact List.suffix_cons _ _
  · exact List.suffix_rfl

theorem suffix_of_scanExponent {e : Option (Bool × List Char)}
    (h : Numeral.scanExponent s = some (e, rest)) : rest <:+ s := by
  unfold Numeral.scanExponent at h
  split at h
  · split at h
    · obtain ⟨⟨ds, rest'⟩, hds, heq⟩ := Option.map_eq_some_iff.mp h
      cases heq
      exact (suffix_of_scanDigits hds).trans ((suffix_scanSign _).trans (List.suffix_cons _ _))
    · cases h
      exact List.suffix_rfl
  · cases h
    exact List.suffix_rfl

theorem suffix_of_scan {numeral : Numeral} (h : Numeral.scan s = some (numeral, rest)) :
    rest <:+ s := by
  unfold Numeral.scan at h
  split at h
  next negative s' heq =>
    have hsign : s' <:+ s := by
      split at heq
      · cases heq
        exact List.suffix_cons _ _
      · cases heq
        exact List.suffix_rfl
    obtain ⟨⟨whole, s₁⟩, hwhole, h⟩ := Option.bind_eq_some_iff.mp h
    obtain ⟨⟨fraction, s₂⟩, hfraction, h⟩ := Option.bind_eq_some_iff.mp h
    obtain ⟨⟨exponent, s₃⟩, hexponent, h⟩ := Option.bind_eq_some_iff.mp h
    cases h
    exact (suffix_of_scanExponent hexponent).trans ((suffix_of_scanFraction hfraction).trans
      ((suffix_of_scanWhole hwhole).trans hsign))

theorem suffix_of_readNumber {n : JsonNumber} (h : readNumber s = some (n, rest)) :
    rest <:+ s := by
  obtain ⟨⟨numeral, rest'⟩, hscan, h⟩ := Option.bind_eq_some_iff.mp h
  obtain ⟨n', -, h⟩ := Option.bind_eq_some_iff.mp h
  cases h
  exact suffix_of_scan hscan

/-! ## What is left -/

/-- With this fuel, what is left after reading is an end of the text. -/
structure LeavesSuffix (fuel : ℕ) : Prop where
  value {depth : ℕ} {s rest : List Char} {v : Json} :
    readValue fuel depth s = some (v, rest) → rest <:+ s
  items {depth : ℕ} {s rest : List Char} {vs : List Json} :
    readItems fuel depth s = some (vs, rest) → rest <:+ s
  members {depth : ℕ} {s rest : List Char} {ms : List (String × Json)} :
    readMembers fuel depth s = some (ms, rest) → rest <:+ s

theorem ReadsLevel.suffix (hfuel : LeavesSuffix fuel) {v : Json}
    (h : ReadsLevel fuel depth t v rest) : rest <:+ t := by
  cases h with
  | null word | true word | false word =>
    exact (suffix_of_skipWord word).trans (List.suffix_cons _ _)
  | string chars => exact (suffix_of_readString chars).trans (List.suffix_cons _ _)
  | emptyArray h | emptyObject h => exact (suffix_of_skipBlanks h).trans (List.suffix_cons _ _)
  | array _ items =>
    exact (hfuel.items items).trans ((skipBlanks_suffix _).trans (List.suffix_cons _ _))
  | object _ members =>
    exact (hfuel.members members).trans ((skipBlanks_suffix _).trans (List.suffix_cons _ _))
  | number _ numeral => exact suffix_of_readNumber numeral

/-- What is left after a key and its value is an end of the text. -/
theorem LeavesSuffix.member (hfuel : LeavesSuffix fuel) {s₁ s₂ s₃ : List Char} {key : String}
    {v : Json} (quote : skipBlanks s = '"' :: s₁) (chars : readString fuel s₁ = some (key, s₂))
    (colon : skipBlanks s₂ = ':' :: s₃) (value : readValue fuel depth s₃ = some (v, rest)) :
    rest <:+ s :=
  (hfuel.value value).trans ((suffix_of_skipBlanks colon).trans
    ((suffix_of_readString chars).trans (suffix_of_skipBlanks quote)))

theorem leavesSuffix (fuel : ℕ) : LeavesSuffix fuel := by
  -- the readers of values, items and members call each other, always with less fuel
  induction fuel with
  | zero => exact ⟨nofun, nofun, nofun⟩
  | succ fuel ih =>
    refine ⟨?_, ?_, ?_⟩
    · intro depth s rest v h
      exact ((readValue_succ_iff.mp h).suffix ih).trans (skipBlanks_suffix s)
    · intro depth s rest vs h
      cases readItems_succ_iff.mp h with
      | last value bracket => exact (suffix_of_skipBlanks bracket).trans (ih.value value)
      | more value comma items =>
        exact (ih.items items).trans ((suffix_of_skipBlanks comma).trans (ih.value value))
    · intro depth s rest ms h
      cases readMembers_succ_iff.mp h with
      | last quote chars colon value brace =>
        exact (suffix_of_skipBlanks brace).trans (ih.member quote chars colon value)
      | more quote chars colon value comma members =>
        exact (ih.members members).trans ((suffix_of_skipBlanks comma).trans
          (ih.member quote chars colon value))

/-- **Reading takes a value off the front of the text.** -/
theorem suffix_of_readValue {v : Json} (h : readValue fuel depth s = some (v, rest)) :
    rest <:+ s :=
  (leavesSuffix fuel).value h

/-! ## More fuel -/

/-- What is read with some fuel is read with other fuel. -/
structure FuelExtends (fuel fuel' : ℕ) : Prop where
  value {depth : ℕ} {s rest : List Char} {v : Json} :
    readValue fuel depth s = some (v, rest) → readValue fuel' depth s = some (v, rest)
  items {depth : ℕ} {s rest : List Char} {vs : List Json} :
    readItems fuel depth s = some (vs, rest) → readItems fuel' depth s = some (vs, rest)
  members {depth : ℕ} {s rest : List Char} {ms : List (String × Json)} :
    readMembers fuel depth s = some (ms, rest) → readMembers fuel' depth s = some (ms, rest)

theorem ReadsLevel.extend (hle : fuel ≤ fuel') (hfuel : FuelExtends fuel fuel') {v : Json}
    (h : ReadsLevel fuel depth t v rest) : ReadsLevel fuel' depth t v rest := by
  cases h with
  | null word => exact .null word
  | true word => exact .true word
  | false word => exact .false word
  | string chars => exact .string (readString_of_le chars hle)
  | emptyArray bracket => exact .emptyArray bracket
  | array nonempty items => exact .array nonempty (hfuel.items items)
  | emptyObject brace => exact .emptyObject brace
  | object nonempty members => exact .object nonempty (hfuel.members members)
  | number starts numeral => exact .number starts numeral

theorem fuelExtends (hle : fuel ≤ fuel') : FuelExtends fuel fuel' := by
  induction fuel generalizing fuel' with
  | zero => exact ⟨nofun, nofun, nofun⟩
  | succ fuel ih =>
    obtain ⟨fuel', rfl⟩ : ∃ k, fuel' = k + 1 := ⟨fuel' - 1, by omega⟩
    have hle := Nat.le_of_succ_le_succ hle
    have ih := ih hle
    refine ⟨?_, ?_, ?_⟩
    · intro depth s rest v h
      exact readValue_succ_iff.mpr ((readValue_succ_iff.mp h).extend hle ih)
    · intro depth s rest vs h
      refine readItems_succ_iff.mpr ?_
      cases readItems_succ_iff.mp h with
      | last value bracket => exact .last (ih.value value) bracket
      | more value comma items => exact .more (ih.value value) comma (ih.items items)
    · intro depth s rest ms h
      refine readMembers_succ_iff.mpr ?_
      cases readMembers_succ_iff.mp h with
      | last quote chars colon value brace =>
        exact .last quote (readString_of_le chars hle) colon (ih.value value) brace
      | more quote chars colon value comma members =>
        exact .more quote (readString_of_le chars hle) colon (ih.value value) comma
          (ih.members members)

/-- **More fuel reads the same value.** -/
theorem readValue_of_le {v : Json} (h : readValue fuel depth s = some (v, rest))
    (hle : fuel ≤ fuel') : readValue fuel' depth s = some (v, rest) :=
  (fuelExtends hle).value h

end ProvableRecord.Json
