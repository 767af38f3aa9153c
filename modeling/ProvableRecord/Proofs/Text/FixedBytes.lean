import Mathlib.Data.List.TakeWhile
import ProvableRecord.Proofs.Except
import ProvableRecord.Proofs.Text.Base64
import ProvableRecord.Proofs.Text.Hex
import ProvableRecord.Text.FixedBytes

/-!
# Texts of byte strings of a known length

`n` bytes have two renderings: their hexadecimal digits in any mix of cases, and their Base64 text
with up to two padding characters.  Reading takes a text of `2 n` hexadecimal digits for the first
and every other text for the second (`decodeText_eq_ok_iff`).

Hexadecimal digits are Base64 symbols too.  The Base64 text of `n` bytes has `4 n / 3` symbols,
rounded up, which is never `2 n` unless `n` is zero or one, so the form of a rendering is never
mistaken for any other length (`ofText_eq_ok_iff`).
-/

namespace ProvableRecord

namespace Base64

/-- The characters are the Base64 text of the bytes, followed by at most two padding characters. -/
def Renders (cs : List Char) (bs : List UInt8) : Prop :=
  ∃ k ≤ 2, cs = encodeBytes bs ++ List.replicate k '='

/-- Padding ends the symbols of a text. -/
theorem takeWhile_append_padding (bs : List UInt8) (k : ℕ) :
    (encodeBytes bs ++ List.replicate k '=').takeWhile isSymbol = encodeBytes bs := by
  rw [List.takeWhile_append_of_pos fun _ h => isSymbol_of_mem_encodeBytes h,
    List.takeWhile_replicate, if_neg (by decide), List.append_nil]

theorem dropWhile_append_padding (bs : List UInt8) (k : ℕ) :
    (encodeBytes bs ++ List.replicate k '=').dropWhile isSymbol = List.replicate k '=' := by
  rw [List.dropWhile_append_of_pos fun _ h => isSymbol_of_mem_encodeBytes h,
    List.dropWhile_replicate, if_neg (by decide)]

/-- The text is not empty, and at most two padding characters follow its symbols. -/
theorem isPadded_iff {cs : List Char} :
    isPadded cs = true
      ↔ cs ≠ [] ∧ ∃ k ≤ 2, cs.dropWhile isSymbol = List.replicate k '=' := by
  have hempty : (cs.takeWhile isSymbol = [] ∧ cs.dropWhile isSymbol = []) ↔ cs = [] := by
    rw [← List.append_eq_nil_iff, List.takeWhile_append_dropWhile]
  have hpadding : (∃ k ≤ 2, cs.dropWhile isSymbol = List.replicate k '=')
      ↔ (cs.dropWhile isSymbol).length ≤ 2 ∧ ∀ c ∈ cs.dropWhile isSymbol, c = '=' := by
    simp only [List.eq_replicate_iff]
    constructor
    · rintro ⟨k, hk, rfl, hall⟩
      exact ⟨hk, hall⟩
    · rintro ⟨hk, hall⟩
      exact ⟨_, hk, rfl, hall⟩
  rw [hpadding, ne_eq, ← hempty, not_and_or]
  simp only [isPadded, Bool.and_eq_true, decide_eq_true_eq, List.all_eq_true, Bool.not_eq_true',
    Bool.and_eq_false_iff, List.isEmpty_eq_false_iff, ne_eq]
  exact and_comm

/-- A text renders bytes if its symbols denote them and padding follows. -/
theorem renders_iff {cs : List Char} {bs : List UInt8} :
    Renders cs bs
      ↔ (∃ k ≤ 2, cs.dropWhile isSymbol = List.replicate k '=')
        ∧ decode (cs.takeWhile isSymbol) = .ok bs := by
  constructor
  · rintro ⟨k, hk, rfl⟩
    rw [takeWhile_append_padding, dropWhile_append_padding]
    exact ⟨⟨k, hk, rfl⟩, decode_encodeBytes bs⟩
  · rintro ⟨⟨k, hk, hpadding⟩, hdecode⟩
    rw [decode_eq_ok_iff fun c hc => List.mem_takeWhile_imp hc] at hdecode
    exact ⟨k, hk, by rw [← hdecode, ← hpadding, List.takeWhile_append_dropWhile]⟩

theorem Renders.eq_nil {bs : List UInt8} (h : Renders [] bs) : bs = [] := by
  obtain ⟨k, -, hnil⟩ := h
  have hlength := congrArg List.length hnil
  rw [List.length_append, length_encodeBytes, List.length_nil] at hlength
  exact List.eq_nil_of_length_eq_zero (by omega)

end Base64

namespace Bytes

variable {n : ℕ} {text thing : String} {bs : List UInt8}

theorem ofList?_toList (b : Bytes n) : ofList? n b.toList = some b := by
  rw [ofList?, dif_pos b.length_toList]

theorem ofList?_eq_some_iff {b : Bytes n} : ofList? n bs = some b ↔ b.toList = bs := by
  constructor
  · intro h
    unfold ofList? at h
    split at h
    · cases h
      rfl
    · cases h
  · rintro rfl
    exact ofList?_toList b

/-! ## What a text denotes -/

/-- A text of hexadecimal digits, two for each byte expected, denotes its bytes. -/
theorem decodeText_of_hex (h : Hex.Renders text.toList bs) (hlength : bs.length = n) :
    decodeText n text thing = .ok bs := by
  have hchars : text.toList.length = 2 * n := by rw [h.length_eq, hlength]
  have hdecode : Hex.decode? text.toList = some bs := Hex.decode?_eq_some_iff.mpr h
  simp only [decodeText, hchars, if_true, hdecode]

/-- Any other text is read as Base64. -/
theorem decodeText_of_not_hex (h : ∀ bs, Hex.Renders text.toList bs → bs.length ≠ n) :
    decodeText n text thing
      = if Base64.isPadded text.toList then
          (Base64.decode (text.toList.takeWhile Base64.isSymbol)).mapError fun fault =>
            .encoding thing (.base64 fault)
        else .error (.encoding thing .neitherForm) := by
  have hnone : (if text.toList.length = 2 * n then Hex.decode? text.toList else none) = none := by
    split
    · next hchars =>
      rw [Option.eq_none_iff_forall_ne_some]
      intro bs hdecode
      have hrenders := Hex.decode?_eq_some_iff.mp hdecode
      have hlength := hrenders.length_eq
      exact h bs hrenders (by omega)
    · rfl
  simp only [decodeText, hnone]

/-- **Any other text denotes the bytes whose Base64 text it is.** -/
theorem decodeText_eq_ok_iff_base64 (h : ∀ bs, Hex.Renders text.toList bs → bs.length ≠ n) :
    decodeText n text thing = .ok bs ↔ text.toList ≠ [] ∧ Base64.Renders text.toList bs := by
  rw [decodeText_of_not_hex h, Base64.renders_iff, ← and_assoc, ← Base64.isPadded_iff]
  split
  · next hpadded => rw [Except.mapError_eq_ok_iff, eq_true hpadded, true_and]
  · next hpadded => exact iff_of_false (by rintro ⟨⟩) fun hok => hpadded hok.1

/-- A text that denotes no bytes is in neither form, or not the Base64 text of any bytes. -/
theorem exists_eq_encoding_of_decodeText {e : PrimitiveError}
    (h : decodeText n text thing = .error e) : ∃ fault, e = .encoding thing fault := by
  have hhex : ∀ bs, Hex.Renders text.toList bs → bs.length ≠ n := by
    intro bs hrenders hlength
    rw [decodeText_of_hex hrenders hlength] at h
    cases h
  rw [decodeText_of_not_hex hhex] at h
  split at h
  · cases hdecode : Base64.decode (text.toList.takeWhile Base64.isSymbol) with
    | ok bs =>
      rw [hdecode] at h
      cases h
    | error fault =>
      rw [hdecode] at h
      cases h
      exact ⟨_, rfl⟩
  · cases h
    exact ⟨_, rfl⟩

/-- **Only a text of no bytes or of one byte can be taken for the other form.** -/
theorem eq_nil_of_renders {cs : List Char} {hex : List UInt8} (hhex : Hex.Renders cs hex)
    (hbase64 : Base64.Renders cs bs) (hlength : hex.length = bs.length) (hone : bs.length ≠ 1) :
    hex = [] ∧ bs = [] := by
  obtain ⟨k, -, rfl⟩ := hbase64
  have hpadding : k = 0 := by
    by_contra hk
    have hmem : '=' ∈ Base64.encodeBytes bs ++ List.replicate k '=' :=
      List.mem_append_right _ (List.mem_replicate.mpr ⟨hk, rfl⟩)
    exact absurd (hhex.isDigit_of_mem hmem) (by decide)
  have hchars := hhex.length_eq
  rw [hpadding, List.replicate_zero, List.append_nil, Base64.length_encodeBytes] at hchars
  exact ⟨List.eq_nil_of_length_eq_zero (by omega), List.eq_nil_of_length_eq_zero (by omega)⟩

/-! ## Reading a byte string -/

theorem ofText_eq_ok_iff_decodeText {b : Bytes n} :
    ofText n text thing = .ok b ↔ decodeText n text thing = .ok b.toList := by
  rw [ofText, Except.bind_eq_ok_iff]
  constructor
  · rintro ⟨bs, hbs, h⟩
    cases hlist : ofList? n bs with
    | none =>
      rw [hlist] at h
      cases h
    | some b' =>
      rw [hlist] at h
      cases h
      rw [hbs, ofList?_eq_some_iff.mp hlist]
  · intro h
    refine ⟨b.toList, h, ?_⟩
    rw [ofList?_toList]
    rfl

/-- The text is one of the two renderings of the bytes. -/
def Renders (b : Bytes n) (text : String) : Prop :=
  Hex.Renders text.toList b.toList ∨ Base64.Renders text.toList b.toList

/-- **A text is read if it is one of the two renderings of a byte string**, unless a single byte is
expected. -/
theorem ofText_eq_ok_iff (hn : n ≠ 1) {b : Bytes n} :
    ofText n text thing = .ok b ↔ b.Renders text := by
  rw [ofText_eq_ok_iff_decodeText, Renders]
  have hb := b.length_toList
  by_cases hhex : ∃ hex, Hex.Renders text.toList hex ∧ hex.length = n
  · obtain ⟨hex, hrenders, hlength⟩ := hhex
    rw [decodeText_of_hex hrenders hlength, Except.ok.injEq]
    constructor
    · rintro rfl
      exact .inl hrenders
    · rintro (h | h)
      · exact hrenders.unique h
      · have hone : b.toList.length ≠ 1 := by rwa [hb]
        obtain ⟨rfl, hnil⟩ := eq_nil_of_renders hrenders h (hlength.trans hb.symm) hone
        exact hnil.symm
  · have hnot : ∀ hex, Hex.Renders text.toList hex → hex.length ≠ n :=
      fun hex hrenders hlength => hhex ⟨hex, hrenders, hlength⟩
    rw [decodeText_eq_ok_iff_base64 hnot]
    constructor
    · rintro ⟨-, h⟩
      exact .inr h
    · rintro (h | h)
      · exact absurd hb (hnot _ h)
      · refine ⟨fun hnil => ?_, h⟩
        -- the empty text renders no bytes, in hexadecimal too
        rw [hnil] at h hnot
        exact hnot _ (Hex.renders_nil_iff.mpr h.eq_nil) hb

theorem renders_toText (b : Bytes n) : b.Renders b.toText := by
  refine .inr ⟨0, by omega, ?_⟩
  rw [toText, Base64.encode, String.toList_ofList, List.replicate_zero, List.append_nil]

/-- The text of a byte string is read back, unless it is a single byte. -/
theorem ofText_toText (hn : n ≠ 1) (b : Bytes n) (thing : String) :
    ofText n b.toText thing = .ok b :=
  (ofText_eq_ok_iff hn).mpr b.renders_toText

/-- A text renders one byte string of a length. -/
theorem Renders.unique (hn : n ≠ 1) {b b' : Bytes n} (h : b.Renders text) (h' : b'.Renders text) :
    b = b' := by
  have hread : ofText n text "" = .ok b := (ofText_eq_ok_iff hn).mpr h
  rw [(ofText_eq_ok_iff hn).mpr h'] at hread
  exact (Except.ok.inj hread).symm

/-! ## Texts that are refused -/

/-- The text is the Base64 text of a byte string of another length than `n`. -/
def RendersOther (n : ℕ) (text : String) : Prop :=
  text ≠ "" ∧ ∃ bs, bs.length ≠ n ∧ Base64.Renders text.toList bs

theorem ofText_of_length_ne (h : decodeText n text thing = .ok bs) (hlength : bs.length ≠ n) :
    ofText n text thing = .error (.length thing n bs.length) := by
  have hlist : ofList? n bs = none := by rw [ofList?, dif_neg hlength]
  simp only [ofText, h, bind, Except.bind, hlist]
  rfl

/-- **A text is refused for its length if it is the text of a byte string of another length**, and
for its form otherwise. -/
theorem length_or_encoding {fault : PrimitiveError} (h : ofText n text thing = .error fault) :
    (RendersOther n text ∧ ∃ actual, fault = .length thing n actual)
      ∨ ¬ RendersOther n text ∧ ∃ e, fault = .encoding thing e := by
  have hnot : ∀ hex, Hex.Renders text.toList hex → hex.length ≠ n := by
    intro hex hrenders hlength
    have hread : ofText n text thing = .ok ⟨hex, hlength⟩ :=
      ofText_eq_ok_iff_decodeText.mpr (decodeText_of_hex hrenders hlength)
    rw [h] at hread
    cases hread
  have hempty : text.toList ≠ [] ↔ text ≠ "" := not_congr String.toList_eq_nil_iff
  cases hdecode : decodeText n text thing with
  | error e =>
    right
    have hfault : ofText n text thing = .error e := by
      simp only [ofText, hdecode, bind, Except.bind]
    obtain rfl : fault = e := Except.error.inj (h.symm.trans hfault)
    refine ⟨?_, exists_eq_encoding_of_decodeText hdecode⟩
    rintro ⟨hne, bs, -, hrenders⟩
    have hok : decodeText n text thing = .ok bs :=
      (decodeText_eq_ok_iff_base64 hnot).mpr ⟨hempty.mpr hne, hrenders⟩
    rw [hdecode] at hok
    cases hok
  | ok bs =>
    left
    have hlength : bs.length ≠ n := by
      intro hlength
      have hread : ofText n text thing = .ok ⟨bs, hlength⟩ :=
        ofText_eq_ok_iff_decodeText.mpr hdecode
      rw [h] at hread
      cases hread
    rw [ofText_of_length_ne hdecode hlength] at h
    cases h
    obtain ⟨hne, hrenders⟩ := (decodeText_eq_ok_iff_base64 hnot).mp hdecode
    exact ⟨⟨hempty.mp hne, bs, hlength, hrenders⟩, _, rfl⟩

/-- **Each byte string but a single byte has two renderings, and reading accepts exactly these.**
The text of a byte string is one of them, so it is read back, and no text renders two byte strings
of one length.  A text that is refused has the wrong length if it is the Base64 text of other bytes,
and no valid form in every other case. -/
theorem ofText_exact (hn : n ≠ 1) (text thing : String) :
    (∀ b : Bytes n, ofText n text thing = .ok b ↔ b.Renders text)
    ∧ (∀ b : Bytes n, b.Renders b.toText)
    ∧ (∀ b b' : Bytes n, b.Renders text → b'.Renders text → b = b')
    ∧ ∀ fault, ofText n text thing = .error fault →
      ((∃ actual, fault = .length thing n actual) ↔ RendersOther n text)
      ∧ ((∃ e, fault = .encoding thing e) ↔ ¬ RendersOther n text) := by
  refine ⟨fun b => ofText_eq_ok_iff hn, renders_toText, fun b b' h h' => h.unique hn h', ?_⟩
  intro fault h
  rcases length_or_encoding h with ⟨hother, hlength⟩ | ⟨hother, hencoding⟩
  · refine ⟨iff_of_true hlength hother, iff_of_false ?_ (not_not_intro hother)⟩
    obtain ⟨actual, rfl⟩ := hlength
    rintro ⟨e, ⟨⟩⟩
  · refine ⟨iff_of_false ?_ hother, iff_of_true hencoding hother⟩
    obtain ⟨e, rfl⟩ := hencoding
    rintro ⟨actual, ⟨⟩⟩

/-- Two bytes in both forms, the padded text of three bytes, and symbols with spare bits. -/
theorem ofText_exact_two :
    let b : Bytes 2 := ⟨[255, 239], rfl⟩
    2 ≠ 1 ∧ ofText 2 "fFeF" "key" = .ok b ∧ ofText 2 "/+8=" "key" = .ok b
      ∧ ofText 2 "/+//==" "key" = .error (.length "key" 2 3) ∧ RendersOther 2 "/+//=="
      ∧ ofText 2 "/+9" "key" = .error (.encoding "key" (.base64 (.spareBits '9' 2)))
      ∧ ¬ RendersOther 2 "/+9" := by
  intro b
  have hn : 2 ≠ 1 := by decide
  have hhex : b.Renders "fFeF" := .inl (by decide)
  have hbase64 : b.Renders "/+8=" := .inr ⟨1, by decide, by decide⟩
  have hlength : ofText 2 "/+//==" "key" = .error (.length "key" 2 3) := by rfl
  have hencoding : ofText 2 "/+9" "key"
    = .error (.encoding "key" (.base64 (.spareBits '9' 2))) := by rfl
  exact ⟨hn, ((ofText_exact hn _ _).1 b).mpr hhex, ((ofText_exact hn _ _).1 b).mpr hbase64,
    hlength, ((ofText_exact hn _ _).2.2.2 _ hlength).1.mp ⟨3, rfl⟩,
    hencoding, ((ofText_exact hn _ _).2.2.2 _ hencoding).2.mp ⟨_, rfl⟩⟩

end Bytes

end ProvableRecord
