import ProvableRecord.Json.Decoder
import ProvableRecord.Proofs.Except
import ProvableRecord.Proofs.Json.RoundTrip

/-!
# Typed data is read back

A decoder reads a JSON value as some datum (`Decoder.Reads`) if it does so both from the value and
from its text in every layout of blanks.  An array is read if its items are (`reads_list`).  A
record is read as soon as its fields are: `Schema.Gathers` says that the members of an object are
fields that were not read before and what the parts of the record become, and then the decoder of
the schema reads the object (`Schema.reads`).

The members of an object may stand in any order in a text, but a tree holds them in order, so a text
is read both ways if the decoder also reads the value in order (`Reads.of_hasText`).
-/

namespace ProvableRecord

open Json

variable {ε α β δ : Type}

namespace Decoder

/-- The decoder reads the value as `a`, also from its text. -/
structure Reads (d : Decoder ε α) (v : Json) (a : α) : Prop where
  fromText : ∀ ⦃L : Layout⦄, L.Blank → ∀ ⦃blanks : List Char⦄,
    (∀ c ∈ blanks, isBlank c = true) → ∀ (k : ℕ) ⦃rest : List Char⦄, EndsValue rest →
    d.fromText (blanks ++ (write L k v ++ rest)) = .ok (a, rest)
  fromValue : d.fromValue v = .ok a

/-- A decoder has fuel for the text of a string. -/
theorem length_writeString_le (s : String) (rest : List Char) :
    (writeString s).length ≤ fuelFor (s.toList.flatMap writeChar ++ '"' :: rest) + 1 := by
  rw [length_writeString, fuelFor, List.length_append]
  omega

theorem skipBlanks_writeString {blanks : List Char} (h : ∀ c ∈ blanks, isBlank c = true)
    (s : String) (rest : List Char) : skipBlanks (blanks ++ (writeString s ++ rest))
      = '"' :: (s.toList.flatMap writeChar ++ '"' :: rest) := by
  rw [skipBlanks_append h, writeString_append]
  exact skipBlanks_cons_of_not_blank rfl

theorem reads_text (s : String) : (text : Decoder ε String).Reads (.string s) s where
  fromText := by
    intro L _ blanks hblanks k rest _
    have hread := readString_writeString s rest (length_writeString_le s rest)
    simp only [text, write, skipBlanks_writeString hblanks, hread]
  fromValue := rfl

theorem reads_value {opened : ℕ} {v : Json} (h : Plain (maxDepth - opened) v)
    (hordered : v.ordered = v) : (value opened : Decoder ε Json).Reads v v where
  fromText := by
    intro L hL blanks hblanks k rest hrest
    have hread : readValue (fuelFor (blanks ++ (write L k v ++ rest))) (maxDepth - opened)
        (blanks ++ (write L k v ++ rest)) = some (v.ordered, rest) := by
      have hvalue := (skipBlanks_append hblanks _).trans (h.skipBlanks_write (L := L) k rest)
      refine h.readsBack hL hvalue hrest ?_
      rw [List.length_append, List.length_append]
      omega
    simp only [value, hread, hordered]
  fromValue := rfl

theorem Reads.map {d : Decoder ε α} {v : Json} {a : α} (h : d.Reads v a) (f : α → β) :
    (d.map f).Reads v (f a) where
  fromText := by
    intro L hL blanks hblanks k rest hrest
    show (d.fromText _).map _ = _
    rw [h.fromText hL hblanks k hrest]
    rfl
  fromValue := by
    show (d.fromValue v).map f = _
    rw [h.fromValue]
    rfl

theorem Reads.refine {d : Decoder ε α} {v : Json} {a : α} {b : β} {f : α → Except ε β}
    (h : d.Reads v a) (hf : f a = .ok b) : (d.refine f).Reads v b where
  fromText := by
    intro L hL blanks hblanks k rest hrest
    simp only [Decoder.refine, h.fromText hL hblanks k hrest, hf, bind, Except.bind]
    rfl
  fromValue := by
    simp only [Decoder.refine, h.fromValue, hf, bind, Except.bind]
    rfl

theorem wordOf?_ofUInt64 (w : UInt64) (fits : -9223372036854775808 ≤ (w.toNat : ℤ)
    ∧ (w.toNat : ℤ) < 18446744073709551616) : wordOf? (.integer w.toNat fits) = some w := by
  rw [wordOf?, if_pos (Int.natCast_nonneg _), Int.toNat_natCast, UInt64.ofNat_toNat]

theorem reads_word (w : UInt64) : (word : Decoder ε UInt64).Reads (.ofUInt64 w) w where
  fromText := by
    intro L _ blanks hblanks k rest hrest
    have hfits : -9223372036854775808 ≤ (w.toNat : ℤ) ∧ (w.toNat : ℤ) < 18446744073709551616 :=
      ⟨by omega, by have := w.toNat_lt; omega⟩
    obtain ⟨c, cs, hcons, hc⟩ := exists_writeNumber_eq_cons _ hfits
    have hread := readNumber_writeNumber hfits hrest
    have hskip : skipBlanks (blanks ++ (write L k (.ofUInt64 w) ++ rest)) = c :: (cs ++ rest) := by
      rw [skipBlanks_append hblanks, ofUInt64, write, hcons]
      exact skipBlanks_cons_of_not_blank (not_blank_of_startsNumber hc)
    rw [hcons, List.cons_append] at hread
    simp only [word, hskip, hc, if_true, hread, wordOf?_ofUInt64]
  fromValue := by
    simp only [word, ofUInt64, wordOf?_ofUInt64]

theorem optional_fromText {d : Decoder ε α} {s t : List Char} {c : Char}
    (hs : skipBlanks s = c :: t) (hc : c ≠ 'n') :
    d.optional.fromText s = (d.fromText (c :: t)).map fun r => (some r.1, r.2) := by
  simp only [optional, hs]
  split
  · next heq => exact absurd (List.cons.inj heq).1 hc
  · rfl

/-- A string where there may be none. -/
theorem reads_optional_text (s : String) :
    (text : Decoder ε String).optional.Reads (.string s) (some s) where
  fromText := by
    intro L hL blanks hblanks k rest hrest
    have hread := (reads_text s : (text : Decoder ε String).Reads _ _).fromText hL
      (List.forall_mem_nil _) k hrest
    rw [List.nil_append, write, writeString_append] at hread
    rw [write, optional_fromText (skipBlanks_writeString hblanks s rest) (by decide), hread]
    rfl
  fromValue := rfl

/-- Items are read one after the other up to the closing bracket. -/
theorem itemsFromText_write {d : Decoder ε α} {f : α → Json} {L : Layout} (hL : L.Blank) {k : ℕ}
    {a : α} {as : List α} (hreads : ∀ b ∈ a :: as, d.Reads (f b) b) {close : List Char}
    (hclose : ∀ c ∈ close, isBlank c = true) {blanks : List Char}
    (hblanks : ∀ c ∈ blanks, isBlank c = true) {fuel : ℕ} (hfuel : as.length < fuel)
    (rest : List Char) :
    itemsFromText d fuel
        (blanks ++ (write L k (f a) ++ (writeItems L k (as.map f) ++ (close ++ ']' :: rest))))
      = .ok (a :: as, rest) := by
  induction as generalizing a blanks fuel with
  | nil =>
    obtain ⟨fuel, rfl⟩ : ∃ fuel', fuel = fuel' + 1 := ⟨fuel - 1, by omega⟩
    have hread := (hreads a List.mem_cons_self).fromText hL hblanks k
      (endsValue_items (L := L) k [] hclose rest)
    have hbracket : skipBlanks (writeItems L k [] ++ (close ++ ']' :: rest)) = ']' :: rest :=
      (skipBlanks_append hclose _).trans (skipBlanks_cons_of_not_blank rfl)
    simp only [itemsFromText, List.map_nil, hread, hbracket, bind, Except.bind]
    rfl
  | cons b bs ih =>
    obtain ⟨fuel, rfl⟩ : ∃ fuel', fuel = fuel' + 1 := ⟨fuel - 1, by omega⟩
    rw [List.length_cons] at hfuel
    have hread := (hreads a List.mem_cons_self).fromText hL hblanks k
      (endsValue_items (L := L) k ((b :: bs).map f) hclose rest)
    have hcomma : skipBlanks (writeItems L k ((b :: bs).map f) ++ (close ++ ']' :: rest))
        = ',' :: (L.line k ++ (write L k (f b)
          ++ (writeItems L k (bs.map f) ++ (close ++ ']' :: rest)))) := by
      rw [List.map_cons, writeItems, List.append_assoc, List.append_assoc]
      exact skipBlanks_cons_of_not_blank rfl
    have hfuel' : bs.length < fuel := by omega
    have hmore := ih (fun c hc => hreads c (List.mem_cons_of_mem _ hc)) (hL.line k) hfuel'
    simp only [itemsFromText, hread, hcomma, hmore, bind, Except.bind]
    rfl

theorem length_le_writeItems {L : Layout} (k : ℕ) (vs : List Json) :
    vs.length ≤ (writeItems L k vs).length := by
  induction vs with
  | nil => exact Nat.zero_le _
  | cons v vs ih =>
    simp only [writeItems, List.length_append, List.length_cons]
    omega

theorem list_fromText {d : Decoder ε α} {s t t' : List Char} {c : Char}
    (hs : skipBlanks s = '[' :: t) (ht : skipBlanks t = c :: t') (hc : c ≠ ']') :
    d.list.fromText s = itemsFromText d (fuelFor (c :: t')) (c :: t') := by
  simp only [list, hs, ht]
  split
  · next heq => exact absurd (List.cons.inj heq).1 hc
  · rfl

/-- **An array is read** if its items are. -/
theorem reads_list {d : Decoder ε α} {f : α → Json} {depth : ℕ} {as : List α}
    (hplain : ∀ a ∈ as, Plain depth (f a)) (hreads : ∀ a ∈ as, d.Reads (f a) a) :
    d.list.Reads (.array (as.map f)) as where
  fromText := by
    intro L hL blanks hblanks k rest _
    cases as with
    | nil =>
      have hskip : skipBlanks (blanks ++ (write L k (.array []) ++ rest)) = '[' :: ']' :: rest :=
        (skipBlanks_append hblanks _).trans (skipBlanks_cons_of_not_blank rfl)
      have hbracket : skipBlanks (']' :: rest) = ']' :: rest := skipBlanks_cons_of_not_blank rfl
      simp only [list, List.map_nil, hskip, hbracket]
    | cons a as =>
      have hwrite : write L k (.array ((a :: as).map f)) ++ rest
          = '[' :: (L.line (k + 1) ++ (write L (k + 1) (f a)
            ++ (writeItems L (k + 1) (as.map f) ++ (L.line k ++ ']' :: rest)))) := by
        simp only [List.map_cons, write, List.append_assoc, List.cons_append, List.nil_append]
      have hopen := (skipBlanks_append hblanks _).trans
        ((congrArg skipBlanks hwrite).trans (skipBlanks_cons_of_not_blank rfl))
      have ha : Plain depth (f a) := hplain a List.mem_cons_self
      have hfirst := (skipBlanks_append (hL.line (k + 1)) _).trans
        (ha.skipBlanks_write (L := L) (k + 1)
          (writeItems L (k + 1) (as.map f) ++ (L.line k ++ ']' :: rest)))
      have hfuel : as.length < fuelFor (write L (k + 1) (f a)
          ++ (writeItems L (k + 1) (as.map f) ++ (L.line k ++ ']' :: rest))) := by
        have hcount := length_le_writeItems (L := L) (k + 1) (as.map f)
        rw [List.length_map] at hcount
        rw [fuelFor, List.length_append, List.length_append]
        omega
      have hitems := itemsFromText_write (k := k + 1) hL hreads (hL.line k)
        (List.forall_mem_nil _) hfuel rest
      obtain ⟨c, cs, hcons, -, hne⟩ := ha.exists_write_eq_cons (L := L) (k + 1)
      rw [List.nil_append] at hitems
      rw [hcons] at hopen hfirst hitems
      rw [list_fromText hopen hfirst hne]
      exact hitems
  fromValue := by
    show (as.map f).mapM d.fromValue = _
    exact Except.mapM_map_eq_ok fun a ha => (hreads a ha).fromValue

/-- **The text of what a decoder reads is read**, with blanks after it. -/
theorem Reads.readText {d : Decoder ε α} {v : Json} {a : α} (h : d.Reads v a) {L : Layout}
    (hL : L.Blank) {blanks : List Char} (hblanks : ∀ c ∈ blanks, isBlank c = true) :
    d.readText (String.ofList (write L 0 v ++ blanks)) = .ok a := by
  have hread : d.fromText (write L 0 v ++ blanks) = .ok (a, blanks) :=
    h.fromText hL (List.forall_mem_nil _) 0 (endsValue_of_blank hblanks)
  rw [Decoder.readText, String.toList_ofList, hread]
  show (if (skipBlanks blanks).isEmpty then (.ok a : Except (ReadError ε) α) else _) = _
  rw [skipBlanks_eq_nil hblanks]
  rfl

/-- **What a decoder reads is read from every text that shows it**, straight and through a tree. -/
theorem Reads.of_hasText {d : Decoder ε α} {v : Json} {a : α} (h : d.Reads v a)
    (hordered : d.Reads v.ordered a) (hplain : Plain maxDepth v) {text : String}
    (ht : v.HasText text) : d.readText text = .ok a ∧ d.readTree text = .ok a := by
  have htree : d.readTree text = .ok a := by
    simp only [Decoder.readTree, ht.read? hplain, hordered.fromValue]
  obtain ⟨hL, rfl | rfl, hblanks⟩ := ht
  · exact ⟨h.readText hL hblanks, htree⟩
  · exact ⟨hordered.readText hL hblanks, htree⟩

end Decoder

namespace Schema

/-- The members are fields that the parts do not have yet, and adding them in order makes
`parts'`. -/
inductive Gathers (r : Schema ε δ α) :
    (parts : δ) → List (String × Json) → (parts' : δ) → Prop where
  | nil {parts : δ} : Gathers r parts [] parts
  | cons {parts parts' : δ} {key : String} {v : Json} {ms : List (String × Json)}
    {field : SchemaField ε δ} {set : δ → δ} (found : r.field? key = some field)
    (fresh : field.isSet parts = false) (reads : field.decoder.Reads v set)
    (rest : Gathers r (set parts) ms parts') : Gathers r parts ((key, v) :: ms) parts'

variable {r : Schema ε δ α}

theorem length_le_writeMembers {L : Layout} (k : ℕ) (ms : List (String × Json)) :
    ms.length ≤ (writeMembers L k ms).length := by
  induction ms with
  | nil => exact Nat.zero_le _
  | cons m ms ih =>
    obtain ⟨key, v⟩ := m
    simp only [writeMembers, List.length_append, List.length_cons]
    omega

theorem memberFromText_eq {key : String} {field : SchemaField ε δ} {parts : δ} {set : δ → δ}
    {s rest : List Char} (found : r.field? key = some field) (fresh : field.isSet parts = false)
    (hread : field.decoder.fromText s = .ok (set, rest)) :
    r.memberFromText parts key (':' :: s) = .ok (set parts, rest) := by
  have hcolon : skipBlanks (':' :: s) = ':' :: s := skipBlanks_cons_of_not_blank rfl
  rw [memberFromText, found, hcolon]
  simp only [fresh]
  show (field.decoder.fromText s >>= _) = _
  rw [hread]
  rfl

/-- One member and what follows it. -/
theorem membersFromText_succ {fuel : ℕ} {key : String} {parts parts' : δ}
    {s t s' : List Char} (hs : skipBlanks s = writeString key ++ t)
    (hmember : r.memberFromText parts key t = .ok (parts', s')) :
    r.membersFromText (fuel + 1) parts s = match skipBlanks s' with
      | '\x7d' :: s => (r.finish parts').map fun a => (a, s)
      | ',' :: s => r.membersFromText fuel parts' s
      | _ => .error .malformed := by
  have hkey := readString_writeString key t (Decoder.length_writeString_le key t)
  rw [writeString_append] at hs
  simp only [membersFromText, hs, hkey, hmember, bind, Except.bind]
  rfl

/-- **Members that a record gathers are read from their text.** -/
theorem Gathers.membersFromText {L : Layout} (hL : L.Blank) {key : String} {v : Json}
    {ms : List (String × Json)} {parts parts' : δ} {a : α}
    (h : r.Gathers parts ((key, v) :: ms) parts') (hcomplete : r.complete parts' = some a) {k : ℕ}
    {close : List Char} (hclose : ∀ c ∈ close, isBlank c = true) {fuel : ℕ} {s rest : List Char}
    (hs : skipBlanks s = membersText L k key v ms (close ++ '\x7d' :: rest))
    (hfuel : ms.length < fuel) : r.membersFromText fuel parts s = .ok (a, rest) := by
  -- the parts grow with each member, and the last one makes them complete
  induction ms generalizing key v parts fuel s with
  | nil =>
    obtain ⟨fuel, rfl⟩ : ∃ fuel', fuel = fuel' + 1 := ⟨fuel - 1, by omega⟩
    cases h with
    | cons found fresh reads hnil =>
      cases hnil
      have hread := reads.fromText hL hL.afterColon k (endsValue_members (L := L) k [] hclose rest)
      have hbrace : skipBlanks (writeMembers L k [] ++ (close ++ '\x7d' :: rest))
          = '\x7d' :: rest :=
        (skipBlanks_append hclose _).trans (skipBlanks_cons_of_not_blank rfl)
      rw [membersFromText_succ hs (memberFromText_eq found fresh hread), hbrace]
      show (r.finish _).map _ = _
      rw [finish, hcomplete]
      rfl
  | cons m ms ih =>
    obtain ⟨fuel, rfl⟩ : ∃ fuel', fuel = fuel' + 1 := ⟨fuel - 1, by omega⟩
    obtain ⟨key', v'⟩ := m
    rw [List.length_cons] at hfuel
    cases h with
    | cons found fresh reads hmore =>
      have hread := reads.fromText hL hL.afterColon k
        (endsValue_members (L := L) k ((key', v') :: ms) hclose rest)
      rw [membersFromText_succ hs (memberFromText_eq found fresh hread), skipBlanks_writeMembers]
      exact ih hmore (skipBlanks_membersText (hL.line k) k key' v' ms _) (by omega)

/-- Members that a record gathers are read from their value. -/
theorem Gathers.foldlM_addMember {ms : List (String × Json)} {parts parts' : δ}
    (h : r.Gathers parts ms parts') : ms.foldlM r.addMember parts = .ok parts' := by
  induction h with
  | nil => rfl
  | @cons parts parts' key v ms field set found fresh reads rest ih =>
    have hmember : r.addMember parts (key, v) = .ok (set parts) := by
      simp only [addMember, found, fresh, reads.fromValue]
      rfl
    rw [List.foldlM_cons, hmember]
    exact ih

theorem fromText_object {s t t' : List Char} (hs : skipBlanks s = '\x7b' :: t)
    (ht : skipBlanks t = '"' :: t') :
    r.decoder.fromText s = r.membersFromText (fuelFor ('"' :: t')) r.start ('"' :: t') := by
  show r.fromText s = _
  simp only [fromText, hs, ht]
  rfl

/-- **A record is read** from an object whose members it gathers, once these make it complete. -/
theorem reads {m : String × Json} {ms : List (String × Json)} {parts : δ} {a : α}
    (h : r.Gathers r.start (m :: ms) parts) (hcomplete : r.complete parts = some a) :
    r.decoder.Reads (.object (m :: ms)) a where
  fromText := by
    intro L hL blanks hblanks k rest _
    obtain ⟨key, v⟩ := m
    have hbrace : skipBlanks (blanks ++ (write L k (.object ((key, v) :: ms)) ++ rest))
        = '\x7b' :: (L.line (k + 1)
          ++ membersText L (k + 1) key v ms (L.line k ++ '\x7d' :: rest)) := by
      rw [skipBlanks_append hblanks, write_object_cons]
      exact skipBlanks_cons_of_not_blank rfl
    have hfirst := skipBlanks_membersText (L := L) (hL.line (k + 1)) (k + 1) key v ms
      (L.line k ++ '\x7d' :: rest)
    have hlength := length_membersText (L := L) (k + 1) key v ms (L.line k ++ '\x7d' :: rest)
    have hcount := length_le_writeMembers (L := L) (k + 1) ms
    obtain ⟨t, ht⟩ := membersText_eq_cons (L := L) (k + 1) key v ms (L.line k ++ '\x7d' :: rest)
    rw [fromText_object hbrace (hfirst.trans ht), ← ht]
    refine h.membersFromText hL hcomplete (k := k + 1) (hL.line k) ?_ ?_
    · exact skipBlanks_membersText (List.forall_mem_nil _) (k + 1) key v ms _
    · rw [fuelFor]
      omega
  fromValue := by
    show ((m :: ms).foldlM r.addMember r.start >>= r.finish) = _
    rw [h.foldlM_addMember]
    show r.finish parts = _
    rw [finish, hcomplete]

end Schema

end ProvableRecord
