import ProvableRecord.Proofs.Json.Level
import ProvableRecord.Proofs.Json.Ordered
import ProvableRecord.Proofs.Json.Token

/-!
# JSON text is read back

A value without doubles (`Plain`) is read back from its text in every layout that puts only blanks
between tokens, with the members of its objects in order (`read?_write`, `ordered`).

The proof is by induction on the value.  What a reader of one value has to do is `ReadsBack`: take
the written value off the front of a text that goes on with something that ends it, with fuel for
the length of what was written.  Items and members are lists of such values with commas between them
(`readItems_write`, `readMembers_write`).
-/

namespace ProvableRecord.Json

/-! ## Layouts -/

/-- The layout puts only blanks between tokens. -/
structure Layout.Blank (L : Layout) : Prop where
  line : ∀ depth, ∀ c ∈ L.line depth, isBlank c = true
  afterColon : ∀ c ∈ L.afterColon, isBlank c = true

theorem Layout.compact_blank : Layout.compact.Blank where
  line _ _ h := by cases h
  afterColon _ h := by cases h

theorem Layout.pretty_blank : Layout.pretty.Blank where
  line depth c h := by
    rcases List.mem_cons.mp h with rfl | h
    · rfl
    · rw [List.eq_of_mem_replicate h]
      rfl
  afterColon c h := by
    rw [List.mem_singleton.mp h]
    rfl

/-! ## How a text begins -/

variable {L : Layout} {depth : ℕ}

theorem not_blank_of_startsNumber {c : Char} (h : startsNumber c = true) : isBlank c = false := by
  rw [Bool.eq_false_iff]
  intro hblank
  simp only [isBlank, Bool.or_eq_true, decide_eq_true_eq] at hblank
  rcases hblank with ((rfl | rfl) | rfl) | rfl <;> exact absurd h (by decide)

/-- The text of an integer begins with a digit or a minus sign. -/
theorem exists_writeNumber_eq_cons (n : ℤ)
    (fits : -9223372036854775808 ≤ n ∧ n < 18446744073709551616) :
    ∃ c cs, writeNumber (.integer n fits) = c :: cs ∧ startsNumber c = true := by
  rw [writeNumber, Decimal.ofInt]
  split
  · exact ⟨_, _, String.toList_ofList, rfl⟩
  · obtain ⟨c, cs, hcons, hc⟩ := Decimal.exists_digits_eq_cons n.toNat
    refine ⟨c, cs, String.toList_ofList.trans hcons, ?_⟩
    rw [startsNumber, hc, Bool.or_true]

/-- The text of a plain value begins with neither a blank nor a closing bracket. -/
theorem Plain.exists_write_eq_cons {v : Json} (h : Plain depth v) (k : ℕ) :
    ∃ c cs, write L k v = c :: cs ∧ isBlank c = false ∧ c ≠ ']' := by
  cases h with
  | null => exact ⟨_, _, rfl, by decide⟩
  | bool b => cases b <;> exact ⟨_, _, rfl, by decide⟩
  | integer n fits =>
    obtain ⟨c, cs, hcons, hc⟩ := exists_writeNumber_eq_cons n fits
    refine ⟨c, cs, hcons, not_blank_of_startsNumber hc, ?_⟩
    rintro rfl
    exact absurd hc (by decide)
  | string s => exact ⟨_, _, rfl, by decide⟩
  | @array _ items _ => cases items <;> exact ⟨_, _, rfl, by decide⟩
  | @object _ members _ => cases members <;> exact ⟨_, _, rfl, by decide⟩

/-- No blanks are skipped in front of a plain value. -/
theorem Plain.skipBlanks_write {v : Json} (h : Plain depth v) (k : ℕ) (s : List Char) :
    skipBlanks (write L k v ++ s) = write L k v ++ s := by
  obtain ⟨c, cs, hcons, hc, -⟩ := h.exists_write_eq_cons (L := L) k
  rw [hcons]
  exact skipBlanks_cons_of_not_blank hc

theorem Plain.length_write_pos {v : Json} (h : Plain depth v) (k : ℕ) :
    0 < (write L k v).length := by
  obtain ⟨c, cs, hcons, -⟩ := h.exists_write_eq_cons (L := L) k
  rw [hcons]
  exact Nat.succ_pos _

/-! ## Reading one value -/

/-- A value is read back in order from every text that begins with it, if what follows ends it. -/
def ReadsBack (L : Layout) (depth : ℕ) (v : Json) : Prop :=
  ∀ ⦃fuel k : ℕ⦄ ⦃s rest : List Char⦄, skipBlanks s = write L k v ++ rest → EndsValue rest →
    (write L k v).length ≤ fuel + 1 → readValue (fuel + 1) depth s = some (v.ordered, rest)

theorem readsBack_null : ReadsBack L depth null := by
  intro fuel k s rest hs _ _
  rw [readValue_succ_iff, hs]
  exact .null rfl

theorem readsBack_bool (b : Bool) : ReadsBack L depth (bool b) := by
  intro fuel k s rest hs _ _
  rw [readValue_succ_iff, hs]
  cases b with
  | false => exact .false rfl
  | true => exact .true rfl

theorem readsBack_string (str : String) : ReadsBack L depth (string str) := by
  intro fuel k s rest hs _ hfuel
  rw [write] at hs hfuel
  rw [readValue_succ_iff, hs, writeString_append]
  exact .string (readString_writeString str rest hfuel)

theorem readsBack_integer (n : ℤ) (fits : -9223372036854775808 ≤ n ∧ n < 18446744073709551616) :
    ReadsBack L depth (number (.integer n fits)) := by
  intro fuel k s rest hs hrest _
  have hread := readNumber_writeNumber fits hrest
  obtain ⟨c, cs, hcons, hc⟩ := exists_writeNumber_eq_cons n fits
  rw [write, hcons, List.cons_append] at hs
  rw [hcons, List.cons_append] at hread
  rw [readValue_succ_iff, hs]
  exact .number hc hread

/-! ## Arrays -/

/-- What follows an item ends it. -/
theorem endsValue_items (k : ℕ) (vs : List Json) {close : List Char}
    (hclose : ∀ c ∈ close, isBlank c = true) (rest : List Char) :
    EndsValue (writeItems L k vs ++ (close ++ ']' :: rest)) := by
  cases vs with
  | nil =>
    show EndsValue (close ++ ']' :: rest)
    exact EndsValue.append hclose (endsValue_cons rfl)
  | cons v vs => exact endsValue_cons rfl

/-- **Items are read back** one after the other up to the closing bracket. -/
theorem readItems_write (hL : L.Blank) {k : ℕ} {v : Json} {vs : List Json}
    (hplain : ∀ u ∈ v :: vs, Plain depth u) (hreads : ∀ u ∈ v :: vs, ReadsBack L depth u)
    {close : List Char} (hclose : ∀ c ∈ close, isBlank c = true) {fuel : ℕ} {s rest : List Char}
    (hs : skipBlanks s = write L k v ++ (writeItems L k vs ++ (close ++ ']' :: rest)))
    (hfuel : (write L k v).length + (writeItems L k vs).length < fuel) :
    readItems fuel depth s = some (orderedItems (v :: vs), rest) := by
  -- an item and the comma or bracket after it are worth two units of fuel, as the item has a text
  induction vs generalizing v s fuel with
  | nil =>
    have hpos := (hplain v List.mem_cons_self).length_write_pos (L := L) k
    obtain ⟨fuel, rfl⟩ : ∃ fuel', fuel = fuel' + 2 := ⟨fuel - 2, by omega⟩
    have hv : readValue (fuel + 1) depth s = some (v.ordered, close ++ ']' :: rest) :=
      hreads v List.mem_cons_self hs (endsValue_items (L := L) k [] hclose rest) (by omega)
    refine readItems_succ_iff.mpr (.last hv ?_)
    rw [skipBlanks_append hclose]
    exact skipBlanks_cons_of_not_blank rfl
  | cons u us ih =>
    have hpos := (hplain v List.mem_cons_self).length_write_pos (L := L) k
    have hlength : (writeItems L k (u :: us)).length
        = 1 + (L.line k).length + (write L k u).length + (writeItems L k us).length := by
      simp only [writeItems, List.length_append, List.length_cons]
      omega
    obtain ⟨fuel, rfl⟩ : ∃ fuel', fuel = fuel' + 2 := ⟨fuel - 2, by omega⟩
    have hv : readValue (fuel + 1) depth s
        = some (v.ordered, writeItems L k (u :: us) ++ (close ++ ']' :: rest)) :=
      hreads v List.mem_cons_self hs (endsValue_items (L := L) k (u :: us) hclose rest) (by omega)
    have hcomma : skipBlanks (writeItems L k (u :: us) ++ (close ++ ']' :: rest))
        = ',' :: (L.line k ++ (write L k u ++ (writeItems L k us ++ (close ++ ']' :: rest)))) := by
      rw [writeItems, List.append_assoc, List.append_assoc]
      exact skipBlanks_cons_of_not_blank rfl
    have hu : Plain depth u := hplain u (by simp only [List.mem_cons, true_or, or_true])
    refine readItems_succ_iff.mpr (.more hv hcomma
      (ih (fun w hw => hplain w (List.mem_cons_of_mem _ hw))
        (fun w hw => hreads w (List.mem_cons_of_mem _ hw)) ?_ (by omega)))
    exact (skipBlanks_append (hL.line k) _).trans (hu.skipBlanks_write k _)

theorem readsBack_array (hL : L.Blank) {vs : List Json} (hplain : ∀ v ∈ vs, Plain depth v)
    (hreads : ∀ v ∈ vs, ReadsBack L depth v) : ReadsBack L (depth + 1) (array vs) := by
  intro fuel k s rest hs _ hfuel
  cases vs with
  | nil =>
    rw [readValue_succ_iff, hs]
    exact .emptyArray rfl
  | cons v vs =>
    have hlength : (write L k (array (v :: vs))).length = 2 + (L.line (k + 1)).length
        + (write L (k + 1) v).length + (writeItems L (k + 1) vs).length + (L.line k).length := by
      simp only [write, List.length_append, List.length_cons, List.length_nil]
      omega
    have hwrite : write L k (array (v :: vs)) ++ rest
        = '[' :: (L.line (k + 1) ++ (write L (k + 1) v
          ++ (writeItems L (k + 1) vs ++ (L.line k ++ ']' :: rest)))) := by
      simp only [write, List.append_assoc, List.cons_append, List.nil_append]
    have hv : Plain depth v := hplain v List.mem_cons_self
    have hfirst := hv.skipBlanks_write (L := L) (k + 1)
      (writeItems L (k + 1) vs ++ (L.line k ++ ']' :: rest))
    have hitems : readItems fuel depth
        (write L (k + 1) v ++ (writeItems L (k + 1) vs ++ (L.line k ++ ']' :: rest)))
          = some (orderedItems (v :: vs), rest) :=
      readItems_write hL hplain hreads (hL.line k) hfirst (by omega)
    obtain ⟨c, cs, hcons, -, hne⟩ := hv.exists_write_eq_cons (L := L) (k + 1)
    rw [hcons] at hfirst hitems hwrite
    have hskip := (skipBlanks_append (hL.line (k + 1)) _).trans hfirst
    rw [← hskip] at hitems
    rw [readValue_succ_iff, hs, hwrite]
    refine .array ?_ hitems
    intro t heq
    exact hne (List.cons.inj (hskip.symm.trans heq)).1

/-! ## Objects -/

/-- The text of one or more members with what follows them. -/
def membersText (L : Layout) (k : ℕ) (key : String) (v : Json) (ms : List (String × Json))
    (rest : List Char) : List Char :=
  writeString key ++ ':' :: (L.afterColon ++ (write L k v ++ (writeMembers L k ms ++ rest)))

theorem membersText_eq_cons (k : ℕ) (key : String) (v : Json) (ms : List (String × Json))
    (rest : List Char) : ∃ t, membersText L k key v ms rest = '"' :: t :=
  ⟨_, writeString_append key _⟩

theorem skipBlanks_membersText {blanks : List Char} (h : ∀ c ∈ blanks, isBlank c = true) (k : ℕ)
    (key : String) (v : Json) (ms : List (String × Json)) (rest : List Char) :
    skipBlanks (blanks ++ membersText L k key v ms rest) = membersText L k key v ms rest := by
  obtain ⟨t, ht⟩ := membersText_eq_cons (L := L) k key v ms rest
  rw [skipBlanks_append h, ht]
  exact skipBlanks_cons_of_not_blank rfl

theorem writeMembers_cons (k : ℕ) (key : String) (v : Json) (ms : List (String × Json))
    (rest : List Char) : writeMembers L k ((key, v) :: ms) ++ rest
      = ',' :: (L.line k ++ membersText L k key v ms rest) := by
  simp only [writeMembers, membersText, List.append_assoc, List.cons_append]

theorem skipBlanks_writeMembers (k : ℕ) (key : String) (v : Json) (ms : List (String × Json))
    (rest : List Char) : skipBlanks (writeMembers L k ((key, v) :: ms) ++ rest)
      = ',' :: (L.line k ++ membersText L k key v ms rest) := by
  rw [writeMembers_cons]
  exact skipBlanks_cons_of_not_blank rfl

theorem write_object_cons (k : ℕ) (key : String) (v : Json) (ms : List (String × Json))
    (rest : List Char) : write L k (object ((key, v) :: ms)) ++ rest
      = '\x7b' :: (L.line (k + 1)
        ++ membersText L (k + 1) key v ms (L.line k ++ '\x7d' :: rest)) := by
  simp only [write, membersText, List.append_assoc, List.cons_append, List.nil_append]

theorem length_membersText (k : ℕ) (key : String) (v : Json) (ms : List (String × Json))
    (rest : List Char) : (membersText L k key v ms rest).length
      = (writeString key).length + 1 + L.afterColon.length + (write L k v).length
        + (writeMembers L k ms).length + rest.length := by
  simp only [membersText, List.length_append, List.length_cons]
  omega

/-- What follows a member ends its value. -/
theorem endsValue_members (k : ℕ) (ms : List (String × Json)) {close : List Char}
    (hclose : ∀ c ∈ close, isBlank c = true) (rest : List Char) :
    EndsValue (writeMembers L k ms ++ (close ++ '\x7d' :: rest)) := by
  cases ms with
  | nil =>
    show EndsValue (close ++ '\x7d' :: rest)
    exact EndsValue.append hclose (endsValue_cons rfl)
  | cons m ms =>
    obtain ⟨key, v⟩ := m
    exact endsValue_cons rfl

/-- **Members are read back** one after the other up to the closing brace. -/
theorem readMembers_write (hL : L.Blank) {k : ℕ} {key : String} {v : Json}
    {ms : List (String × Json)} (hplain : ∀ m ∈ (key, v) :: ms, Plain depth m.2)
    (hreads : ∀ m ∈ (key, v) :: ms, ReadsBack L depth m.2)
    {close : List Char} (hclose : ∀ c ∈ close, isBlank c = true) {fuel : ℕ} {s rest : List Char}
    (hs : skipBlanks s = membersText L k key v ms (close ++ '\x7d' :: rest))
    (hfuel : (writeString key).length + (write L k v).length + (writeMembers L k ms).length
      < fuel) :
    readMembers fuel depth s = some (orderedMembers ((key, v) :: ms), rest) := by
  induction ms generalizing key v s fuel with
  | nil =>
    have hplain_v : Plain depth v := hplain _ List.mem_cons_self
    have hreads_v : ReadsBack L depth v := hreads _ List.mem_cons_self
    have hpos := hplain_v.length_write_pos (L := L) k
    obtain ⟨fuel, rfl⟩ : ∃ fuel', fuel = fuel' + 2 := ⟨fuel - 2, by omega⟩
    have hv : readValue (fuel + 1) depth (L.afterColon ++ (write L k v
        ++ (writeMembers L k [] ++ (close ++ '\x7d' :: rest))))
          = some (v.ordered, close ++ '\x7d' :: rest) :=
      hreads_v
        ((skipBlanks_append hL.afterColon _).trans (hplain_v.skipBlanks_write k _))
        (endsValue_members (L := L) k [] hclose rest) (by omega)
    rw [membersText, writeString_append] at hs
    refine readMembers_succ_iff.mpr (.last hs (readString_writeString key _ (by omega)) rfl hv ?_)
    rw [skipBlanks_append hclose]
    exact skipBlanks_cons_of_not_blank rfl
  | cons u us ih =>
    obtain ⟨key', v'⟩ := u
    have hplain_v : Plain depth v := hplain _ List.mem_cons_self
    have hreads_v : ReadsBack L depth v := hreads _ List.mem_cons_self
    have hpos := hplain_v.length_write_pos (L := L) k
    have hlength := congrArg List.length (writeMembers_cons (L := L) k key' v' us [])
    rw [List.append_nil, List.length_cons, List.length_append, length_membersText] at hlength
    obtain ⟨fuel, rfl⟩ : ∃ fuel', fuel = fuel' + 2 := ⟨fuel - 2, by omega⟩
    have hv : readValue (fuel + 1) depth (L.afterColon ++ (write L k v
        ++ (writeMembers L k ((key', v') :: us) ++ (close ++ '\x7d' :: rest))))
          = some (v.ordered, writeMembers L k ((key', v') :: us) ++ (close ++ '\x7d' :: rest)) :=
      hreads_v
        ((skipBlanks_append hL.afterColon _).trans (hplain_v.skipBlanks_write k _))
        (endsValue_members (L := L) k _ hclose rest) (by omega)
    rw [membersText, writeString_append] at hs
    refine readMembers_succ_iff.mpr (.more hs (readString_writeString key _ (by omega)) rfl hv
      (skipBlanks_writeMembers k key' v' us (close ++ '\x7d' :: rest))
      (ih (fun w hw => hplain w (List.mem_cons_of_mem _ hw))
        (fun w hw => hreads w (List.mem_cons_of_mem _ hw)) ?_ (by omega)))
    exact skipBlanks_membersText (hL.line k) k key' v' us _

theorem readsBack_object (hL : L.Blank) {ms : List (String × Json)}
    (hplain : ∀ m ∈ ms, Plain depth m.2)
    (hreads : ∀ m ∈ ms, ReadsBack L depth m.2) : ReadsBack L (depth + 1) (object ms) := by
  intro fuel k s rest hs _ hfuel
  cases ms with
  | nil =>
    rw [readValue_succ_iff, hs]
    exact .emptyObject rfl
  | cons m ms =>
    obtain ⟨key, v⟩ := m
    have hlength := congrArg List.length (write_object_cons (L := L) k key v ms [])
    rw [List.append_nil, List.length_cons, List.length_append, length_membersText] at hlength
    rw [write_object_cons] at hs
    have hmembers : readMembers fuel depth
        (membersText L (k + 1) key v ms (L.line k ++ '\x7d' :: rest))
          = some (orderedMembers ((key, v) :: ms), rest) :=
      readMembers_write hL hplain hreads (hL.line k)
        (skipBlanks_membersText (List.forall_mem_nil _) (k + 1) key v ms _) (by omega)
    have hfirst := skipBlanks_membersText (L := L) (hL.line (k + 1)) (k + 1) key v ms
      (L.line k ++ '\x7d' :: rest)
    obtain ⟨t, ht⟩ := membersText_eq_cons (L := L) (k + 1) key v ms (L.line k ++ '\x7d' :: rest)
    rw [ht] at hmembers hfirst hs
    rw [← hfirst] at hmembers
    rw [readValue_succ_iff, hs, ordered]
    refine .object ?_ hmembers
    intro t' heq
    cases hfirst.symm.trans heq

/-! ## Texts -/

/-- **A plain value is read back.** -/
theorem Plain.readsBack (hL : L.Blank) {v : Json} (h : Plain depth v) : ReadsBack L depth v := by
  induction h with
  | null => exact readsBack_null
  | bool b => exact readsBack_bool b
  | integer n fits => exact readsBack_integer n fits
  | string s => exact readsBack_string s
  | array plain ih => exact readsBack_array hL plain ih
  | object plain ih => exact readsBack_object hL plain ih

/-- **The text of a plain value is read back**, in every layout of blanks and with blanks after
it.  What is read has its members in order. -/
theorem read?_write (hL : L.Blank) {v : Json} (h : Plain maxDepth v) {blanks : List Char}
    (hblanks : ∀ c ∈ blanks, isBlank c = true) :
    read? (String.ofList (write L 0 v ++ blanks)) = some v.ordered := by
  have hread : readValue (fuelFor (write L 0 v ++ blanks)) maxDepth (write L 0 v ++ blanks)
      = some (v.ordered, blanks) := by
    refine h.readsBack hL (h.skipBlanks_write 0 blanks) (endsValue_of_blank hblanks) ?_
    rw [List.length_append]
    omega
  simp only [read?, String.toList_ofList, hread, skipBlanks_eq_nil hblanks, List.isEmpty_nil,
    if_true]

/-- The text shows the value, as it stands or with its members in order, in a layout of blanks and
with blanks after it. -/
inductive HasText (v : Json) : String → Prop where
  | intro {L : Layout} (hL : L.Blank) {w : Json} (hw : w = v ∨ w = v.ordered)
    {blanks : List Char} (hblanks : ∀ c ∈ blanks, isBlank c = true) :
    HasText v (String.ofList (write L 0 w ++ blanks))

/-- The compact text and the pretty text of a value show it, and so does the pretty text with a line
break after it. -/
theorem HasText.texts {v w : Json} (hw : w = v ∨ w = v.ordered) :
    v.HasText w.text ∧ v.HasText w.prettyText ∧ v.HasText (w.prettyText ++ "\n") := by
  have hcompact := HasText.intro Layout.compact_blank hw (List.forall_mem_nil _)
  have hpretty := HasText.intro Layout.pretty_blank hw (List.forall_mem_nil _)
  rw [List.append_nil] at hcompact hpretty
  have hline : ∀ c ∈ ['\n'], isBlank c = true := by
    intro c hc
    rw [List.mem_singleton.mp hc]
    rfl
  have hbroken := HasText.intro Layout.pretty_blank hw hline
  rw [String.ofList_append] at hbroken
  exact ⟨hcompact, hpretty, hbroken⟩

/-- What is read from a text that shows a value. -/
theorem HasText.read? {v : Json} {text : String} (h : v.HasText text) (hplain : Plain maxDepth v) :
    read? text = some v.ordered := by
  obtain ⟨hL, rfl | rfl, hblanks⟩ := h
  · exact read?_write hL hplain hblanks
  · rw [read?_write hL hplain.ordered hblanks, hplain.ordered_ordered]

theorem read?_text {v : Json} (h : Plain maxDepth v) : read? v.text = some v.ordered := by
  have hread := read?_write Layout.compact_blank h (List.forall_mem_nil _)
  rwa [List.append_nil] at hread

end ProvableRecord.Json
