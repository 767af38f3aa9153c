import Mathlib.Data.Int.Notation
import Mathlib.Data.List.Induction
import Mathlib.Data.Nat.Notation
import ProvableRecord.Json.Value

/-!
# JSON values with their members in order

A text may list the members of an object in any order, and a key twice.  `Json.ordered` is the value
that a tree holds instead: each object has its keys in ascending order, and of members with one key
the last (`member?_ofMembers_concat`).  An object whose keys ascend already stays as it is
(`ordered_object`), and so does every value that was put in order (`Plain.ordered_ordered`).
-/

namespace ProvableRecord.Json

/-- The value has no doubles, and at most `depth` of its arrays and objects are open at once. -/
inductive Plain : (depth : ℕ) → Json → Prop where
  | null {depth : ℕ} : Plain depth null
  | bool {depth : ℕ} (b : Bool) : Plain depth (bool b)
  | integer {depth : ℕ} (n : ℤ) (fits : -9223372036854775808 ≤ n ∧ n < 18446744073709551616) :
    Plain depth (number (.integer n fits))
  | string {depth : ℕ} (s : String) : Plain depth (string s)
  | array {depth : ℕ} {items : List Json} (plain : ∀ v ∈ items, Plain depth v) :
    Plain (depth + 1) (array items)
  | object {depth : ℕ} {members : List (String × Json)} (plain : ∀ m ∈ members, Plain depth m.2) :
    Plain (depth + 1) (object members)

mutual

/-- The value with the members of all its objects in order, of members with one key the last. -/
def ordered : Json → Json
  | array items => array (orderedItems items)
  | object members => ofMembers (orderedMembers members)
  | v => v

/-- The items of an array, each in order. -/
def orderedItems : List Json → List Json
  | [] => []
  | v :: vs => ordered v :: orderedItems vs

/-- The members of an object, each in order. -/
def orderedMembers : List (String × Json) → List (String × Json)
  | [] => []
  | (key, v) :: ms => (key, ordered v) :: orderedMembers ms

end

variable {depth : ℕ}

/-! ## Members -/

/-- A member whose key comes after all others is put at the end. -/
theorem insertMember_concat {key : String} (v : Json) {ms : List (String × Json)}
    (h : ∀ m ∈ ms, m.1 < key) : insertMember key v ms = ms ++ [(key, v)] := by
  induction ms with
  | nil => rfl
  | cons m ms ih =>
    have hlt := h m List.mem_cons_self
    have hne : key ≠ m.1 := by
      intro heq
      exact String.lt_irrefl _ (heq ▸ hlt)
    rw [insertMember, if_neg (String.lt_asymm hlt), if_neg hne,
      ih fun m' hm' => h m' (List.mem_cons_of_mem _ hm')]
    rfl

theorem foldl_insertMember {acc ms : List (String × Json)}
    (h : (acc ++ ms).Pairwise fun a b => a.1 < b.1) :
    ms.foldl (fun acc m => insertMember m.1 m.2 acc) acc = acc ++ ms := by
  induction ms generalizing acc with
  | nil => exact (List.append_nil acc).symm
  | cons m ms ih =>
    have hlast : ∀ a ∈ acc, a.1 < m.1 := fun a ha =>
      (List.pairwise_append.mp h).2.2 a ha m List.mem_cons_self
    have hnext : acc ++ m :: ms = acc ++ [m] ++ ms := (List.append_cons acc m ms)
    rw [List.foldl_cons, insertMember_concat _ hlast, hnext]
    rw [hnext] at h
    exact ih h

/-- Members in order are the members of their object. -/
theorem ofMembers_of_sorted {ms : List (String × Json)}
    (h : ms.Pairwise fun a b => a.1 < b.1) : ofMembers ms = object ms :=
  congrArg object (@foldl_insertMember [] ms h)

theorem mem_insertMember {key : String} {v : Json} {ms : List (String × Json)}
    {m : String × Json} (h : m ∈ insertMember key v ms) : m = (key, v) ∨ m ∈ ms := by
  induction ms with
  | nil => exact .inl (List.mem_singleton.mp h)
  | cons m' ms ih =>
    rw [insertMember] at h
    split at h
    · exact List.mem_cons.mp h
    · split at h
      · exact (List.mem_cons.mp h).imp id (List.mem_cons_of_mem _)
      · rcases List.mem_cons.mp h with rfl | h
        · exact .inr List.mem_cons_self
        · exact (ih h).imp id (List.mem_cons_of_mem _)

/-- Putting a member where its key belongs keeps the keys ascending. -/
theorem pairwise_insertMember (key : String) (v : Json) {ms : List (String × Json)}
    (h : ms.Pairwise fun a b => a.1 < b.1) :
    (insertMember key v ms).Pairwise fun a b => a.1 < b.1 := by
  induction ms with
  | nil => exact List.pairwise_singleton _ _
  | cons m ms ih =>
    obtain ⟨hfirst, hrest⟩ := List.pairwise_cons.mp h
    rw [insertMember]
    split
    · next hlt =>
      refine List.pairwise_cons.mpr ⟨?_, h⟩
      intro a ha
      rcases List.mem_cons.mp ha with rfl | ha
      · exact hlt
      · exact String.lt_trans hlt (hfirst a ha)
    · next hge =>
      split
      · next heq =>
        rw [heq]
        exact List.pairwise_cons.mpr ⟨hfirst, hrest⟩
      · next hne =>
        have hlt : m.1 < key :=
          String.not_le.mp fun hle => hne (String.le_antisymm hle (String.not_lt.mp hge))
        refine List.pairwise_cons.mpr ⟨?_, ih hrest⟩
        intro a ha
        rcases mem_insertMember ha with rfl | ha
        · exact hlt
        · exact hfirst a ha

/-- An object has its members in order, and no others than were given. -/
theorem ofMembers_eq (ms : List (String × Json)) :
    ∃ ms', ofMembers ms = object ms' ∧ (ms'.Pairwise fun a b => a.1 < b.1)
      ∧ ∀ m ∈ ms', m ∈ ms := by
  refine ⟨_, rfl, ?_, ?_⟩
  · exact List.foldlRecOn ms _ List.Pairwise.nil fun acc hacc m _ => pairwise_insertMember _ _ hacc
  · refine List.foldlRecOn (motive := fun acc => ∀ m ∈ acc, m ∈ ms) ms _ (List.forall_mem_nil _) ?_
    intro acc hacc m hm m' hm'
    rcases mem_insertMember hm' with rfl | hm'
    · exact hm
    · exact hacc m' hm'

/-! ## Finding a member -/

theorem member?_cons (name : String) (m : String × Json) (ms : List (String × Json)) :
    (object (m :: ms)).member? name
      = if m.1 = name then some m.2 else (object ms).member? name := by
  rw [member?, List.find?_cons]
  split
  · next h => rw [if_pos (of_decide_eq_true h), Option.map_some]
  · next h => rw [if_neg (of_decide_eq_false h), member?]

/-- A member that is put in its place is found, and the others are found as before. -/
theorem member?_insertMember (name key : String) (v : Json) (ms : List (String × Json)) :
    (object (insertMember key v ms)).member? name
      = if key = name then some v else (object ms).member? name := by
  induction ms with
  | nil => exact member?_cons name (key, v) []
  | cons m ms ih =>
    rw [insertMember]
    split
    · exact member?_cons name (key, v) (m :: ms)
    · split
      · next heq =>
        rw [member?_cons, member?_cons, ← heq]
        split <;> rfl
      · next hne =>
        rw [member?_cons, member?_cons, ih]
        split
        · next hname => rw [if_neg (hname ▸ hne)]
        · rfl

/-- Of members with one key the last counts. -/
theorem member?_ofMembers_concat (name : String) (ms : List (String × Json)) (m : String × Json) :
    (ofMembers (ms ++ [m])).member? name
      = if m.1 = name then some m.2 else (ofMembers ms).member? name := by
  rw [ofMembers, List.foldl_append]
  exact member?_insertMember name m.1 m.2 _

/-- A key that occurs is found, with a value that it has. -/
theorem exists_member?_ofMembers {name : String} {ms : List (String × Json)}
    (h : ∃ m ∈ ms, m.1 = name) : ∃ v, (name, v) ∈ ms ∧ (ofMembers ms).member? name = some v := by
  induction ms using List.reverseRecOn with
  | nil => simp at h
  | append_singleton ms m ih =>
    rw [member?_ofMembers_concat]
    split
    · next hm => exact ⟨m.2, List.mem_append_right _ (List.mem_singleton.mpr (hm ▸ rfl)), rfl⟩
    · next hm =>
      obtain ⟨m', hm', hname⟩ := h
      rcases List.mem_append.mp hm' with hm' | hm'
      · obtain ⟨v, hv, hfound⟩ := ih ⟨m', hm', hname⟩
        exact ⟨v, List.mem_append_left _ hv, hfound⟩
      · exact absurd (List.mem_singleton.mp hm' ▸ hname) hm

/-! ## Values -/

theorem mem_orderedItems {vs : List Json} {v : Json} (h : v ∈ orderedItems vs) :
    ∃ u ∈ vs, v = u.ordered := by
  induction vs with
  | nil => cases h
  | cons u us ih =>
    rcases List.mem_cons.mp h with rfl | h
    · exact ⟨u, List.mem_cons_self, rfl⟩
    · obtain ⟨w, hw, hv⟩ := ih h
      exact ⟨w, List.mem_cons_of_mem _ hw, hv⟩

theorem mem_orderedMembers {ms : List (String × Json)} {m : String × Json}
    (h : m ∈ orderedMembers ms) : ∃ m' ∈ ms, m.2 = m'.2.ordered := by
  induction ms with
  | nil => cases h
  | cons m' ms ih =>
    obtain ⟨key, v⟩ := m'
    rcases List.mem_cons.mp h with rfl | h
    · exact ⟨_, List.mem_cons_self, rfl⟩
    · obtain ⟨m', hm', hm⟩ := ih h
      exact ⟨m', List.mem_cons_of_mem _ hm', hm⟩

theorem Plain.ordered {v : Json} (h : Plain depth v) : Plain depth v.ordered := by
  induction h with
  | null => exact .null
  | bool b => exact .bool b
  | integer n fits => exact .integer n fits
  | string s => exact .string s
  | array plain ih =>
    refine .array fun v hv => ?_
    obtain ⟨u, hu, rfl⟩ := mem_orderedItems hv
    exact ih u hu
  | @object _ ms plain ih =>
    obtain ⟨ms', hms', -, hmem⟩ := ofMembers_eq (orderedMembers ms)
    rw [Json.ordered, hms']
    refine .object fun m hm => ?_
    obtain ⟨m', hm', hvalue⟩ := mem_orderedMembers (hmem m hm)
    rw [hvalue]
    exact ih m' hm'

theorem orderedItems_eq_self {vs : List Json} (h : ∀ v ∈ vs, v.ordered = v) :
    orderedItems vs = vs := by
  induction vs with
  | nil => rfl
  | cons v vs ih =>
    rw [orderedItems, h v List.mem_cons_self, ih fun u hu => h u (List.mem_cons_of_mem _ hu)]

theorem orderedMembers_eq_self {ms : List (String × Json)} (h : ∀ m ∈ ms, m.2.ordered = m.2) :
    orderedMembers ms = ms := by
  induction ms with
  | nil => rfl
  | cons m ms ih =>
    obtain ⟨key, v⟩ := m
    have hv : v.ordered = v := h _ List.mem_cons_self
    rw [orderedMembers, hv, ih fun m' hm => h m' (List.mem_cons_of_mem _ hm)]

/-- An object is in order if its keys ascend and its values are in order. -/
theorem ordered_object {ms : List (String × Json)} (hsorted : ms.Pairwise fun a b => a.1 < b.1)
    (h : ∀ m ∈ ms, m.2.ordered = m.2) : (object ms).ordered = object ms := by
  rw [ordered, orderedMembers_eq_self h, ofMembers_of_sorted hsorted]

/-- A value in order stays as it is. -/
theorem Plain.ordered_ordered {v : Json} (h : Plain depth v) : v.ordered.ordered = v.ordered := by
  induction h with
  | null => rfl
  | bool b => rfl
  | integer n fits => rfl
  | string s => rfl
  | @array _ vs plain ih =>
    have hitems : orderedItems (orderedItems vs) = orderedItems vs := by
      refine orderedItems_eq_self fun v hv => ?_
      obtain ⟨u, hu, rfl⟩ := mem_orderedItems hv
      exact ih u hu
    rw [Json.ordered, Json.ordered, hitems]
  | @object _ ms plain ih =>
    obtain ⟨ms', hms', hsorted, hmem⟩ := ofMembers_eq (orderedMembers ms)
    rw [Json.ordered, hms']
    refine ordered_object hsorted fun m hm => ?_
    obtain ⟨m', hm', hvalue⟩ := mem_orderedMembers (hmem m hm)
    rw [hvalue]
    exact ih m' hm'

end ProvableRecord.Json
