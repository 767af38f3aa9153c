import ProvableRecord.Proofs.Json.Fuel
import ProvableRecord.Proofs.Json.RoundTrip
import ProvableRecord.Proofs.Latest

/-!
# The members that a text lists

A text lists the members of an object in some order, and may list a key more than once.
`HasMembers` says what a text lists, with nothing left out.  The value that is read has less: of the
members with one key the last (`HasMembers.read?`, `exists_perm_latest`).

The text of an object lists the members that were written, whatever blanks stand between them
(`hasMembers_write`).
-/

namespace ProvableRecord.Json

variable {text name : String} {v : Json} {ms : List (String × Json)}

/-- The text is an object that lists these members, in this order and as often as they stand
there. -/
inductive HasMembers (text : String) : List (String × Json) → Prop where
  | empty {s rest : List Char} (opens : skipBlanks text.toList = '\x7b' :: s)
    (closes : skipBlanks s = '\x7d' :: rest) (ends : skipBlanks rest = []) : HasMembers text []
  | nonempty {s rest : List Char} {ms : List (String × Json)}
    (opens : skipBlanks text.toList = '\x7b' :: s)
    (members : readMembers (fuelFor s) (maxDepth - 1) (skipBlanks s) = some (ms, rest))
    (ends : skipBlanks rest = []) : HasMembers text ms

/-! ## What is read -/

theorem read?_of_readsLevel {rest : List Char}
    (h : ReadsLevel (2 * text.toList.length + 1) maxDepth (skipBlanks text.toList) v rest)
    (ends : skipBlanks rest = []) : read? text = some v := by
  have hread : readValue (fuelFor text.toList) maxDepth text.toList = some (v, rest) :=
    readValue_succ_iff.mpr h
  simp only [read?, hread, ends, List.isEmpty_nil, if_true]

/-- **The value of a text** has the members that the text lists. -/
theorem HasMembers.read? (h : HasMembers text ms) : read? text = some (ofMembers ms) := by
  cases h with
  | empty opens closes ends => exact read?_of_readsLevel (opens ▸ .emptyObject closes) ends
  | @nonempty s rest _ opens members ends =>
    have hlt := length_lt_of_skipBlanks opens
    have hfuel : fuelFor s ≤ 2 * text.toList.length + 1 := by
      rw [fuelFor]
      omega
    refine read?_of_readsLevel (opens ▸ .object ?_ ((fuelExtends hfuel).members members)) ends
    -- members begin with the quote of a key and not with the closing brace
    intro t heq
    have hquote : ∃ t', skipBlanks (skipBlanks s) = '"' :: t' := by
      cases readMembers_succ_iff.mp members with
      | last quote => exact ⟨_, quote⟩
      | more quote => exact ⟨_, quote⟩
    obtain ⟨t', ht'⟩ := hquote
    rw [heq, skipBlanks_cons_of_not_blank rfl] at ht'
    cases ht'

/-- The members of an object whose keys ascend are found by their keys. -/
theorem member?_eq_some_iff (h : ms.Pairwise fun a b => a.1 < b.1) :
    (object ms).member? name = some v ↔ (name, v) ∈ ms := by
  induction ms with
  | nil => exact iff_of_false (Option.some_ne_none v).symm List.not_mem_nil
  | cons m ms ih =>
    obtain ⟨hfirst, hrest⟩ := List.pairwise_cons.mp h
    rw [member?_cons, List.mem_cons, ← ih hrest]
    split
    · next hname =>
      have hnone : ¬ (object ms).member? name = some v := by
        rw [ih hrest]
        intro hmem
        have hlt := hfirst _ hmem
        rw [hname] at hlt
        exact String.lt_irrefl _ hlt
      rw [or_iff_left hnone, Option.some_inj, ← hname]
      exact ⟨fun hv => hv ▸ rfl, fun hm => (congrArg Prod.snd hm).symm⟩
    · next hname =>
      exact (or_iff_right fun hm => hname (congrArg Prod.fst hm).symm).symm

/-- Members put in their places one after the other: a key has the value of the last member with it,
or the value that it had. -/
theorem member?_foldl_insertMember {acc : List (String × Json)} :
    (object (ms.foldl (fun acc m => insertMember m.1 m.2 acc) acc)).member? name = some v
      ↔ IsLatest Prod.fst (name, v) ms
        ∨ (∀ m ∈ ms, m.1 ≠ name) ∧ (object acc).member? name = some v := by
  induction ms generalizing acc with
  | nil => simp [not_isLatest_nil]
  | cons m ms ih =>
    rw [List.foldl_cons, ih, member?_insertMember, isLatest_cons, List.forall_mem_cons]
    by_cases hname : m.1 = name
    · subst hname
      have hm : (m.1, v) = m ↔ m.2 = v :=
        ⟨fun hm => (congrArg Prod.snd hm).symm, fun hv => Prod.ext rfl hv.symm⟩
      rw [if_pos rfl, Option.some_inj, hm]
      simp only [ne_eq, not_true, false_and, or_false]
      exact or_comm.trans (or_congr_left and_comm)
    · have hm : (name, v) ≠ m := fun hm => hname (congrArg Prod.fst hm).symm
      rw [if_neg hname]
      simp only [hm, hname, ne_eq, not_false_iff, true_and, false_and, false_or]

/-- **An object has, of the members with one key, the last.** -/
theorem exists_perm_latest (ms : List (String × Json)) :
    ∃ ms', ofMembers ms = object ms' ∧ ms'.Perm (latest Prod.fst ms) := by
  obtain ⟨ms', heq, hsorted, -⟩ := ofMembers_eq ms
  refine ⟨ms', heq, ?_⟩
  have hnodup : ms'.Nodup := by
    refine hsorted.imp fun hlt heq => ?_
    rw [heq] at hlt
    exact String.lt_irrefl _ hlt
  rw [List.perm_ext_iff_of_nodup hnodup (nodup_map_latest Prod.fst ms).of_map]
  rintro ⟨name, v⟩
  rw [mem_latest_iff, ← member?_eq_some_iff hsorted, ← heq, ofMembers, member?_foldl_insertMember]
  exact or_iff_left fun hnone => (Option.some_ne_none v).symm hnone.2

/-! ## What is written -/

/-- **The text of an object lists its members**, in every layout of blanks and with blanks after
it. -/
theorem hasMembers_write {L : Layout} (hL : L.Blank)
    (hplain : ∀ m ∈ ms, Plain (maxDepth - 1) m.2) {blanks : List Char}
    (hblanks : ∀ c ∈ blanks, isBlank c = true) :
    HasMembers (String.ofList (write L 0 (object ms) ++ blanks)) (orderedMembers ms) := by
  have hends : skipBlanks blanks = [] := skipBlanks_eq_nil hblanks
  cases ms with
  | nil =>
    refine .empty ?_ (skipBlanks_cons_of_not_blank rfl) hends
    rw [String.toList_ofList]
    exact skipBlanks_cons_of_not_blank rfl
  | cons m ms =>
    obtain ⟨key, v⟩ := m
    have hopens : skipBlanks (String.ofList (write L 0 (object ((key, v) :: ms)) ++ blanks)).toList
        = '\x7b' :: (L.line 1 ++ membersText L 1 key v ms (L.line 0 ++ '\x7d' :: blanks)) := by
      rw [String.toList_ofList, write_object_cons]
      exact skipBlanks_cons_of_not_blank rfl
    refine .nonempty hopens ?_ hends
    rw [skipBlanks_membersText (hL.line 1)]
    refine readMembers_write hL hplain (fun m hm => (hplain m hm).readsBack hL) (hL.line 0)
      (skipBlanks_membersText (List.forall_mem_nil _) 1 key v ms _) ?_
    rw [fuelFor, List.length_append, length_membersText]
    omega

end ProvableRecord.Json
