import Mathlib.Data.List.Dedup
import Mathlib.Data.List.Forall2

/-!
# The last of each key

Elements of a list have keys, and of the elements with one key `latest` keeps the last.  What it
keeps are the elements after which their key does not come again (`mem_latest_iff`), one for each
key (`map_latest`), so it keeps all of them just if no key comes twice (`latest_eq_self_iff`).
-/

namespace ProvableRecord

variable {α β κ μ : Type} {key : α → κ} {a b : α} {as : List α}

/-- The element is in the list, and its key does not come again after it. -/
def IsLatest (key : α → κ) (a : α) (as : List α) : Prop :=
  ∃ before after, as = before ++ a :: after ∧ ∀ b ∈ after, key b ≠ key a

theorem not_isLatest_nil : ¬ IsLatest key a [] := by
  rintro ⟨before, after, heq, -⟩
  exact List.append_ne_nil_of_right_ne_nil before (List.cons_ne_nil a after) heq.symm

theorem isLatest_cons : IsLatest key a (b :: as)
    ↔ a = b ∧ (∀ c ∈ as, key c ≠ key b) ∨ IsLatest key a as := by
  constructor
  · rintro ⟨before, after, heq, hafter⟩
    cases before with
    | nil =>
      obtain ⟨rfl, rfl⟩ := List.cons.inj heq
      exact .inl ⟨rfl, hafter⟩
    | cons c before =>
      obtain ⟨-, rfl⟩ := List.cons.inj heq
      exact .inr ⟨before, after, rfl, hafter⟩
  · rintro (⟨rfl, hall⟩ | ⟨before, after, rfl, hafter⟩)
    · exact ⟨[], as, rfl, hall⟩
    · exact ⟨b :: before, after, rfl, hafter⟩

variable [DecidableEq κ] [DecidableEq μ]

/-- Of the elements with one key the last, for each key. -/
def latest (key : α → κ) (as : List α) : List α := as.pwFilter fun a b => key a ≠ key b

theorem latest_cons (key : α → κ) (a : α) (as : List α) :
    latest key (a :: as)
      = if ∀ b ∈ as, key b ≠ key a then a :: latest key as else latest key as := by
  have hkept : (∀ b ∈ latest key as, key a ≠ key b) ↔ ∀ b ∈ as, key b ≠ key a := by
    rw [latest, List.forall_mem_pwFilter]
    · exact forall₂_congr fun b _ => ne_comm
    · intro x y z hxz
      by_contra hall
      rw [not_or, not_ne_iff, not_ne_iff] at hall
      exact hxz (hall.1.trans hall.2)
  rw [latest]
  split
  · next h => exact List.pwFilter_cons_of_pos (hkept.mpr h)
  · next h => exact List.pwFilter_cons_of_neg fun hall => h (hkept.mp hall)

/-- **An element is kept** if its key does not come again after it. -/
theorem mem_latest_iff : a ∈ latest key as ↔ IsLatest key a as := by
  induction as with
  | nil => exact iff_of_false List.not_mem_nil not_isLatest_nil
  | cons b as ih =>
    rw [latest_cons, isLatest_cons, ← ih]
    split
    · next h => rw [List.mem_cons, and_iff_left h]
    · next h => exact (or_iff_right fun hab => h hab.2).symm

theorem latest_subset : latest key as ⊆ as := List.pwFilter_subset as

/-- Each key is kept once. -/
theorem map_latest (key : α → κ) (as : List α) : (latest key as).map key = (as.map key).dedup := by
  rw [List.dedup, List.pwFilter_map]
  rfl

theorem nodup_map_latest (key : α → κ) (as : List α) : ((latest key as).map key).Nodup := by
  rw [map_latest]
  exact List.nodup_dedup _

theorem latest_eq_nil_iff : latest key as = [] ↔ as = [] := by
  rw [← List.map_eq_nil_iff, map_latest, List.dedup_eq_nil, List.map_eq_nil_iff]

/-- **All elements are kept** just if no key comes twice. -/
theorem latest_eq_self_iff : latest key as = as ↔ (as.map key).Nodup := by
  rw [latest, List.pwFilter_eq_self, List.Nodup, List.pairwise_map]

/-- Where a key comes twice, fewer elements are kept. -/
theorem length_latest_lt (h : ¬ (as.map key).Nodup) : (latest key as).length < as.length := by
  have hsublist : List.Sublist (latest key as) as := List.pwFilter_sublist as
  refine Nat.lt_of_le_of_ne hsublist.length_le fun heq => ?_
  exact h (latest_eq_self_iff.mp (hsublist.eq_of_length heq))

/-! ## Lists that match element by element -/

variable {R : α → β → Prop} {bs : List β}

theorem forall_mem_iff_of_forall₂ {P : α → Prop} {Q : β → Prop}
    (hiff : ∀ {a b}, R a b → (P a ↔ Q b)) (h : List.Forall₂ R as bs) :
    (∀ a ∈ as, P a) ↔ ∀ b ∈ bs, Q b := by
  induction h with
  | nil => exact iff_of_true (List.forall_mem_nil P) (List.forall_mem_nil Q)
  | cons hab _ ih => rw [List.forall_mem_cons, List.forall_mem_cons, hiff hab, ih]

/-- If keys are equal on one side where they are on the other, the elements that are kept match. -/
theorem forall₂_latest {key' : β → μ}
    (hkey : ∀ {a a' b b'}, R a b → R a' b' → (key a = key a' ↔ key' b = key' b'))
    (h : List.Forall₂ R as bs) : List.Forall₂ R (latest key as) (latest key' bs) := by
  induction h with
  | nil => exact .nil
  | @cons a b as bs hab hrest ih =>
    have hlast : (∀ c ∈ as, key c ≠ key a) ↔ ∀ d ∈ bs, key' d ≠ key' b :=
      forall_mem_iff_of_forall₂ (fun hcd => not_congr (hkey hcd hab)) hrest
    rw [latest_cons, latest_cons]
    split
    · next hall =>
      rw [if_pos (hlast.mp hall)]
      exact .cons hab ih
    · next hnot =>
      rw [if_neg fun hall => hnot (hlast.mpr hall)]
      exact ih

end ProvableRecord
