import Mathlib.Data.List.Forall2

/-!
# Successful computations

What a computation that succeeded says about its parts, and which part of a list of computations
failed.
-/

namespace Except

variable {ε ε' α β : Type}

theorem bind_eq_ok_iff {x : Except ε α} {f : α → Except ε β} {b : β} :
    x >>= f = .ok b ↔ ∃ a, x = .ok a ∧ f a = .ok b := by
  cases x <;> simp [bind, Except.bind]

theorem map_eq_ok_iff {x : Except ε α} {f : α → β} {b : β} :
    x.map f = .ok b ↔ ∃ a, x = .ok a ∧ f a = b := by
  cases x <;> simp [Except.map]

theorem mapError_ok (a : α) (f : ε → ε') : (.ok a : Except ε α).mapError f = .ok a := rfl

theorem mapError_error (e : ε) (f : ε → ε') :
    (.error e : Except ε α).mapError f = .error (f e) := rfl

theorem mapError_eq_ok_iff {x : Except ε α} {f : ε → ε'} {a : α} :
    x.mapError f = .ok a ↔ x = .ok a := by
  cases x <;> simp [mapError_ok, mapError_error]

/-- A list of computations that all succeed. -/
theorem mapM_eq_ok {f : α → Except ε β} {g : α → β} {as : List α}
    (h : ∀ a ∈ as, f a = .ok (g a)) : as.mapM f = .ok (as.map g) := by
  induction as with
  | nil => rfl
  | cons a as ih =>
    rw [List.mapM_cons, h a List.mem_cons_self,
      ih fun a' ha' => h a' (List.mem_cons_of_mem a ha')]
    rfl

/-- A list of computations that each undo `f`. -/
theorem mapM_map_eq_ok {f : α → β} {g : β → Except ε α} {as : List α}
    (h : ∀ a ∈ as, g (f a) = .ok a) : (as.map f).mapM g = .ok as := by
  have hall : as.mapM (g ∘ f) = .ok (as.map id) := mapM_eq_ok h
  rw [List.mapM_map, hall, List.map_id]

/-- **A list of computations succeeds** with one result for each of them. -/
theorem mapM_eq_ok_iff {f : α → Except ε β} {as : List α} {bs : List β} :
    as.mapM f = .ok bs ↔ List.Forall₂ (fun a b => f a = .ok b) as bs := by
  induction as generalizing bs with
  | nil =>
    rw [List.forall₂_nil_left_iff, List.mapM_nil]
    exact ⟨fun h => by cases h; rfl, fun h => by rw [h]; rfl⟩
  | cons a as ih =>
    rw [List.mapM_cons, bind_eq_ok_iff, List.forall₂_cons_left_iff]
    refine exists_congr fun b => ?_
    constructor
    · rintro ⟨hfirst, h⟩
      obtain ⟨bs', hrest, h⟩ := bind_eq_ok_iff.mp h
      cases h
      exact ⟨bs', hfirst, ih.mp hrest, rfl⟩
    · rintro ⟨bs', hfirst, hrest, rfl⟩
      exact ⟨hfirst, bind_eq_ok_iff.mpr ⟨bs', ih.mpr hrest, rfl⟩⟩

/-- **A list of computations fails** with the error of the first of them that does. -/
theorem mapM_eq_error {f : α → Except ε β} {as : List α} {e : ε} (h : as.mapM f = .error e) :
    ∃ before a after, as = before ++ a :: after ∧ (∀ a' ∈ before, ∃ b, f a' = .ok b)
      ∧ f a = .error e := by
  induction as with
  | nil => cases h
  | cons a as ih =>
    rw [List.mapM_cons] at h
    cases hfirst : f a with
    | error e' =>
      rw [hfirst] at h
      cases h
      exact ⟨[], a, as, rfl, List.forall_mem_nil _, hfirst⟩
    | ok b =>
      rw [hfirst] at h
      have hrest : as.mapM f = .error e := by
        cases hrest : as.mapM f with
        | error e' =>
          simp only [bind, Except.bind, hrest] at h
          rw [Except.error.inj h]
        | ok bs =>
          simp only [bind, Except.bind, hrest] at h
          cases h
      obtain ⟨before, a', after, rfl, hbefore, herror⟩ := ih hrest
      exact ⟨a :: before, a', after, rfl, List.forall_mem_cons.mpr ⟨⟨b, hfirst⟩, hbefore⟩, herror⟩

/-- Each result of a list of computations is the result of one of them. -/
theorem exists_of_mem_mapM {f : α → Except ε β} {as : List α} {bs : List β} {b : β}
    (h : as.mapM f = .ok bs) (hb : b ∈ bs) : ∃ a ∈ as, f a = .ok b := by
  obtain ⟨hlength, hall⟩ := List.forall₂_iff_get.mp (mapM_eq_ok_iff.mp h)
  obtain ⟨i, hi, rfl⟩ := List.mem_iff_getElem.mp hb
  exact ⟨as[i], List.getElem_mem _, hall i (hlength ▸ hi) hi⟩

/-- Each computation of a list that succeeds has a result. -/
theorem exists_eq_ok_of_mapM {f : α → Except ε β} {as : List α} {bs : List β} {a : α}
    (h : as.mapM f = .ok bs) (ha : a ∈ as) : ∃ b ∈ bs, f a = .ok b := by
  obtain ⟨hlength, hall⟩ := List.forall₂_iff_get.mp (mapM_eq_ok_iff.mp h)
  obtain ⟨i, hi, rfl⟩ := List.mem_iff_getElem.mp ha
  exact ⟨bs[i], List.getElem_mem _, hall i hi (hlength ▸ hi)⟩

end Except
