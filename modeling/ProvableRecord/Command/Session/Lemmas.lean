import ProvableRecord.Command.Session

/-!
# Reading back what was written

`read_of_write` says that a file reads as the text that was written to it, unless its path leads to
a sink.  The place of a write is no directory before, so the write changes no node that a walk to it
passes: `walk_put`.
-/

namespace ProvableRecord.Command.Session

theorem at?_put_self {s : Session} {place : Place} {node : Node} (h : place ≠ []) :
    (s.put place node).at? place = some node := by
  simp [at?, put, h]

theorem at?_put_of_ne {s : Session} {place other : Place} {node : Node}
    (h : other ≠ place) : (s.put place node).at? other = s.at? other := by
  unfold at? put
  split
  · rfl
  · rw [List.find?_cons_of_neg (by simpa using h.symm), List.find?_filter]
    congr 2
    funext n
    by_cases hn : n.1 = other
    · simp [hn, h]
    · simp [hn]

/-- A walk does not see a change at a place that was no directory. -/
theorem walk_put {s : Session} {place : Place} {node : Node}
    (h : s.at? place ≠ some .directory) {here reached : Place} {names : List String}
    (hw : s.walk here names = .ok reached) : (s.put place node).walk here names = .ok reached := by
  induction names generalizing here with
  | nil => simpa [walk] using hw
  | cons name names ih =>
    unfold walk at hw ⊢
    cases hat : s.at? here with
    | none => simp [hat] at hw
    | some found =>
      cases found with
      | file bytes => simp [hat] at hw
      | sink => simp [hat] at hw
      | directory =>
        have hne : here ≠ place := fun he => h (he ▸ hat)
        rw [at?_put_of_ne hne, hat]
        simp only [hat] at hw ⊢
        cases hs : step here name with
        | error e => simp [hs, bind, Except.bind] at hw
        | ok next =>
          simp only [hs, bind, Except.bind] at hw ⊢
          exact ih hw

/-- A write leads to a place that is no directory, and changes it alone. -/
theorem write_eq_ok {s after : Session} {path text : String} (h : s.write path text = .ok after) :
    ∃ place, s.resolve path = .ok place ∧ s.at? place ≠ some .directory ∧
      (s.at? place ≠ some .sink → after = s.put place (.file text.toUTF8)) := by
  unfold write at h
  cases hn : namesOf path with
  | error e => simp [hn, bind, Except.bind] at h
  | ok names =>
    simp only [hn, bind, Except.bind] at h
    split at h
    · split at h <;> simp [throw, throwThe, MonadExceptOf.throw] at h
    · cases hw : s.walk (origin path) names with
      | error e => simp [hw] at h
      | ok place =>
        simp only [hw] at h
        refine ⟨place, by simp [resolve, hn, hw, bind, Except.bind], ?_⟩
        revert h
        split
        · rintro ⟨⟩
        · next hat => exact fun _ => ⟨by simp [hat], fun hne => absurd hat hne⟩
        · next hd hs => rintro ⟨⟩; exact ⟨hd, fun _ => rfl⟩

/-- Reading gives what was written last. -/
theorem read_of_write {s after : Session} {path text : String}
    (hsink : ∀ place, s.resolve path = .ok place → s.at? place ≠ some .sink)
    (h : s.write path text = .ok after) : after.read path = .ok text := by
  obtain ⟨place, hr, hdir, hput⟩ := write_eq_ok h
  obtain rfl := hput (hsink place hr)
  have hplace : place ≠ [] := by
    rintro rfl
    exact hdir rfl
  have hr' : (s.put place (.file text.toUTF8)).resolve path = .ok place := by
    unfold resolve at hr ⊢
    cases hn : namesOf path with
    | error e => simp [hn, bind, Except.bind] at hr
    | ok names =>
      simp only [hn, bind, Except.bind] at hr ⊢
      exact walk_put hdir hr
  unfold read
  have htext : String.fromUTF8? text.toUTF8 = some text := dif_pos text.isValidUTF8
  simp only [hr', bind, Except.bind, at?_put_self hplace, htext]
  rfl

end ProvableRecord.Command.Session
