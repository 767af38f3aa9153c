import ProvableRecord.Command.Execution
import ProvableRecord.Command.Session.Lemmas
import ProvableRecord.Proofs.Except

/-!
# Tasks on a session

A task that runs on a session ends with a result or a failure, and with a session (`Task.runOn`).
Each operation of a task has a lemma that says what it does, so that a command is run one operation
after the other (`runOn_bind`).

Logging changes no file: what a path leads to, and so what a write does, depends on the nodes of a
session alone (`write_congr`, `Keeps.of_nodes_eq`).
-/

namespace ProvableRecord.Command

namespace Session

variable {s t : Session} {path text : String}

/-! ## Files depend on the nodes -/

theorem at?_congr (h : s.nodes = t.nodes) (place : Place) : s.at? place = t.at? place := by
  rw [at?, at?, h]

theorem walk_congr (h : s.nodes = t.nodes) (here : Place) (names : List String) :
    s.walk here names = t.walk here names := by
  induction names generalizing here with
  | nil => rfl
  | cons name names ih =>
    simp only [walk, at?_congr h]
    split
    · exact congrArg _ (funext ih)
    · rfl
    · rfl

theorem resolve_congr (h : s.nodes = t.nodes) (path : String) :
    s.resolve path = t.resolve path :=
  congrArg _ (funext (walk_congr h (origin path)))

/-- A write does the same to equal nodes. -/
theorem write_congr (h : s.nodes = t.nodes) (path text : String) :
    (s.write path text).map nodes = (t.write path text).map nodes := by
  have hwalk := walk_congr h
  simp only [write, walkInto, hwalk]
  cases namesOf path with
  | error fault => rfl
  | ok names =>
    simp only [bind, Except.bind]
    split
    · split <;> rfl
    · cases t.walk (origin path) names with
      | error fault => rfl
      | ok place =>
        simp only [at?_congr h]
        split
        · rfl
        · exact congrArg Except.ok h
        · simp only [pure, Except.pure, Except.map, put, h]

/-- A file can be written at the path, and it can be read from there. -/
structure Keeps (s : Session) (path : String) : Prop where
  writes : ∀ text, ∃ after, s.write path text = .ok after
  not_sink : ∀ place, s.resolve path = .ok place → s.at? place ≠ some .sink

/-- A path keeps files if nothing is there, but the directory for it is. -/
theorem Keeps.of_walk {names : List String} {place : Place} (hnames : namesOf path = .ok names)
    (hlast : names.getLast? ≠ some "") (hwalk : s.walk (origin path) names = .ok place)
    (hplace : s.at? place = none) : s.Keeps path where
  writes := by
    intro text
    refine ⟨s.put place (.file text.toUTF8), ?_⟩
    simp only [write, hnames, hwalk, hplace, if_neg hlast, bind, Except.bind]
    rfl
  not_sink := by
    intro place' hplace'
    rw [resolve, hnames] at hplace'
    obtain rfl : place = place' := Except.ok.inj (hwalk.symm.trans hplace')
    rw [hplace]
    rintro ⟨⟩

theorem Keeps.of_nodes_eq (h : s.Keeps path) (hnodes : t.nodes = s.nodes) : t.Keeps path where
  writes := by
    intro text
    obtain ⟨after, hafter⟩ := h.writes text
    have hmap := write_congr hnodes path text
    rw [hafter] at hmap
    obtain ⟨after', hafter', -⟩ := Except.map_eq_ok_iff.mp hmap
    exact ⟨after', hafter'⟩
  not_sink := by
    intro place hplace
    rw [resolve_congr hnodes] at hplace
    rw [at?_congr hnodes]
    exact h.not_sink place hplace

/-- **A path that keeps files** leads to one place, whatever is written, and reads as what was
written. -/
theorem Keeps.write_eq (h : s.Keeps path) (text : String) :
    ∃ place, s.resolve path = .ok place
      ∧ s.write path text = .ok (s.put place (.file text.toUTF8))
      ∧ (s.put place (.file text.toUTF8)).read path = .ok text := by
  obtain ⟨after, hafter⟩ := h.writes text
  obtain ⟨place, hplace, -, hput⟩ := write_eq_ok hafter
  obtain rfl := hput (h.not_sink place hplace)
  exact ⟨place, hplace, hafter, read_of_write h.not_sink hafter⟩

/-- A file that was put where a path leads is read from there. -/
theorem Keeps.read_put {place : Place} (h : s.Keeps path) (hplace : s.resolve path = .ok place)
    (text : String) : (s.put place (.file text.toUTF8)).read path = .ok text := by
  obtain ⟨place', hplace', -, hback⟩ := h.write_eq text
  obtain rfl : place = place' := Except.ok.inj (hplace.symm.trans hplace')
  exact hback

end Session

namespace Task

variable {α β : Type} {filter : LogFilter} {s s' : Session}

/-- What a task does on a session: its result or its failure, and the session after it. -/
def runOn (task : Task (StateM Session) α) (filter : LogFilter) (s : Session) :
    Except Failure α × Session :=
  (task filter).run s

theorem runOn_pure (a : α) : (pure a : Task (StateM Session) α).runOn filter s = (.ok a, s) := rfl

theorem runOn_bind {x : Task (StateM Session) α} {f : α → Task (StateM Session) β} {a : α}
    (h : x.runOn filter s = (.ok a, s')) :
    (x >>= f).runOn filter s = (f a).runOn filter s' := by
  simp only [runOn, bind, ReaderT.bind, ExceptT.bind, ExceptT.mk, ExceptT.run, StateT.bind] at h ⊢
  rw [h]
  rfl

theorem runOn_bind_error {x : Task (StateM Session) α} {f : α → Task (StateM Session) β}
    {failure : Failure} (h : x.runOn filter s = (.error failure, s')) :
    (x >>= f).runOn filter s = (.error failure, s') := by
  simp only [runOn, bind, ReaderT.bind, ExceptT.bind, ExceptT.mk, ExceptT.run, StateT.bind] at h ⊢
  rw [h]
  rfl

/-- The session after an event was logged, if the filter shows it. -/
def noted (filter : LogFilter) (e : Event) (s : Session) : Session :=
  if filter.shows e then { s with logged := s.logged ++ [e.line] } else s

theorem nodes_noted (filter : LogFilter) (e : Event) (s : Session) :
    (noted filter e s).nodes = s.nodes := by
  rw [noted]
  split <;> rfl

theorem printed_noted (filter : LogFilter) (e : Event) (s : Session) :
    (noted filter e s).printed = s.printed := by
  rw [noted]
  split <;> rfl

theorem runOn_emit (e : Event) : (emit e).runOn filter s = (.ok (), noted filter e s) := by
  by_cases h : filter.shows e = true
  · simp only [runOn, emit, noted, if_pos h]
    rfl
  · simp only [runOn, emit, noted, if_neg h]
    rfl

theorem runOn_printLine (line : String) : (printLine line).runOn filter s
    = (.ok (), { s with printed := s.printed ++ (line ++ "\n") }) := rfl

theorem runOn_require_ok {ε : Type} (doing : List String) (cause : ε → Cause) (a : α) :
    (require doing cause (.ok a)).runOn filter s = (.ok a, s) := rfl

theorem runOn_require_error {ε : Type} (doing : List String) (cause : ε → Cause) (e : ε) :
    (require doing cause (.error e) : Task (StateM Session) α).runOn filter s
      = (.error ⟨doing, cause e⟩, s) := rfl

theorem runOn_liftExcept (r : Except Failure α) :
    (liftExcept r).runOn filter s = (r, s) := rfl

/-- An operation of the workspace does to the session what it does outside a task. -/
theorem runOn_liftM {x : StateM Session α} {a : α} (h : x s = (a, s')) :
    runOn (liftM x) filter s = (.ok a, s') := by
  have hlift : runOn (liftM x) filter s = (.ok (x s).1, (x s).2) := rfl
  rw [hlift, h]

theorem runOn_readText {path text : String} (doing : String) (h : s.read path = .ok text) :
    (readText doing path).runOn filter s = (.ok text, s) := by
  have hread : (Workspace.readFile path : StateM Session _) s = (.ok text, s) :=
    congrArg (·, s) h
  rw [readText, runOn_bind (runOn_liftM hread), runOn_require_ok]

theorem runOn_writeText {path text : String} (doing : String) (h : s.write path text = .ok s') :
    (writeText doing path text).runOn filter s = (.ok (), s') := by
  have hwrite : (Workspace.writeFile path text : StateM Session _) s = (.ok (), s') := by
    show Session.attempt (fun s => s.write path text) s = _
    rw [Session.attempt, h]
  rw [writeText, runOn_bind (runOn_liftM hwrite), runOn_require_ok]

/-- Reading a document from a file is reading it from the text of the file. -/
theorem runOn_readDocument_eq (filter : LogFilter) {path text : String}
    (hread : s.read path = .ok text) :
    (readDocument path).runOn filter s
      = ((Document.ofText text).mapError (documentFailure path), s) := by
  rw [readDocument, runOn_bind (runOn_readText _ hread), runOn_liftExcept]

/-- A document is read from a file that holds one. -/
theorem runOn_readDocument {path text : String} {d : Document} (h : s.read path = .ok text)
    (hd : Document.ofText text = .ok d) :
    (readDocument path).runOn filter s = (.ok d, s) := by
  rw [runOn_readDocument_eq filter h, hd]
  rfl

/-- Evidence is read from a file that holds some. -/
theorem runOn_readEvidence {path text : String} {ev : Evidence} (h : s.read path = .ok text)
    (hev : Evidence.ofText text = .ok ev) :
    (readEvidence path).runOn filter s = (.ok ev, s) := by
  rw [readEvidence, runOn_bind (runOn_readText _ h), runOn_liftExcept, hev]
  rfl

end Task

end ProvableRecord.Command
