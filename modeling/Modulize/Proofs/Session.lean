import Modulize.Session

/-!
# Runs of sessions

What each building block of a session does to the world that it runs on. A session runs its steps
one after another and stops at the first failure (`runOn_bind`); without a log file, reports change
nothing but the list of events (`World.Quiet`).
-/

namespace Modulize

/-- Another world with the same files, and like it without a log file. -/
structure World.Quiet (w w' : World) : Prop where
  files : w'.files = w.files
  logFile : w'.logFile = none

namespace World

theorem Quiet.refl {w : World} (h : w.logFile = none) : w.Quiet w := ⟨rfl, h⟩

theorem Quiet.trans {a b c : World} (h : a.Quiet b) (h' : b.Quiet c) : a.Quiet c :=
  ⟨h'.files.trans h.files, h'.logFile⟩

theorem quiet_note {w : World} (h : w.logFile = none) (e : Log.Event) : w.Quiet (w.note e) := by
  constructor <;> simp [note, h]

theorem withFiles_logFile {w : World} (h : w.logFile = none) (fs : FileStore) :
    (w.withFiles fs).logFile = none := by
  simp [withFiles, h]

end World

namespace Session

variable {α β : Type} {w : World}

@[simp] theorem runOn_pure (a : α) (w : World) : (pure a : Session α).runOn w = (.ok a, w) := rfl

@[simp] theorem runOn_look (f : FileStore → α) (w : World) :
    (look f).runOn w = (.ok (f w.files), w) := rfl

@[simp] theorem runOn_read (f : FileStore → Except Failure α) (w : World) :
    (read f).runOn w = (f w.files, w) := rfl

@[simp] theorem runOn_emit (e : Log.Event) (w : World) : (emit e).runOn w = (.ok (), w.note e) :=
  rfl

theorem runOn_bind (s : Session α) (k : α → Session β) (w : World) :
    (s >>= k).runOn w = match s.runOn w with
      | (.ok a, w') => (k a).runOn w'
      | (.error f, w') => (.error f, w') := by
  change (do let x ← s.run; ExceptT.bindCont k x : StateM World _).run w = _
  simp only [runOn, StateT.run_bind]
  change (match s.run.run w with | (x, w') => (ExceptT.bindCont k x).run w') = _
  rcases s.run.run w with ⟨x | a, w'⟩ <;> rfl

theorem runOn_change (f : FileStore → Except Failure FileStore) (w : World) :
    (change f).runOn w = match f w.files with
      | .ok files => (.ok (), w.withFiles files)
      | .error e => (.error e, w) := by
  rw [change, runOn_bind, runOn_read]
  cases f w.files <;> rfl

theorem runOn_emitAll (es : List Log.Event) (hlog : w.logFile = none) :
    ∃ w', (emitAll es).runOn w = (.ok (), w') ∧ w.Quiet w' := by
  induction es generalizing w with
  | nil => exact ⟨w, rfl, .refl hlog⟩
  | cons e es ih =>
    have quiet := World.quiet_note hlog e
    obtain ⟨w', run, quiet'⟩ := ih quiet.logFile
    refine ⟨w', ?_, quiet.trans quiet'⟩
    rw [← run]
    exact runOn_bind (emit e) (fun _ => emitAll es) w

end Session

end Modulize
