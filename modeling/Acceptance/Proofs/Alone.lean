import Acceptance.CommandLine.Run
import Acceptance.Proofs.Sparing

/-! # Tasks that are alone

A task that reads and changes the machine, and calls no other program, does the same whatever the
other programs are like. -/

namespace Acceptance

variable {α β : Type}

namespace Task

/-- Whatever the other programs are like, the task does the same. -/
def Alone (t : Task α) : Prop := ∀ outside other m, t.run other m = t.run outside m

theorem alone_pure (a : α) : (pure a : Task α).Alone := fun _ _ _ => rfl

theorem alone_fail (fault : Fault) : (fail fault : Task α).Alone := fun _ _ _ => rfl

theorem alone_read (f : Machine → α) : (read f).Alone := fun _ _ _ => rfl

theorem alone_change (f : Machine → Machine) : (change f).Alone := fun _ _ _ => rfl

theorem alone_ofExcept (e : Except Fault α) : (ofExcept e).Alone := by
  cases e <;> exact fun _ _ _ => rfl

theorem alone_attempt {t : Task α} (h : t.Alone) : (attempt t).Alone := by
  intro outside other m
  rw [run_attempt, run_attempt, h outside other m]

theorem alone_bind {t : Task α} {f : α → Task β} (ht : t.Alone) (hf : ∀ a, (f a).Alone) :
    (t >>= f).Alone := by
  intro outside other m
  rw [run_bind, run_bind, ht outside other m]
  rcases t.run outside m with ⟨fault | a, m₁⟩
  · rfl
  · exact hf a outside other m₁

theorem Asks.alone {t : Task α} (h : t.Asks) : t.Alone := by
  intro outside other m
  rw [h outside other m m rfl, h.run_self outside m]

/-! ## Files -/

theorem alone_checkPath (p : Path) : (checkPath p).Alone := by
  unfold checkPath
  split
  · exact alone_fail _
  · exact alone_pure _

theorem alone_onFiles (p : Path) (f : FileTree → Place → Except FileProblem α) :
    (onFiles p f).Alone := by
  refine alone_bind (alone_checkPath p) fun _ => alone_bind (alone_read _) fun result => ?_
  split
  · exact alone_pure _
  · exact alone_fail _

theorem alone_changeFiles (p : Path) (f : FileTree → Place → Except FileProblem FileTree) :
    (changeFiles p f).Alone :=
  alone_bind (alone_onFiles p f) fun _ => alone_change _

theorem alone_pathExists (p : Path) : (pathExists p).Alone := by
  unfold pathExists
  split
  · exact alone_pure _
  refine alone_bind (alone_read _) fun located => ?_
  split
  · exact alone_read _
  · exact alone_pure _
  · exact alone_pure _
  · exact alone_fail _

theorem alone_readText (p : Path) : (readText p).Alone := by
  refine alone_bind (alone_onFiles p _) fun content => ?_
  split
  · exact alone_pure _
  · exact alone_fail _

theorem alone_writeText (p : Path) (t : Text) : (writeText p t).Alone := by
  refine alone_bind (alone_changeFiles p _) fun _ => ?_
  split
  · exact alone_changeFiles p _
  · exact alone_fail _

theorem alone_ensureDirectory (p : Path) : (ensureDirectory p).Alone := by
  refine alone_bind (alone_checkPath p) fun _ => alone_bind (alone_read _) fun made => ?_
  refine alone_bind (alone_change _) fun _ => ?_
  split
  · exact alone_pure _
  · exact alone_fail _

theorem alone_removeFile (p : Path) : (removeFile p).Alone := by
  refine alone_bind (alone_checkPath p) fun _ => alone_bind (alone_read _) fun result => ?_
  split
  · exact alone_change _
  · exact alone_pure _
  · exact alone_fail _

theorem alone_print (t : Text) : (print t).Alone := by
  unfold print
  split
  · exact alone_change _
  · exact alone_fail _

/-! ## Time -/

theorem alone_checkDuration (milliseconds : Int) : (checkDuration milliseconds).Alone := by
  unfold checkDuration
  split
  · exact alone_fail _
  · exact alone_pure _

theorem alone_pause (milliseconds : Int) : (pause milliseconds).Alone :=
  alone_bind (alone_checkDuration milliseconds) fun _ => alone_change _

end Task

open Acceptance.Task

theorem ChildProcess.alone_watch (argv : List Text) (silent : Bool) (timeout : Int) (child : Child) :
    (watch argv silent timeout child).Alone := by
  refine alone_bind (alone_checkDuration timeout) fun _ => alone_bind (alone_change _) fun _ => ?_
  extract_lets output errors result told
  have htold : ∀ u, (told u).Alone := by
    intro u
    unfold told
    split
    · exact alone_bind (alone_change _) fun _ => alone_pure _
    · exact alone_pure _
  split
  · exact alone_bind (alone_change _) htold
  · exact htold ()

/-! ## Settings -/

namespace Settings

theorem alone_load : load.Alone := by
  refine alone_bind asks_file.alone fun p => alone_bind (alone_pathExists p) fun isThere => ?_
  split
  · refine alone_bind (alone_attempt (alone_readText p)) fun result => ?_
    split
    · exact alone_ofExcept _
    · exact alone_fail _
  · exact alone_pure _

theorem alone_get : get.Alone := by
  refine alone_bind (alone_read _) fun known => ?_
  split
  · exact alone_pure _
  · exact alone_bind alone_load fun _ => alone_bind (alone_change _) fun _ => alone_pure _

theorem alone_value? (keys : List Text) : (value? keys).Alone :=
  alone_bind alone_get fun _ => alone_pure _

theorem alone_int (keys : List Text) (standard : Int) : (int keys standard).Alone := by
  refine alone_bind (alone_value? keys) fun v => ?_
  split <;> exact alone_pure _

theorem alone_text (keys : List Text) (standard : Text) : (text keys standard).Alone := by
  refine alone_bind (alone_value? keys) fun v => ?_
  split <;> exact alone_pure _

theorem alone_table (keys : List Text) : (table keys).Alone := by
  refine alone_bind (alone_value? keys) fun v => ?_
  split
  · exact alone_ofExcept _
  · exact alone_pure _

end Settings

namespace LogLevel

theorem alone_configure (given : Option Text) : (configure given).Alone := by
  have hconfigured : configured.Alone := by
    refine alone_bind (alone_attempt (Settings.alone_text _ _)) fun result => ?_
    split
    · exact alone_pure _
    · exact alone_pure _
    · exact alone_fail _
  have hresolve : (resolve given).Alone := by
    unfold resolve
    split
    · exact alone_bind (alone_pure _) fun _ => alone_ofExcept _
    refine alone_bind (asks_setVariable? _).alone fun name => ?_
    split
    · exact alone_bind (alone_pure _) fun _ => alone_ofExcept _
    · exact alone_bind hconfigured fun _ => alone_ofExcept _
  exact alone_bind hresolve fun _ => alone_pure _

end LogLevel

namespace Options

theorem alone_baseUrlOf (given : Option Text) : (baseUrlOf given).Alone := by
  unfold baseUrlOf
  split
  · exact alone_pure _
  · exact alone_bind (asks_setVariable? _).alone fun _ => Settings.alone_text _ _

theorem alone_headlessOf (given : Option Bool) : (headlessOf given).Alone := by
  unfold headlessOf
  split
  · exact alone_pure _
  refine alone_bind (Settings.alone_value? _) fun v => ?_
  split
  · exact alone_pure _
  refine alone_bind (asks_environment? _).alone fun value => ?_
  split <;> exact alone_pure _

theorem alone_timeoutOf (given : Option Int) : (timeoutOf given).Alone := by
  unfold timeoutOf
  split
  · exact alone_pure _
  · exact alone_bind (Settings.alone_int _ _) fun _ => alone_pure _

theorem alone_credentialsOf : credentialsOf.Alone := by
  refine alone_bind (Settings.alone_text _ _) fun _ => ?_
  refine alone_bind (Settings.alone_text _ _) fun _ => ?_
  refine alone_bind (Settings.alone_text _ _) fun _ => ?_
  refine alone_bind (Settings.alone_text _ _) fun _ => ?_
  exact alone_bind (Settings.alone_text _ _) fun _ => alone_pure _

theorem alone_screenshotsOf (given : Option Text) : (screenshotsOf given).Alone := by
  unfold screenshotsOf
  extract_lets found
  have hfound : ∀ v, (found v).Alone := by
    rintro (_ | v)
    · exact alone_pure _
    unfold found
    dsimp only
    split
    · refine alone_bind (alone_ofExcept _) fun t => ?_
      exact alone_bind (Layout.asks_screenshotsDirectory _).alone fun _ => alone_pure _
    · exact alone_pure _
  split
  · exact alone_bind (alone_pure _) hfound
  · exact alone_bind (Settings.alone_value? _) hfound

theorem alone_load (given : Given) : (load given).Alone := by
  refine alone_bind (alone_baseUrlOf _) fun _ => alone_bind (alone_headlessOf _) fun _ => ?_
  refine alone_bind (alone_timeoutOf _) fun _ => ?_
  refine alone_bind (alone_bind (Settings.alone_table _) fun _ => alone_pure _) fun _ => ?_
  refine alone_bind alone_credentialsOf fun _ => alone_bind (alone_screenshotsOf _) fun _ => ?_
  refine alone_bind (Settings.alone_int _ _) fun _ => ?_
  refine alone_bind (Settings.alone_int _ _) fun _ => ?_
  refine alone_bind (Settings.alone_int _ _) fun _ => ?_
  refine alone_bind (Settings.alone_int _ _) fun _ => ?_
  exact alone_bind (Settings.alone_text _ _) fun _ => alone_pure _

end Options

/-! ## The project -/

namespace Project

theorem alone_writeDocument (p : Path) (v : Value) : (writeDocument p v).Alone := by
  unfold writeDocument
  split
  · exact alone_writeText _ _
  · exact alone_fail _

theorem alone_load : load.Alone := by
  refine alone_bind Layout.asks_featuresFile.alone fun p => ?_
  refine alone_bind (alone_pathExists p) fun isThere => ?_
  split
  · refine alone_bind (alone_attempt (alone_readText p)) fun result => ?_
    split
    · exact alone_fail _
    · exact alone_bind (alone_ofExcept _) fun _ => alone_ofExcept _
  · exact alone_fail _

theorem alone_feature (id : Value) : (feature id).Alone :=
  alone_bind alone_load fun _ => alone_bind (alone_ofExcept _) fun _ => alone_ofExcept _

theorem alone_allFeatures : allFeatures.Alone :=
  alone_bind alone_load fun _ => alone_ofExcept _

theorem alone_save (project : Project) : project.save.Alone := by
  refine alone_bind Layout.asks_now.alone fun _ => alone_bind (alone_ofExcept _) fun _ => ?_
  refine alone_bind Layout.asks_featuresFile.alone fun p => ?_
  exact alone_bind (alone_writeDocument p _) fun _ => alone_pure _

theorem alone_markDone (id notes : Value) : (markDone id notes).Alone := by
  refine alone_bind alone_load fun _ => alone_bind (alone_ofExcept _) fun _ => ?_
  refine alone_bind Layout.asks_now.alone fun _ => alone_bind (alone_ofExcept _) fun _ => ?_
  exact alone_bind (alone_save _) fun _ => alone_pure _

end Project

/-! ## Answers -/

namespace CommandLine

theorem alone_emit (e : Envelope) : (emit e).Alone := by
  unfold emit
  split
  · exact alone_bind (alone_print _) fun _ => alone_pure _
  · exact alone_fail _

theorem alone_writeRun (runId command : Text) (options : Options) (result : Value) :
    (writeRun runId command options result).Alone := by
  refine alone_bind Layout.asks_runsDirectory.alone fun _ => ?_
  refine alone_bind (alone_ensureDirectory _) fun _ => ?_
  refine alone_bind Layout.asks_now.alone fun _ => ?_
  exact alone_bind (Project.alone_writeDocument _ _) fun _ => alone_pure _

theorem alone_acceptIfPassed (report : FeatureReport) (id : Text) (notes : Option Text) :
    (acceptIfPassed report id notes).Alone := by
  unfold acceptIfPassed
  split
  · exact alone_bind (Project.alone_markDone _ _) fun _ => alone_pure _
  · exact alone_pure _

end CommandLine

end Acceptance
