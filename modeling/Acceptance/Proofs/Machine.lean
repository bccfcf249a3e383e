import Acceptance.Machine.ChildProcess
import Acceptance.Proofs.Files
import Acceptance.Proofs.Task

/-! # What tasks leave alone

Between two calls of other programs little of the machine changes, and a program that is started
leaves one call behind.
-/

namespace Acceptance

namespace Machine

/-- A machine with nothing on it but these programs. -/
def bare (installed : List Text) : Machine where
  files := []
  installed := installed
  directory := []
  environment := []
  homes := []
  toolDirectory := "/bin"
  time := ⟨1, by decide⟩
  elapsed := 0
  calls := []
  echoed := []
  printed := []
  session := .closed
  settings := none
  runs := 0

/-! ## Between calls -/

/-- The second machine is the first but for the clock, the error output, the session and
directories that are new. -/
structure Quiet (m m' : Machine) : Prop where
  setting : m'.setting = m.setting
  files : m.files.Grown m'.files
  installed : m'.installed = m.installed
  calls : m'.calls = m.calls
  printed : m'.printed = m.printed
  settings : m'.settings = m.settings
  runs : m'.runs = m.runs

theorem Quiet.rfl {m : Machine} : m.Quiet m where
  setting := Eq.refl _
  files := refl_of FileTree.Grown _
  installed := Eq.refl _
  calls := Eq.refl _
  printed := Eq.refl _
  settings := Eq.refl _
  runs := Eq.refl _

instance : IsPreorder Machine Quiet where
  refl _ := Quiet.rfl
  trans _ _ _ h k :=
    { setting := k.setting.trans h.setting
      files := trans_of FileTree.Grown h.files k.files
      installed := k.installed.trans h.installed
      calls := k.calls.trans h.calls
      printed := k.printed.trans h.printed
      settings := k.settings.trans h.settings
      runs := k.runs.trans h.runs }

/-! ## Calls -/

/-- What another program may do to the surroundings when it is called. -/
inductive Does (outside : Outside) : (Place → Surroundings → Surroundings) → Prop where
  | launch (history : History) (l : Launch) : Does outside (outside.launch history l).effect
  | check (history : History) (argv : List Text) : Does outside (outside.check history argv).effect
  | browse (history : History) (call : BrowserCall) :
    Does outside (outside.browse history call).effect

/-- The machine once a call is written down and has had its effect. -/
def after (m : Machine) (call : Call) (effect : Place → Surroundings → Surroundings) : Machine :=
  { m with toSurroundings := effect m.directory m.toSurroundings, calls := m.calls ++ [call] }

/-- The call starts a program with these arguments. -/
def Launches (argv : List Text) (call : Call) : Prop :=
  ∃ time l, call = .launch time l ∧ l.argv = argv

section

variable (m : Machine) (call : Call) (effect : Place → Surroundings → Surroundings)

@[simp] theorem after_setting : (m.after call effect).setting = m.setting := rfl

@[simp] theorem after_calls : (m.after call effect).calls = m.calls ++ [call] := rfl

@[simp] theorem after_toSurroundings :
    (m.after call effect).toSurroundings = effect m.directory m.toSurroundings := rfl

@[simp] theorem after_printed : (m.after call effect).printed = m.printed := rfl

@[simp] theorem after_settings : (m.after call effect).settings = m.settings := rfl

@[simp] theorem after_runs : (m.after call effect).runs = m.runs := rfl

end

end Machine

namespace Task

open Machine (Quiet)

variable {outside : Outside}

/-! ## Quiet tasks -/

theorem quiet_checkDuration (milliseconds : Int) :
    (checkDuration milliseconds).Leaves outside Quiet := by
  unfold checkDuration
  split
  · exact leaves_fail _
  · exact leaves_pure _

theorem quiet_startClock : startClock.Leaves outside Quiet :=
  leaves_change fun _ => { Quiet.rfl with }

theorem quiet_passTime (milliseconds : Nat) : (passTime milliseconds).Leaves outside Quiet :=
  leaves_change fun _ => { Quiet.rfl with }

theorem quiet_pause (milliseconds : Int) : (pause milliseconds).Leaves outside Quiet :=
  leaves_bind (quiet_checkDuration _) fun _ => quiet_passTime _

theorem pause_of_lt {milliseconds : Int} (h : milliseconds.natAbs < longestDuration)
    (m : Machine) :
    (pause milliseconds).run outside m =
      (.ok (), { m with elapsed := m.elapsed + milliseconds.toNat }) := by
  unfold pause checkDuration
  rw [if_neg (by omega)]
  rfl

theorem pause_of_le {milliseconds : Int} (h : longestDuration ≤ milliseconds.natAbs)
    (m : Machine) : (pause milliseconds).run outside m = (.error (.excess .duration), m) := by
  unfold pause checkDuration
  rw [if_pos h]
  rfl

theorem pause_eq_ok {milliseconds : Int} {m m' : Machine}
    (h : (pause milliseconds).run outside m = (.ok (), m')) :
    m' = { m with elapsed := m.elapsed + milliseconds.toNat } := by
  rcases Nat.lt_or_ge milliseconds.natAbs longestDuration with hlt | hle
  · rw [pause_of_lt hlt] at h
    exact (Prod.mk.inj h).2.symm
  · simp [pause_of_le hle] at h

theorem quiet_echo (t : Text) : (echo t).Leaves outside Quiet :=
  leaves_change fun _ => { Quiet.rfl with }

theorem quiet_ensureDirectory (p : Path) : (ensureDirectory p).Leaves outside Quiet := by
  intro m
  unfold ensureDirectory checkPath
  split
  · exact Quiet.rfl
  · have hfiles := FileTree.grown_ensure m.files m.directory p
    simp only [run_pure_bind, run_read_bind, run_change_bind]
    split <;> exact { Quiet.rfl with files := hfiles }

/-! ## Calls -/

variable {m : Machine}

@[simp] theorem run_launch_bind {α : Type} (l : Launch)
    (f : Except LaunchProblem Child → Task α) :
    (launch l >>= f).run outside m =
      (f (outside.launch m.calls l).answer).run outside
        (m.after (.launch m.elapsed l) (outside.launch m.calls l).effect) := rfl

@[simp] theorem run_check_bind {α : Type} (argv : List Text) (directory : Option Text)
    (f : Finished → Task α) :
    (check argv directory >>= f).run outside m =
      (f (outside.check m.calls argv).answer).run outside
        (m.after (.check argv directory) (outside.check m.calls argv).effect) := rfl

@[simp] theorem run_browse_bind {α : Type} (call : BrowserCall) (f : BrowserReply → Task α) :
    (browse call >>= f).run outside m =
      (f (outside.browse m.calls call).answer).run outside
        (m.after (.browse m.elapsed call) (outside.browse m.calls call).effect) := rfl

end Task

namespace ChildProcess

open Machine (Quiet)

variable {outside : Outside} {m : Machine}

theorem quiet_watch (argv : List Text) (silent : Bool) (timeout : Int) (child : Child) :
    (watch argv silent timeout child).Leaves outside Quiet := by
  refine Task.leaves_bind (Task.quiet_checkDuration _) fun _ => ?_
  refine Task.leaves_bind (Task.quiet_passTime _) fun _ => ?_
  dsimp only
  split
  · refine Task.leaves_bind (Task.quiet_passTime _) fun _ => ?_
    split
    · exact Task.leaves_bind (Task.quiet_echo _) fun _ => Task.leaves_pure _
    · exact Task.leaves_pure _
  · split
    · exact Task.leaves_bind (Task.quiet_echo _) fun _ => Task.leaves_pure _
    · exact Task.leaves_pure _

/-- How a command is started from a machine. -/
def launchOf (m : Machine) (argv : List Text) (silent : Bool) (environment : Environment) :
    Launch :=
  { argv, silent, environment := newVariables m.environment environment }

/-- The machine once the command is started. -/
def started (outside : Outside) (m : Machine) (l : Launch) : Machine :=
  m.after (.launch m.elapsed l) (outside.launch m.calls l).effect

/-- A command with a zero character in it is refused, and nothing is started. -/
theorem run_of_hasZero {argv : List Text} (hzero : Task.hasZero argv = true) (silent : Bool)
    (timeout : Int) (environment : Environment) :
    (run argv silent timeout environment).run outside m =
      (.error (.invalid .zeroCharacter), m) := by
  cases argv with
  | nil => simp [Task.hasZero] at hzero
  | cons tool args => simp [run, hzero]

/-- Any other command is started, and then there are no more calls. -/
theorem quiet_run (outside : Outside) (m : Machine) {argv : List Text} (hargv : argv ≠ []) (hzero : Task.hasZero argv = false)
    (silent : Bool) (timeout : Int) (environment : Environment) :
    (started outside m (launchOf m argv silent environment)).Quiet
      ((run argv silent timeout environment).run outside m).2 := by
  cases argv with
  | nil => exact absurd rfl hargv
  | cons tool args =>
    simp only [run, hzero, Bool.false_eq_true, if_false, Task.run_read_bind,
      Task.run_launch_bind]
    split
    · exact Quiet.rfl
    · exact Quiet.rfl
    · exact quiet_watch _ _ _ _ _

theorem succeeds_watch (argv : List Text) (silent : Bool) {timeout : Int} (child : Child)
    (htimeout : timeout.natAbs < longestDuration) :
    (watch argv silent timeout child).Succeeds outside := by
  have hcheck : Task.checkDuration timeout = pure () := if_neg (Nat.not_le.mpr htimeout)
  unfold watch
  rw [hcheck]
  refine Task.succeeds_bind (Task.succeeds_pure _) fun _ => ?_
  refine Task.succeeds_bind (Task.succeeds_change _) fun _ => ?_
  dsimp only
  split
  · refine Task.succeeds_bind (Task.succeeds_change _) fun _ => ?_
    split
    · exact Task.succeeds_bind (Task.succeeds_change _) fun _ => Task.succeeds_pure _
    · exact Task.succeeds_pure _
  · split
    · exact Task.succeeds_bind (Task.succeeds_change _) fun _ => Task.succeeds_pure _
    · exact Task.succeeds_pure _

/-- A command that has no zero character and a proper time limit gives no fault. -/
theorem succeeds_run (outside : Outside) {argv : List Text} (hargv : argv ≠ []) (hzero : Task.hasZero argv = false)
    {timeout : Int} (htimeout : timeout.natAbs < longestDuration) (silent : Bool)
    (environment : Environment) : (run argv silent timeout environment).Succeeds outside := by
  intro m
  cases argv with
  | nil => exact absurd rfl hargv
  | cons tool args =>
    simp only [run, hzero, Bool.false_eq_true, if_false, Task.run_read_bind,
      Task.run_launch_bind]
    split
    · exact ⟨_, rfl⟩
    · exact ⟨_, rfl⟩
    · exact succeeds_watch _ _ _ htimeout _

end ChildProcess

end Acceptance
