import Acceptance.Machine.Basic

/-! # Playbooks

Other programs that answer by rules: a command takes the first rule that fits it and is not used up.
-/

namespace Acceptance

namespace Playbook

/-- A rule for the commands that start with `start`. -/
structure Rule (α : Type) where
  start : List Text
  /-- How often the rule is taken; `none` is always. -/
  times : Option Nat
  answer : α
  /-- Programs that are on the search path afterwards. -/
  installs : List Text
  /-- The number of the argument that names a file which is there afterwards. -/
  touches : Option Nat

variable {α : Type}

def Rule.fits (argv : List Text) (r : Rule α) : Bool :=
  r.times ≠ some 0 && r.start.isPrefixOf argv

/-- The rule that a command takes. -/
def rule? (rules : List (Rule α)) (argv : List Text) : Option (Rule α) :=
  rules.find? (Rule.fits argv)

/-- The rules after a command has taken one. -/
def use (argv : List Text) : List (Rule α) → List (Rule α)
  | [] => []
  | r :: rest =>
    if r.fits argv then { r with times := r.times.map (· - 1) } :: rest else r :: use argv rest

/-- The rules after the commands. -/
def after (rules : List (Rule α)) (commands : List (List Text)) : List (Rule α) :=
  commands.foldl (fun rules argv => use argv rules) rules

/-- The content of a file that a rule leaves behind. -/
def touched : List UInt8 := [0x50, 0x4E, 0x47]

/-- The files with a file that is left behind at a path, and the directories above it; where
something is in the way it is not made. -/
def leave (files : FileTree) (directory : Place) (path : Path) : FileTree :=
  match files.ensure directory path.parent with
  | (files, some _) => files
  | (files, none) =>
    match files.write directory path touched with
    | .ok files => files
    | .error _ => files

/-- What a rule leaves behind. -/
def Rule.effect (r : Rule α) (argv : List Text) (directory : Place) (s : Surroundings) :
    Surroundings :=
  let installed := s.installed ++ r.installs
  match r.touches.bind fun i => argv[i]? with
  | none => { s with installed }
  | some name => { files := leave s.files directory (Path.ofText name), installed }

/-- The answer to a command after others; without a rule it is `standard`. -/
def reply (rules : List (Rule α)) (standard : α) (before : List (List Text)) (argv : List Text) :
    Reply α :=
  match rule? (after rules before) argv with
  | some r => { answer := r.answer, effect := r.effect argv }
  | none => { answer := standard, effect := fun _ s => s }

/-- The programs that were started, by their argument vectors. -/
def programs (history : History) : List (List Text) :=
  history.filterMap fun
    | .launch _ l => some l.argv
    | .check argv _ => some argv
    | .browse .. => none

/-- The commands that the browser was given. -/
def commands (history : History) : List (List Text) :=
  history.filterMap fun
    | .browse _ call => some call.args
    | _ => none

/-- A program that succeeds at once and says nothing. -/
def quietChild : Child :=
  { duration := some 0, code := 0, output := [], errors := [], holdsOutput := false
    escapesKill := false }

/-- The result of a child process as a program that was waited for. -/
def finished : Except LaunchProblem Child → Finished
  | .ok child => { code := child.code, output := child.output, errors := child.errors }
  | .error _ => { code := 0, output := [], errors := [] }

/-- Programs and browser by rules, which count from the call number `start` on. -/
def outside (programRules : List (Rule (Except LaunchProblem Child)))
    (browserRules : List (Rule BrowserReply)) (start : Nat) : Outside where
  launch history l := reply programRules (.ok quietChild) (programs (history.drop start)) l.argv
  check history argv :=
    let r := reply programRules (.ok quietChild) (programs (history.drop start)) argv
    { answer := finished r.answer, effect := r.effect }
  browse history call :=
    reply browserRules (.result { success := true, code := some 0 }) (commands (history.drop start))
      call.args

end Playbook

end Acceptance
