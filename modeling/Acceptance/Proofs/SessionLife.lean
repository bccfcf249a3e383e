import Acceptance.Machine.Playbook
import Acceptance.Proofs.Session

/-! # The life of a session

One session is opened, closed and used in a scope any number of times, in any order, whatever the
browser makes of it and whatever comes of the calls before. Closing never fails. A session that
opens has settled once. A scope is closed by its last command and passes on the fault of its opening
or of its body, and no other. -/

namespace Acceptance

variable {g : Gateway} {outside : Outside} {m m' : Machine}

/-! ## Commands right after one another -/

/-- Each command is given to the machine that the one before it left, with nothing in between. -/
inductive Dialogue (g : Gateway) (outside : Outside) : Machine → List Exchange → Machine → Prop where
  | silent (m : Machine) : Dialogue g outside m [] m
  | said {m m₁ m' : Machine} {call answer rest} :
    (g.give call).run outside m = (answer, m₁) → Dialogue g outside m₁ rest m' →
    Dialogue g outside m (⟨call, answer⟩ :: rest) m'

/-! ## Faults of the browser -/

/-- That a session did not open is found by the session; neither a program nor the browser says so. -/
def Fault.IsOpenFailure : Fault → Prop
  | .openFailed .. => True
  | _ => False

theorem ChildProcess.run_not_openFailure (argv : List Text) (silent : Bool) (timeout : Int)
    (environment : Environment) :
    (run argv silent timeout environment).Meets outside (fun _ => True) (fun _ => True)
      (¬ ·.IsOpenFailure) := by
  have hwatch : ∀ child, (watch argv silent timeout child).Meets outside (fun _ => True)
      (fun _ => True) (¬ ·.IsOpenFailure) := by
    intro child m _
    rcases Nat.lt_or_ge timeout.natAbs longestDuration with htimeout | htimeout
    · have hsucceeds : (watch argv silent timeout child).Succeeds outside :=
        succeeds_watch argv silent child htimeout
      obtain ⟨r, hr⟩ := hsucceeds m
      simp [hr, Task.Comes]
    · have hcheck : Task.checkDuration timeout = Task.fail (.excess .duration) := if_pos htimeout
      simp [watch, hcheck, Task.Comes, Fault.IsOpenFailure]
  intro m _
  cases argv with
  | nil => simp [run, Task.Comes, Fault.IsOpenFailure]
  | cons tool args =>
    cases hzero : Task.hasZero (tool :: args) with
    | true => simp [run_of_hasZero hzero, Task.Comes, Fault.IsOpenFailure]
    | false =>
      simp only [run, hzero, Bool.false_eq_true, if_false, Task.run_read_bind,
        Task.run_launch_bind]
      split
      · simp [Task.Comes]
      · simp [Task.Comes]
      · exact hwatch _ _ trivial

theorem Gateway.give_not_openFailure {call : BrowserCall} {fault : Fault}
    (h : (g.give call).run outside m = (.error fault, m')) : ¬ fault.IsOpenFailure := by
  cases g with
  | direct binary =>
    simp only [give, run, runWith, Task.run_browse_bind] at h
    split at h <;> simp at h
    rw [← h.1]
    simp [Fault.IsOpenFailure]
  | program binary timeout environment =>
    exact ((ChildProcess.run_not_openFailure (binary :: call.args) call.silent
      (limit timeout call.timeout) environment).error trivial h).1

namespace Session

variable {s : Session} {url : Text} {headless : Bool}

/-! ## Opening -/

theorem openResult_dialogue (s : Session) (url : Text) (headless : Bool) (outside : Outside)
    (m : Machine) :
    ∃ es, Opening s url headless es ((s.openResult url headless).run outside m).1 ∧
      Dialogue s.gateway outside m es ((s.openResult url headless).run outside m).2 := by
  unfold openResult
  rw [tryOpen_eq, tryClose_eq, Task.run_bind]
  rcases hfirst : (s.gateway.give (s.openCall url headless)).run outside m with ⟨fault | r, m₁⟩
  · exact ⟨_, .breaks fault, .said hfirst (.silent _)⟩
  cases hr : r.success with
  | true => simpa [hr] using ⟨_, .succeeds hr, .said hfirst (.silent _)⟩
  | false =>
    simp only [hr, Bool.false_eq_true, if_false, Task.run_bind]
    rcases hsecond : (s.gateway.give closeCall).run outside m₁ with ⟨fault | closed, m₂⟩
    · exact ⟨_, .stuck fault hr, .said hfirst (.said hsecond (.silent _))⟩
    · exact ⟨_, .again closed _ hr, .said hfirst (.said hsecond (.said rfl (.silent _)))⟩

/-- How opening a session goes, by its commands and the answer to the last of them. The page
settles after a command that succeeded, and after no other. -/
inductive Opens (s : Session) (url : Text) (headless : Bool) (outside : Outside) :
    Machine → Except Fault CommandResult → Machine → Prop where
  | settled {m last : Machine} {es r} : Opening s url headless es (.ok r) → r.success = true →
    Dialogue s.gateway outside { m with session := .opening } es last →
    Opens s url headless outside m (.ok r)
      { last with session := .open, elapsed := last.elapsed + s.settle.toNat }
  | endless {m last : Machine} {es r} : Opening s url headless es (.ok r) → r.success = true →
    Dialogue s.gateway outside { m with session := .opening } es last →
    Opens s url headless outside m (.error (.excess .duration)) { last with session := .open }
  | refused {m last : Machine} {es r} : Opening s url headless es (.ok r) → r.success = false →
    Dialogue s.gateway outside { m with session := .opening } es last →
    Opens s url headless outside m (.error (.openFailed url r.error)) { last with session := .closed }
  | broken {m last : Machine} {es fault} : Opening s url headless es (.error fault) →
    Dialogue s.gateway outside { m with session := .opening } es last → ¬ fault.IsOpenFailure →
    Opens s url headless outside m (.error fault) last

theorem opening_not_openFailure {es : List Exchange} {fault : Fault}
    (h : Opening s url headless es (.error fault)) (hd : Dialogue s.gateway outside m es m') :
    ¬ fault.IsOpenFailure := by
  generalize hanswer : Except.error fault = answer at h
  cases h with
  | succeeds => simp at hanswer
  | breaks fault' =>
    cases hd with
    | said hgive => exact Except.error.inj hanswer ▸ Gateway.give_not_openFailure hgive
  | stuck fault' =>
    cases hd with
    | said _ hrest =>
      cases hrest with
      | said hgive => exact Except.error.inj hanswer ▸ Gateway.give_not_openFailure hgive
  | again closed answer' =>
    subst hanswer
    cases hd with
    | said _ hrest =>
      cases hrest with
      | said _ hlast =>
        cases hlast with
        | said hgive => exact Gateway.give_not_openFailure hgive

theorem opens_open (s : Session) (url : Text) (headless : Bool) (outside : Outside) (m : Machine) :
    Opens s url headless outside m ((s.open url headless).run outside m).1
      ((s.open url headless).run outside m).2 := by
  obtain ⟨es, hopening, hsaid⟩ :=
    openResult_dialogue s url headless outside { m with session := .opening }
  unfold «open»
  simp only [enter, Task.run_change_bind]
  rw [Task.run_bind]
  rcases hresult : (s.openResult url headless).run outside { m with session := .opening }
    with ⟨fault | r, last⟩
  · rw [hresult] at hopening hsaid
    exact .broken hopening hsaid (opening_not_openFailure hopening hsaid)
  rw [hresult] at hopening hsaid
  cases hr : r.success with
  | false =>
    simp only [hr, Bool.false_eq_true, if_false, Task.run_change_bind, Task.run_fail]
    exact .refused hopening hr hsaid
  | true =>
    simp only [hr, if_true, Task.run_change_bind]
    rcases Nat.lt_or_ge s.settle.natAbs longestDuration with hsettle | hsettle
    · have hpaused : (Task.pause s.settle).run outside { last with session := .open } = _ :=
        Task.pause_of_lt hsettle _
      rw [Task.run_bind_ok hpaused]
      have hopens : Opens s url headless outside m (.ok r)
          { last with session := .open, elapsed := last.elapsed + s.settle.toNat } :=
        .settled hopening hr hsaid
      exact hopens
    · have hopens : Opens s url headless outside m (.error (.excess .duration))
          { last with session := .open } := .endless hopening hr hsaid
      rw [Task.run_bind_error (Task.pause_of_le hsettle _)]
      exact hopens

/-- The commands of opening an address that end with an answer: the address is opened once, or a
second time after the session was closed. -/
theorem Opening.calls {es : List Exchange} {r : CommandResult}
    (h : Opening s url headless es (.ok r)) :
    es.map (·.call) = [s.openCall url headless] ∨
      es.map (·.call) = [s.openCall url headless, closeCall, s.openCall url headless] := by
  generalize hanswer : Except.ok r = answer at h
  cases h with
  | succeeds => exact .inl rfl
  | breaks => simp at hanswer
  | stuck => simp at hanswer
  | again => exact .inr rfl

/-! ## Calls of a session -/

/-- A call of a session; what is done in a scope is a task of its own. -/
inductive Use where
  | opens (url : Text) (headless : Bool)
  | closes
  | scope (url : Text) (headless : Bool) (body : Task Unit)

def Use.task (s : Session) : Use → Task Unit
  | .opens url headless => do
    let _ ← s.open url headless
    pure ()
  | .closes => s.close
  | .scope url headless body => s.opened url headless body

/-- A call that was made, the machine before and after it, and what came of it. -/
structure Episode where
  use : Use
  before : Machine
  result : Except Fault Unit
  after : Machine

/-- Calls of a session in a row, each made whatever came of those before. Between two of them
anything may happen that is no call of the session. -/
inductive Life (s : Session) (outside : Outside) : Machine → List Episode → Machine → Prop where
  | rests {m m' : Machine} : m'.session = m.session → Life s outside m [] m'
  | goesOn {m m₁ m₂ m' : Machine} {use result rest} : m₁.session = m.session →
    (use.task s).run outside m₁ = (result, m₂) → Life s outside m₂ rest m' →
    Life s outside m (⟨use, m₁, result, m₂⟩ :: rest) m'

theorem Life.run_of_mem {episodes : List Episode} (h : Life s outside m episodes m') :
    ∀ e ∈ episodes, (e.use.task s).run outside e.before = (e.result, e.after) := by
  induction h with
  | rests => simp
  | goesOn _ hrun _ ih =>
    rw [List.forall_mem_cons]
    exact ⟨hrun, ih⟩

/-- The state of the session is the one that its last call left. -/
theorem Life.session_eq {episodes : List Episode} (h : Life s outside m episodes m') :
    m'.session = (episodes.getLast?.elim m fun e => e.after).session := by
  induction h with
  | rests hkept => exact hkept
  | @goesOn m m₁ m₂ m' use result rest _ _ _ ih =>
    rw [ih, List.getLast?_cons]
    cases rest.getLast? <;> rfl

/-! ## What each call keeps to -/

theorem close_dialogue (s : Session) (outside : Outside) (m : Machine) :
    ∃ answer last, Dialogue s.gateway outside m [⟨closeCall, answer⟩] last ∧
      s.close.run outside m = (.ok (), { last with session := .closed }) :=
  ⟨_, _, .said rfl (.silent _), rfl⟩

/-- How a scope goes: its body runs if the session opens, and in any case the session is closed
then, by one command. -/
inductive Scope (s : Session) (url : Text) (headless : Bool) (outside : Outside)
    (body : Task Unit) : Machine → Except Fault Unit → Machine → Prop where
  | ran {m opened done last : Machine} {r result answer} :
    (s.open url headless).run outside m = (.ok r, opened) →
    body.run outside opened = (result, done) →
    Dialogue s.gateway outside done [⟨closeCall, answer⟩] last →
    Scope s url headless outside body m result { last with session := .closed }
  | left {m unopened last : Machine} {fault answer} :
    (s.open url headless).run outside m = (.error fault, unopened) →
    Dialogue s.gateway outside unopened [⟨closeCall, answer⟩] last →
    Scope s url headless outside body m (.error fault) { last with session := .closed }

theorem Scope.closed {body : Task Unit} {result : Except Fault Unit}
    (h : Scope s url headless outside body m result m') : m'.session = .closed := by
  cases h <;> rfl

theorem scope_opened (s : Session) (url : Text) (headless : Bool) (outside : Outside)
    (body : Task Unit) (m : Machine) :
    Scope s url headless outside body m ((s.opened url headless body).run outside m).1
      ((s.opened url headless body).run outside m).2 := by
  rcases hopen : (s.open url headless).run outside m with ⟨fault | r, m₁⟩
  · obtain ⟨answer, last, hsaid, hclose⟩ := close_dialogue s outside m₁
    rw [opened_of_error body hopen, hclose]
    exact .left hopen hsaid
  · rcases hbody : body.run outside m₁ with ⟨result, m₂⟩
    obtain ⟨answer, last, hsaid, hclose⟩ := close_dialogue s outside m₂
    rw [opened_of_ok body hopen, hbody, hclose]
    exact .ran hopen hbody hsaid

/-- What a call of the session keeps to. -/
def Use.Keeps (s : Session) (outside : Outside) :
    Use → Machine → Except Fault Unit → Machine → Prop
  | .opens url headless, m, result, m' =>
    (result = .ok () → ∃ es r last, Opening s url headless es (.ok r) ∧ r.success = true ∧
      (es.map (·.call) = [s.openCall url headless] ∨
        es.map (·.call) = [s.openCall url headless, closeCall, s.openCall url headless]) ∧
      Dialogue s.gateway outside { m with session := .opening } es last ∧
      m' = { last with session := .open, elapsed := last.elapsed + s.settle.toNat }) ∧
    ∀ place text, result = .error (.openFailed place text) →
      ∃ es r last, Opening s url headless es (.ok r) ∧ r.success = false ∧
        Dialogue s.gateway outside { m with session := .opening } es last ∧
        m' = { last with session := .closed }
  | .closes, m, result, m' => result = .ok () ∧ m'.session = .closed ∧
    ∃ answer last, Dialogue s.gateway outside m [⟨closeCall, answer⟩] last ∧
      m' = { last with session := .closed }
  | .scope url headless body, m, result, m' =>
    Scope s url headless outside body m result m' ∧ m'.session = .closed

theorem keeps_opens (s : Session) (url : Text) (headless : Bool) (outside : Outside)
    (m : Machine) :
    (Use.opens url headless).Keeps s outside m (((Use.opens url headless).task s).run outside m).1
      (((Use.opens url headless).task s).run outside m).2 := by
  have hopens := opens_open s url headless outside m
  rcases hrun : (s.open url headless).run outside m with ⟨result, after⟩
  rw [hrun] at hopens
  have htask : ((Use.opens url headless).task s).run outside m =
      (result.map fun _ => (), after) := by
    unfold Use.task
    rw [Task.run_bind, hrun]
    cases result <;> rfl
  rw [htask]
  cases hopens with
  | settled hopening hr hsaid =>
    exact ⟨fun _ => ⟨_, _, _, hopening, hr, hopening.calls, hsaid, rfl⟩, by simp [Except.map]⟩
  | endless => simp [Use.Keeps, Except.map]
  | refused hopening hr hsaid =>
    exact ⟨by simp [Except.map], fun _ _ _ => ⟨_, _, _, hopening, hr, hsaid, rfl⟩⟩
  | broken _ _ hother =>
    refine ⟨by simp [Except.map], ?_⟩
    rintro place text hfault
    rw [Except.error.inj hfault] at hother
    exact absurd trivial hother

theorem keeps_closes (s : Session) (outside : Outside) (m : Machine) :
    Use.closes.Keeps s outside m ((Use.closes.task s).run outside m).1
      ((Use.closes.task s).run outside m).2 := by
  obtain ⟨answer, last, hsaid, hclose⟩ := close_dialogue s outside m
  have htask : (Use.closes.task s).run outside m = _ := hclose
  rw [htask]
  exact ⟨rfl, rfl, answer, last, hsaid, rfl⟩

theorem keeps_scope (s : Session) (url : Text) (headless : Bool) (body : Task Unit)
    (outside : Outside) (m : Machine) :
    (Use.scope url headless body).Keeps s outside m
      (((Use.scope url headless body).task s).run outside m).1
      (((Use.scope url headless body).task s).run outside m).2 := by
  have hscope := scope_opened s url headless outside body m
  exact ⟨hscope, hscope.closed⟩

theorem keeps_task (use : Use) (s : Session) (outside : Outside) (m : Machine) :
    use.Keeps s outside m ((use.task s).run outside m).1 ((use.task s).run outside m).2 := by
  cases use with
  | opens url headless => exact keeps_opens s url headless outside m
  | closes => exact keeps_closes s outside m
  | scope url headless body => exact keeps_scope s url headless body outside m

/-- However a session is used: closing it never fails and leaves it closed. When it opens, one or two
commands opened it, and the page settled once, after the last of them; when it does not open, it is
closed and nothing has settled. A scope runs its body if the session opened, closes the session by
one command that is its last, and ends as its opening or its body did. -/
theorem Life.keeps {episodes : List Episode} (h : Life s outside m episodes m') :
    (∀ e ∈ episodes, e.use.Keeps s outside e.before e.result e.after) ∧
      m'.session = (episodes.getLast?.elim m fun e => e.after).session := by
  refine ⟨?_, h.session_eq⟩
  intro e he
  have hkeeps := keeps_task e.use s outside e.before
  rwa [h.run_of_mem e he] at hkeeps

/-- A browser that breaks off when the session is closed. -/
def jammed : Outside :=
  Playbook.outside []
    [{ start := ["close"], times := none, answer := .broken "gone", installs := [], touches := none }]
    0

/-- A scope whose body gives a fault, and closing breaks off, too: the fault of the body leaves it. -/
theorem Life.keeps_jammed :
    ∃ e after, Life { gateway := .direct "agent-browser" } jammed (Machine.bare ["agent-browser"]) [e]
      after ∧ e.use = .scope "http://a.test" true (Task.fail (.broken "lost")) ∧
      e.result = .error (.broken "lost") ∧ e.after.session = .closed := by
  let s : Session := { gateway := .direct "agent-browser" }
  have hsettle : (2000 : Int).natAbs < longestDuration := by decide +kernel
  have hopen : (s.open "http://a.test" true).run jammed (Machine.bare ["agent-browser"]) = _ :=
    open_of_success rfl rfl hsettle
  have hlife : Life s jammed (Machine.bare ["agent-browser"])
      [⟨.scope "http://a.test" true (Task.fail (.broken "lost")), _, _, _⟩] _ :=
    .goesOn rfl (opened_of_ok _ hopen) (.rests rfl)
  obtain ⟨hkeeps, -⟩ := Life.keeps hlife
  obtain ⟨-, hclosed⟩ := hkeeps _ (List.mem_singleton.mpr rfl)
  exact ⟨_, _, hlife, rfl, rfl, hclosed⟩

end Session

end Acceptance
