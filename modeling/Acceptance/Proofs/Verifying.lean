import Acceptance.Browser.Performer
import Acceptance.Proofs.JsonDocument
import Acceptance.Proofs.SessionLife

/-! # Verifying

A verify step asks the browser for a snapshot, for the text of the page and for the address, in this
order, up to the first answer that shows the text. A command that failed shows nothing. An answer
that cannot be read stops the step with a fault; of the first two only a snapshot that is nested too
deep is such an answer. -/

namespace Acceptance

namespace Performer

/-! ## Sources -/

/-- A command, and whether an output of it shows what is looked for. -/
structure Source where
  call : BrowserCall
  shows : Text → Except Fault Bool

/-- A source that was asked, and the answer. -/
structure Inquiry where
  source : Source
  answer : Except Fault CommandResult

namespace Inquiry

def exchange (q : Inquiry) : Exchange := ⟨q.source.call, q.answer⟩

/-- Does the answer show it? A command that failed shows nothing. -/
def evidence (q : Inquiry) : Except Fault Bool :=
  q.answer.bind fun r => if r.success then q.source.shows r.output else .ok false

end Inquiry

section

variable (p : Performer)

/-- A command that reads the page. -/
def readCall (args : List Text) : BrowserCall :=
  { args, silent := true, timeout := some p.timeouts.read }

def snapshotCall : BrowserCall := p.readCall ["snapshot", "-i", "--json"]

def pageCall : BrowserCall := p.readCall ["get", "text", "body"]

def addressCall : BrowserCall := p.readCall ["url"]

def snapshotSource (target : Text) : Source where
  call := p.snapshotCall
  shows output := (Evidence.snapshotText output).map fun shown => Text.has shown target

def pageSource (target : Text) : Source where
  call := p.pageCall
  shows output := .ok (Text.has output target)

def addressSource (route : Text) : Source where
  call := p.addressCall
  shows output := (Evidence.isAtRoute output route).mapError fun problem =>
    .invalid (.address problem)

/-- The sources for a text, in the order in which they are asked. The address is one of them if the
text names a route. -/
def sources (target : Text) : List Source :=
  p.snapshotSource target :: p.pageSource target ::
    ((p.routes.resolve target).map p.addressSource).toList

end

variable {p : Performer} {g : Gateway} {outside : Outside} {m : Machine} {target : Text}
  {list : List Source} {asked : List Inquiry} {result : Except Fault Bool}

/-! ## Asking -/

/-- Asks a source. -/
def ask (g : Gateway) (s : Source) : Task Bool := do
  let result ← g.give s.call
  if result.success then Task.ofExcept (s.shows result.output) else pure false

/-- Asks sources up to the first that shows it. -/
def search (g : Gateway) : List Source → Task Bool
  | [] => pure false
  | s :: rest => do
    if ← ask g s then pure true else search g rest

theorem run_ask (g : Gateway) (s : Source) (outside : Outside) (m : Machine) :
    (ask g s).run outside m =
      (Inquiry.evidence ⟨s, ((g.give s.call).run outside m).1⟩,
        ((g.give s.call).run outside m).2) := by
  unfold ask
  rw [Task.run_bind]
  rcases (g.give s.call).run outside m with ⟨fault | r, m'⟩
  · rfl
  · cases hr : r.success <;> simp [Inquiry.evidence, Except.bind, hr]

theorem run_snapshotShows (target : Text) :
    (p.snapshotShows target).run outside m =
      (ask p.gateway (p.snapshotSource target)).run outside m := by
  have hread : p.readSnapshot = p.gateway.give p.snapshotCall := rfl
  rw [run_ask]
  unfold snapshotShows
  rw [hread, Task.run_bind]
  dsimp only [snapshotSource]
  rcases (p.gateway.give p.snapshotCall).run outside m with ⟨fault | r, m'⟩
  · rfl
  cases hr : r.success with
  | false => simp [Inquiry.evidence, Except.bind, hr]
  | true =>
    cases hshown : Evidence.snapshotText r.output <;>
      simp [Inquiry.evidence, Except.bind, Except.map, hr, hshown]

theorem run_pageShows (target : Text) :
    (p.pageShows target).run outside m =
      (ask p.gateway (p.pageSource target)).run outside m := by
  have hcommand : p.command ["get", "text", "body"] p.timeouts.read =
      p.gateway.give p.pageCall := rfl
  rw [run_ask]
  unfold pageShows
  rw [hcommand, Task.run_bind]
  dsimp only [pageSource]
  rcases (p.gateway.give p.pageCall).run outside m with ⟨fault | r, m'⟩
  · rfl
  · cases hr : r.success <;> simp [Inquiry.evidence, Except.bind, hr]

theorem run_addressShows (target : Text) :
    (p.addressShows target).run outside m =
      (search p.gateway ((p.routes.resolve target).map p.addressSource).toList).run outside m := by
  have hcommand : p.command ["url"] p.timeouts.read = p.gateway.give p.addressCall := rfl
  unfold addressShows
  cases p.routes.resolve target with
  | none => rfl
  | some route =>
    dsimp only [Option.map, Option.toList, search]
    rw [Task.run_bind, Task.run_bind, run_ask, hcommand]
    dsimp only [addressSource]
    rcases (p.gateway.give p.addressCall).run outside m with ⟨fault | r, m'⟩
    · rfl
    cases hr : r.success with
    | false => simp [Inquiry.evidence, Except.bind, hr]
    | true =>
      rcases hat : Evidence.isAtRoute r.output route with problem | isAt
      · simp [Inquiry.evidence, Except.bind, Except.mapError, hr, hat]
      · cases isAt <;> simp [Inquiry.evidence, Except.bind, Except.mapError, hr, hat]

/-! ## Searching -/

/-- How a search goes: each source is asked in turn, the next one only if this one showed nothing. -/
inductive Searched : List Source → List Inquiry → Except Fault Bool → Prop where
  | exhausted : Searched [] [] (.ok false)
  | decided {q : Inquiry} {rest} : q.evidence ≠ .ok false →
    Searched (q.source :: rest) [q] q.evidence
  | goesOn {q : Inquiry} {rest asked result} : q.evidence = .ok false →
    Searched rest asked result → Searched (q.source :: rest) (q :: asked) result

/-- The commands of a search follow right after one another. -/
theorem searched_search (g : Gateway) (list : List Source) (outside : Outside) (m : Machine) :
    ∃ asked, Searched list asked ((search g list).run outside m).1 ∧
      Dialogue g outside m (asked.map Inquiry.exchange) ((search g list).run outside m).2 := by
  -- Along the list, from whatever machine the answers so far have left.
  induction list generalizing m with
  | nil => exact ⟨[], .exhausted, .silent m⟩
  | cons s rest ih =>
    let q : Inquiry := ⟨s, ((g.give s.call).run outside m).1⟩
    have hask : (ask g s).run outside m = (q.evidence, ((g.give s.call).run outside m).2) :=
      run_ask g s outside m
    unfold search
    rw [Task.run_bind, hask]
    have hdecided : q.evidence ≠ .ok false → Searched (s :: rest) [q] q.evidence := .decided
    rcases hevidence : q.evidence with fault | _ | _
    · rw [hevidence] at hdecided
      exact ⟨[q], hdecided (by simp), .said rfl (.silent _)⟩
    · obtain ⟨asked, hsearched, hsaid⟩ := ih ((g.give s.call).run outside m).2
      exact ⟨q :: asked, .goesOn hevidence hsearched, .said rfl hsaid⟩
    · rw [hevidence] at hdecided
      exact ⟨[q], hdecided (by simp), .said rfl (.silent _)⟩

namespace Searched

/-- The sources that were asked are the first ones. -/
theorem order (h : Searched list asked result) : asked.map (·.source) <+: list := by
  induction h with
  | exhausted => simp
  | decided => simp
  | goesOn _ _ ih => simpa using ih

/-- Before the last of them nothing was shown. -/
theorem shortest (h : Searched list asked result) :
    ∀ q ∈ asked.dropLast, q.evidence = .ok false := by
  induction h with
  | exhausted => simp
  | decided => simp
  | @goesOn q rest asked result hq _ ih =>
    cases asked with
    | nil => simp
    | cons next later => simpa [hq] using ih

theorem eq_iff (h : Searched list asked result) {found : Except Fault Bool}
    (hfound : found ≠ .ok false) : result = found ↔ ∃ q ∈ asked, q.evidence = found := by
  induction h with
  | exhausted => simpa using hfound.symm
  | decided => simp
  | goesOn hq _ ih => simp [ih, hq, hfound.symm]

theorem eq_false_iff (h : Searched list asked result) :
    result = .ok false ↔
      asked.map (·.source) = list ∧ ∀ q ∈ asked, q.evidence = .ok false := by
  induction h with
  | exhausted => simp
  | decided hq => simp [hq]
  | goesOn hq _ ih => simp [ih, hq]

end Searched

/-! ## Verify steps -/

/-- What the search for a text comes to, and the machine that it leaves. -/
def verdict (target : Text) (searched : Except Fault Bool × Machine) :
    Except Fault Outcome × Machine :=
  (searched.1.map fun found => if found then .passed else notFound target, searched.2)

/-- One more source: what it shows decides the search, and otherwise the rest of it does. -/
theorem run_search_cons {shows : Task Bool} {next : Task Outcome} {s : Source}
    (hshows : ∀ m, shows.run outside m = (ask g s).run outside m)
    (hnext : ∀ m, next.run outside m = verdict target ((search g list).run outside m))
    (m : Machine) :
    (do if ← shows then pure .passed else next : Task Outcome).run outside m =
      verdict target ((search g (s :: list)).run outside m) := by
  conv => rhs; unfold search
  rw [Task.run_bind, Task.run_bind, hshows]
  rcases (ask g s).run outside m with ⟨fault | _ | _, m'⟩
  · rfl
  · exact hnext m'
  · rfl

theorem run_verify_of_le {step : Text} (h : longestDuration ≤ p.verifySettle.natAbs) :
    (p.verify step).run outside m = (.error (.excess .duration), m) := by
  unfold verify
  rw [Task.run_bind_error (Task.pause_of_le h m)]

theorem run_verify_of_eq_nil {step : Text} (hsettle : p.verifySettle.natAbs < longestDuration)
    (htarget : Step.verifyTarget step = []) :
    (p.verify step).run outside m =
      p.genericCheck.run outside { m with elapsed := m.elapsed + p.verifySettle.toNat } := by
  unfold verify
  rw [Task.run_bind_ok (Task.pause_of_lt hsettle m)]
  simp only [htarget, List.isEmpty_nil, if_true]

/-- A step that names a text searches for it once the page has settled. -/
theorem run_verify {step : Text} (hsettle : p.verifySettle.natAbs < longestDuration)
    (htarget : Step.verifyTarget step ≠ []) :
    (p.verify step).run outside m =
      verdict (Step.verifyTarget step)
        ((search p.gateway (p.sources (Step.verifyTarget step))).run outside
          { m with elapsed := m.elapsed + p.verifySettle.toNat }) := by
  have hempty : (Step.verifyTarget step).isEmpty = false := by simpa using htarget
  unfold verify
  rw [Task.run_bind_ok (Task.pause_of_lt hsettle m)]
  simp only [hempty, Bool.false_eq_true, if_false]
  -- The three checks of the step are the sources of the search, each in its place.
  refine run_search_cons (fun m => run_snapshotShows _) (run_search_cons
    (fun m => run_pageShows _) fun m => ?_) _
  rw [Task.run_bind, run_addressShows]
  rcases (search p.gateway _).run outside m with ⟨fault | _ | _, m'⟩ <;> rfl

/-! ## What answers show -/

/-- The answer shows the text, each source in its way. -/
inductive Shows (p : Performer) (target : Text) : Inquiry → Prop where
  | snapshot {r shown} : r.success = true → Evidence.snapshotText r.output = .ok shown →
    target <:+: shown → Shows p target ⟨p.snapshotSource target, .ok r⟩
  | page {r} : r.success = true → target <:+: r.output →
    Shows p target ⟨p.pageSource target, .ok r⟩
  | address {r route} : r.success = true → p.routes.resolve target = some route →
    Evidence.isAtRoute r.output route = .ok true →
    Shows p target ⟨p.addressSource route, .ok r⟩

/-- The answer stops the search: the browser broke off, or what it says cannot be read. -/
inductive Unreadable (p : Performer) (target : Text) : Inquiry → Fault → Prop where
  | broken {source fault} : Unreadable p target ⟨source, .error fault⟩ fault
  | snapshot {r container} : r.success = true →
    Json.read r.output = .error (.nestedTooDeep container) →
    Unreadable p target ⟨p.snapshotSource target, .ok r⟩ (.nestedTooDeep (.document container))
  | address {r route problem} : r.success = true → p.routes.resolve target = some route →
    Evidence.isAtRoute r.output route = .error problem →
    Unreadable p target ⟨p.addressSource route, .ok r⟩ (.invalid (.address problem))

end Performer

theorem Text.has_iff {t part : Text} : Text.has t part = true ↔ part <:+: t := by
  induction t with
  | nil => simp [has]
  | cons c rest ih => simp [has, ih, List.infix_cons_iff]

/-- A snapshot that is not nested too deep shows something, or nothing. -/
theorem Evidence.snapshotText_eq_error {snapshot : Text} {fault : Fault} :
    snapshotText snapshot = .error fault ↔
      ∃ container, Json.read snapshot = .error (.nestedTooDeep container) ∧
        fault = .nestedTooDeep (.document container) := by
  unfold snapshotText
  rcases Json.read snapshot with error | v
  · cases error <;> simp [Fault.ofUnreadable, eq_comm]
  · simp

namespace Performer

variable {p : Performer} {outside : Outside} {m : Machine} {target : Text} {asked : List Inquiry}
  {result : Except Fault Bool} {q : Inquiry}

theorem Shows.evidence_eq (h : Shows p target q) : q.evidence = .ok true := by
  cases h with
  | snapshot hr hshown hhas =>
    simp [Inquiry.evidence, Except.bind, hr, snapshotSource, hshown, Except.map,
      Text.has_iff.mpr hhas]
  | page hr hhas =>
    simp [Inquiry.evidence, Except.bind, hr, pageSource, Text.has_iff.mpr hhas]
  | address hr _ hat => simp [Inquiry.evidence, Except.bind, hr, addressSource, hat, Except.mapError]

theorem Unreadable.evidence_eq {fault : Fault} (h : Unreadable p target q fault) :
    q.evidence = .error fault := by
  cases h with
  | broken => rfl
  | snapshot hr hread =>
    have hshown := Evidence.snapshotText_eq_error.mpr ⟨_, hread, rfl⟩
    simp [Inquiry.evidence, Except.bind, hr, snapshotSource, hshown, Except.map]
  | address hr _ hat => simp [Inquiry.evidence, Except.bind, hr, addressSource, hat, Except.mapError]

/-- What an answer of one of the sources comes to, case by case. -/
theorem evidence_of_mem (hq : q.source ∈ p.sources target) :
    q.evidence = .ok false ∨ (q.evidence = .ok true ∧ Shows p target q) ∨
      ∃ fault, q.evidence = .error fault ∧ Unreadable p target q fault := by
  obtain ⟨source, fault | r⟩ := q
  · exact .inr (.inr ⟨fault, rfl, .broken⟩)
  cases hr : r.success with
  | false => exact .inl (by simp [Inquiry.evidence, Except.bind, hr])
  | true =>
    have hevidence : Inquiry.evidence ⟨source, .ok r⟩ = source.shows r.output := by
      simp [Inquiry.evidence, Except.bind, hr]
    rw [hevidence]
    simp only [sources, List.mem_cons, Option.mem_toList, Option.map_eq_some_iff] at hq
    rcases hq with rfl | rfl | ⟨route, hroute, rfl⟩
    · rcases hshown : Evidence.snapshotText r.output with fault | shown
      · obtain ⟨container, hread, rfl⟩ := Evidence.snapshotText_eq_error.mp hshown
        exact .inr (.inr ⟨_, by simp [snapshotSource, hshown, Except.map], .snapshot hr hread⟩)
      · rcases hhas : Text.has shown target with _ | _
        · exact .inl (by simp [snapshotSource, hshown, Except.map, hhas])
        · exact .inr (.inl ⟨by simp [snapshotSource, hshown, Except.map, hhas],
            .snapshot hr hshown (Text.has_iff.mp hhas)⟩)
    · rcases hhas : Text.has r.output target with _ | _
      · exact .inl (by simp [pageSource, hhas])
      · exact .inr (.inl ⟨by simp [pageSource, hhas], .page hr (Text.has_iff.mp hhas)⟩)
    · rcases hat : Evidence.isAtRoute r.output route with problem | _ | _
      · exact .inr (.inr ⟨_, by simp [addressSource, hat, Except.mapError],
          .address hr hroute hat⟩)
      · exact .inl (by simp [addressSource, hat, Except.mapError])
      · exact .inr (.inl ⟨by simp [addressSource, hat, Except.mapError], .address hr hroute hat⟩)

theorem shows_iff (hq : q.source ∈ p.sources target) : Shows p target q ↔ q.evidence = .ok true := by
  refine ⟨Shows.evidence_eq, fun h => ?_⟩
  rcases evidence_of_mem hq with hnone | ⟨-, hshows⟩ | ⟨fault, hfault, -⟩
  · exact absurd (hnone.symm.trans h) (by simp)
  · exact hshows
  · exact absurd (hfault.symm.trans h) (by simp)

theorem unreadable_iff {fault : Fault} (hq : q.source ∈ p.sources target) :
    Unreadable p target q fault ↔ q.evidence = .error fault := by
  refine ⟨Unreadable.evidence_eq, fun h => ?_⟩
  rcases evidence_of_mem hq with hnone | ⟨hshown, -⟩ | ⟨fault', hfault, hunreadable⟩
  · exact absurd (hnone.symm.trans h) (by simp)
  · exact absurd (hshown.symm.trans h) (by simp)
  · exact Except.error.inj (hfault.symm.trans h) ▸ hunreadable

/-! ## How a verify step goes -/

/-- How a verify step goes that names a text. -/
structure Verified (p : Performer) (target : Text) (asked : List Inquiry)
    (result : Except Fault Outcome) : Prop where
  /-- The sources are asked in order. -/
  order : asked.map (·.source) <+: p.sources target
  /-- Another source is asked only if all before it showed nothing. -/
  shortest : ∀ q ∈ asked.dropLast, q.evidence = .ok false
  passed : result = .ok .passed ↔ ∃ q ∈ asked, Shows p target q
  fault : ∀ fault, result = .error fault ↔ ∃ q ∈ asked, Unreadable p target q fault
  notFound : result = .ok (notFound target) ↔
    asked.map (·.source) = p.sources target ∧ ∀ q ∈ asked, q.evidence = .ok false
  decided : result = .ok .passed ∨ result = .ok (Performer.notFound target) ∨
    ∃ fault, result = .error fault

theorem Searched.verified (h : Searched (p.sources target) asked result) :
    Verified p target asked
      (result.map fun found => if found then .passed else notFound target) := by
  have hsource : ∀ q ∈ asked, q.source ∈ p.sources target := fun q hq =>
    h.order.mem (List.mem_map_of_mem hq)
  have hshows : (∃ q ∈ asked, q.evidence = .ok true) ↔ ∃ q ∈ asked, Shows p target q :=
    exists_congr fun q => and_congr_right fun hq => (shows_iff (hsource q hq)).symm
  have hunreadable : ∀ fault, (∃ q ∈ asked, q.evidence = .error fault) ↔
      ∃ q ∈ asked, Unreadable p target q fault := fun fault =>
    exists_congr fun q => and_congr_right fun hq => (unreadable_iff (hsource q hq)).symm
  exact {
    order := h.order
    shortest := h.shortest
    passed := by
      rw [← hshows, ← h.eq_iff (by simp)]
      rcases result with fault | _ | _ <;> simp [Except.map, notFound]
    fault := by
      intro fault
      rw [← hunreadable, ← h.eq_iff (by simp)]
      rcases result with fault | _ | _ <;> simp [Except.map]
    notFound := by
      rw [← h.eq_false_iff]
      rcases result with fault | _ | _ <;> simp [Except.map, notFound]
    decided := by rcases result with fault | _ | _ <;> simp [Except.map] }

/-- A verify step waits for the page to settle. One that names no text passes if the snapshot
succeeds. One that names a text asks its sources and passes as soon as one shows it; it fails when
all have shown nothing, and stops with a fault only at an answer that cannot be read. -/
theorem verify_dialogue (p : Performer) (step : Text) (outside : Outside) (m : Machine)
    (hsettle : p.verifySettle.natAbs < longestDuration) :
    ∃ said result last, (p.verify step).run outside m = (result, last) ∧
      Dialogue p.gateway outside { m with elapsed := m.elapsed + p.verifySettle.toNat } said last ∧
      (Step.verifyTarget step = [] → ∃ answer, said = [⟨p.snapshotCall, answer⟩] ∧
        (result = .ok .passed ↔ ∃ r, answer = .ok r ∧ r.success = true) ∧
        ∀ fault, result = .error fault ↔ answer = .error fault) ∧
      (Step.verifyTarget step ≠ [] → ∃ asked, said = asked.map Inquiry.exchange ∧
        Verified p (Step.verifyTarget step) asked result) := by
  by_cases htarget : Step.verifyTarget step = []
  · rw [run_verify_of_eq_nil hsettle htarget]
    have hread : p.readSnapshot = p.gateway.give p.snapshotCall := rfl
    unfold genericCheck
    rw [hread, Task.run_bind]
    rcases hgive : (p.gateway.give p.snapshotCall).run outside _ with ⟨fault | r, last⟩
    · exact ⟨_, _, _, rfl, .said hgive (.silent _), fun _ => ⟨_, rfl, by simp, by simp⟩,
        fun h => absurd htarget h⟩
    · refine ⟨_, _, _, rfl, .said hgive (.silent _), fun _ => ⟨_, rfl, ?_, by simp⟩,
        fun h => absurd htarget h⟩
      cases hr : r.success <;> simp [outcomeOf, hr]
  · rw [run_verify hsettle htarget]
    obtain ⟨asked, hsearched, hsaid⟩ := searched_search p.gateway
      (p.sources (Step.verifyTarget step)) outside
      { m with elapsed := m.elapsed + p.verifySettle.toNat }
    exact ⟨_, _, _, rfl, hsaid, fun h => absurd h htarget,
      fun _ => ⟨asked, rfl, hsearched.verified⟩⟩

/-- A browser that does whatever it is told, and answers with a text. -/
def telling (output : List Text → Text) : Outside :=
  { Playbook.outside [] [] 0 with
    browse := fun _ call =>
      { answer := .result { success := true, output := output call.args }
        effect := fun _ s => s } }

/-- A performer with the usual routes and time limits. -/
def usual : Performer := { gateway := .direct "agent-browser", baseUrl := "http://app.test" }

theorem usual_settle : usual.verifySettle.natAbs < longestDuration := by decide +kernel

/-- A browser whose page holds the text, but not its snapshot. -/
def welcoming (snapshot : Text) : Outside :=
  telling fun args =>
    if args = ["snapshot", "-i", "--json"] then snapshot
    else if args = ["get", "text", "body"] then "Welcome back" else []

theorem verifyTarget_welcome : Step.verifyTarget "verify Welcome" = "Welcome" := by decide +kernel

theorem verify_dialogue_welcome :
    ∃ asked last, (usual.verify "verify Welcome").run (welcoming "[]") (Machine.bare []) =
        (.ok .passed, last) ∧
      Verified usual "Welcome" asked (.ok .passed) := by
  have hpassed : ((usual.verify "verify Welcome").run (welcoming "[]")
      (Machine.bare [])).1.toOption = some .passed := by decide +kernel
  obtain ⟨said, result, last, hrun, -, -, hverified⟩ :=
    verify_dialogue usual "verify Welcome" (welcoming "[]") (Machine.bare []) usual_settle
  obtain ⟨asked, -, hasked⟩ := hverified (by rw [verifyTarget_welcome]; decide)
  rw [hrun] at hpassed
  obtain rfl : result = .ok .passed := by
    cases result with
    | error fault => exact absurd hpassed (by simp [Except.toOption])
    | ok outcome => exact congrArg _ (Option.some.inj hpassed)
  exact ⟨asked, last, hrun, verifyTarget_welcome ▸ hasked⟩

theorem verify_welcoming {snapshot : Text} {fault : Fault}
    (h : Evidence.snapshotText snapshot = .error fault) (m : Machine) :
    ((usual.verify "verify Welcome").run (welcoming snapshot) m).1 = .error fault := by
  have hask : ∀ m, ((ask usual.gateway (usual.snapshotSource "Welcome")).run
      (welcoming snapshot) m).1 = .error fault := by
    intro m
    have hgive : ((usual.gateway.give usual.snapshotCall).run (welcoming snapshot) m).1 =
        .ok { success := true, output := snapshot } := rfl
    rw [run_ask]
    dsimp only [snapshotSource]
    rw [hgive]
    simp only [Inquiry.evidence, Except.bind, if_true, h, Except.map]
  rw [run_verify usual_settle (by rw [verifyTarget_welcome]; decide), verifyTarget_welcome]
  unfold verdict sources search
  rw [Task.run_bind_error (Prod.ext (hask _) rfl)]
  rfl

/-- The snapshot is nested too deep, and the step stops with a fault, although no command fails and
the page shows the text. -/
theorem not_passed_welcoming :
    ∃ snapshot, (∀ call m, ∃ r, ((usual.gateway.give call).run (welcoming snapshot) m).1 = .ok r ∧
        r.success = true) ∧
      (∀ m r, ((usual.gateway.give usual.pageCall).run (welcoming snapshot) m).1 = .ok r →
        Step.verifyTarget "verify Welcome" <:+: r.output) ∧
      ((usual.verify "verify Welcome").run (welcoming snapshot) (Machine.bare [])).1 =
        .error (.nestedTooDeep (.document .list)) := by
  have hshown := Evidence.snapshotText_eq_error.mpr ⟨.list, Json.read_brackets [], rfl⟩
  refine ⟨_, fun call m => ⟨_, rfl, rfl⟩, ?_, verify_welcoming hshown _⟩
  intro m r hr
  obtain rfl := Except.ok.inj hr
  rw [verifyTarget_welcome]
  exact ⟨[], " back", by decide⟩

/-! ## A browser that says nothing -/

/-- The commands that read the page succeed, and their outputs are empty. -/
def Speechless (p : Performer) (outside : Outside) : Prop :=
  ∀ call ∈ [p.snapshotCall, p.pageCall, p.addressCall], ∀ m, ∃ r,
    ((p.gateway.give call).run outside m).1 = .ok r ∧ r.success = true ∧ r.output = []

theorem Speechless.ask_eq (h : Speechless p outside) {s : Source}
    (hs : s.call ∈ [p.snapshotCall, p.pageCall, p.addressCall]) (m : Machine) :
    ((ask p.gateway s).run outside m).1 = s.shows [] := by
  obtain ⟨r, hr, hsuccess, houtput⟩ := h s.call hs m
  rw [run_ask, hr]
  simp [Inquiry.evidence, Except.bind, hsuccess, houtput]

theorem run_search_append {g : Gateway} {front : List Source}
    (h : ∀ s ∈ front, ∀ m, ((ask g s).run outside m).1 = .ok false) (list : List Source)
    (m : Machine) :
    ∃ m', (search g (front ++ list)).run outside m = (search g list).run outside m' := by
  induction front generalizing m with
  | nil => exact ⟨m, rfl⟩
  | cons s front ih =>
    rw [List.forall_mem_cons] at h
    obtain ⟨m', hm'⟩ := ih h.2 ((ask g s).run outside m).2
    refine ⟨m', ?_⟩
    rw [List.cons_append]
    conv => lhs; unfold search
    rw [Task.run_bind_ok (Prod.ext (h.1 m) rfl)]
    exact hm'

theorem isAtRoute_nil (route : Text) :
    Evidence.isAtRoute [] route = .ok (decide (Evidence.withoutSlashes route = [])) := by
  have hpath : Url.path (Text.trim []) = .ok [] := by decide
  have hempty : Evidence.withoutSlashes [] = [] := rfl
  unfold Evidence.isAtRoute
  rw [hpath]
  simp only [bind, Except.bind, hempty, eq_comm]

theorem Speechless.ask_address (h : Speechless p outside) (route : Text) (m : Machine) :
    ((ask p.gateway (p.addressSource route)).run outside m).1 =
      .ok (decide (Evidence.withoutSlashes route = [])) := by
  rw [h.ask_eq (by simp [addressSource])]
  simp only [addressSource, isAtRoute_nil, Except.mapError]

/-- No text is found in a page that is empty. -/
theorem Speechless.ask_page (h : Speechless p outside) (htarget : target ≠ []) :
    ∀ s ∈ [p.snapshotSource target, p.pageSource target], ∀ m,
      ((ask p.gateway s).run outside m).1 = .ok false := by
  obtain ⟨c, rest, rfl⟩ := List.exists_cons_of_ne_nil htarget
  simp only [List.forall_mem_cons, List.not_mem_nil, false_imp_iff, implies_true, and_true]
  refine ⟨fun m => ?_, fun m => ?_⟩
  · rw [h.ask_eq (by simp [snapshotSource]) m]
    rfl
  · rw [h.ask_eq (by simp [pageSource]) m]
    rfl

theorem Speechless.search_eq (h : Speechless p outside) (htarget : target ≠ []) (m : Machine) :
    ((search p.gateway (p.sources target)).run outside m).1 =
      .ok ((p.routes.resolve target).any (Evidence.withoutSlashes · = [])) := by
  obtain ⟨m', hm'⟩ := run_search_append (h.ask_page htarget)
    ((p.routes.resolve target).map p.addressSource).toList m
  have hsources : p.sources target = [p.snapshotSource target, p.pageSource target] ++
    ((p.routes.resolve target).map p.addressSource).toList := rfl
  rw [hsources, hm']
  cases p.routes.resolve target with
  | none => rfl
  | some route =>
    dsimp only [Option.map, Option.toList, search, Option.any]
    rw [Task.run_bind_ok (Prod.ext (h.ask_address route m') rfl)]
    by_cases hroute : Evidence.withoutSlashes route = [] <;> simp [hroute]

/-- A browser says nothing at all. A verify step that names a text still passes if the text names a
route that is nothing but slashes, since the empty address is taken for that route. Otherwise it
fails, unless the time to settle is out of bounds. -/
theorem verify_speechless {step : Text} (m : Machine) (h : Speechless p outside)
    (htarget : Step.verifyTarget step ≠ []) :
    ((p.verify step).run outside m).1 =
      if longestDuration ≤ p.verifySettle.natAbs then .error (.excess .duration)
      else .ok (if (p.routes.resolve (Step.verifyTarget step)).any (Evidence.withoutSlashes · = [])
        then .passed else notFound (Step.verifyTarget step)) := by
  split
  next hsettle => rw [run_verify_of_le hsettle]
  next hsettle =>
    rw [run_verify (Nat.not_le.mp hsettle) htarget]
    unfold verdict
    rw [h.search_eq htarget]
    rfl

theorem speechless_usual : usual.Speechless (telling fun _ => []) :=
  fun _ _ _ => ⟨_, rfl, rfl, rfl⟩

theorem verify_speechless_welcome :
    ((usual.verify "verify Welcome").run (telling fun _ => []) (Machine.bare [])).1 =
      .ok (notFound "Welcome") := by
  have hroute : usual.routes.resolve "Welcome" = none := by decide +kernel
  have hverify := verify_speechless (Machine.bare []) speechless_usual
    (show Step.verifyTarget "verify Welcome" ≠ [] by rw [verifyTarget_welcome]; decide)
  rw [hverify, if_neg (Nat.not_le.mpr usual_settle), verifyTarget_welcome, hroute]
  rfl

/-- The start page is found by a browser that says nothing. -/
theorem passed_speechless :
    usual.Speechless (telling fun _ => []) ∧ Step.verifyTarget "验证首页" = "首页" ∧
      ((usual.verify "验证首页").run (telling fun _ => []) (Machine.bare [])).1.toOption =
        some .passed :=
  ⟨speechless_usual, by decide +kernel, by decide +kernel⟩

end Performer

end Acceptance
