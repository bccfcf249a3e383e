import Acceptance.Proofs.Attempts

/-! # Performing steps

A step gives its commands, and what they answer becomes an outcome. There is a fault if the browser
breaks off, and at a few places where the step has to make something of a number or of an answer: a
time that cannot be read or waited for, a snapshot that is nested too deep, and an address that
cannot be taken apart. -/

namespace Acceptance

variable {α β : Type} {g : Gateway} {outside : Outside} {m m' : Machine} {es : List Exchange}

/-! ## Tasks that relay the browser -/

theorem Dialogue.talk (h : Dialogue g outside m es m') : Talk g outside m es m' := by
  induction h with
  | silent => exact .refl
  | said hgive _ ih => exact .said .rfl hgive ih

/-- One of the commands broke off with the fault. -/
def BreaksOff (es : List Exchange) (fault : Fault) : Prop := ∃ e ∈ es, e.answer = .error fault

/-- The task gives commands, and it stops with a fault exactly if the browser breaks off with it. -/
def Relays (g : Gateway) (outside : Outside) (t : Task α) : Prop :=
  ∀ m, ∃ said result last, t.run outside m = (result, last) ∧ Talk g outside m said last ∧
    ∀ fault, result = .error fault ↔ BreaksOff said fault

theorem relays_pure (a : α) : Relays g outside (pure a : Task α) :=
  fun m => ⟨[], _, m, rfl, .refl, by simp [BreaksOff]⟩

theorem relays_give (call : BrowserCall) : Relays g outside (g.give call) := by
  intro m
  refine ⟨_, ((g.give call).run outside m).1, _, rfl, .single g outside m call, fun fault => ?_⟩
  simp [BreaksOff]

theorem quiet_passed (m : Machine) (milliseconds : Nat) :
    m.Quiet { m with elapsed := m.elapsed + milliseconds } := { Machine.Quiet.rfl with }

theorem relays_pause {milliseconds : Int} (h : milliseconds.natAbs < longestDuration) :
    Relays g outside (Task.pause milliseconds) :=
  fun m => ⟨[], _, _, Task.pause_of_lt h m, .silence (quiet_passed m _), by simp [BreaksOff]⟩

theorem relays_bind {t : Task α} {f : α → Task β} (ht : Relays g outside t)
    (hf : ∀ a, Relays g outside (f a)) : Relays g outside (t >>= f) := by
  intro m
  obtain ⟨said, fault | a, m₁, hrun, htalk, hfault⟩ := ht m
  · exact ⟨said, _, m₁, Task.run_bind_error hrun f, htalk, by simpa using hfault⟩
  · obtain ⟨more, result, last, hrun', htalk', hfault'⟩ := hf a m₁
    refine ⟨said ++ more, result, last, (Task.run_bind_ok hrun f).trans hrun',
      htalk.append htalk', fun fault => ?_⟩
    have hnone : ¬ BreaksOff said fault := fun h => by simpa using (hfault fault).mpr h
    rw [hfault' fault]
    simp only [BreaksOff, List.mem_append, or_and_right, exists_or] at hnone ⊢
    simp [hnone]

namespace Performer

variable {p : Performer} {step : Text} {data : Option Input} {said : List Exchange}
  {asked : List Inquiry} {fault : Fault}

theorem relays_command (args : List Text) (timeout : Int) :
    Relays p.gateway outside (p.command args timeout) :=
  relays_give { args, silent := true, timeout := some timeout }

theorem relays_firstSuccess (attempts : List Attempt) :
    Relays p.gateway outside (p.firstSuccess attempts) := by
  intro m
  obtain ⟨es, htried, hsaid⟩ := tried_firstSuccessAfter p outside nothingTried attempts m
  exact ⟨es, _, _, rfl, hsaid.talk, htried.error_iff⟩

theorem relays_fillField (field value : Text) :
    Relays p.gateway outside (p.fillField field value) := relays_firstSuccess _

theorem relays_navigate (step : Text) : Relays p.gateway outside (p.navigate step) :=
  relays_bind (relays_command _ _) fun _ => relays_pure _

theorem relays_click (step : Text) : Relays p.gateway outside (p.click step) :=
  relays_bind (relays_firstSuccess _) fun _ => relays_pure _

theorem relays_fill (step : Text) (data : Option Input) :
    Relays p.gateway outside (p.fill step data) :=
  relays_bind (relays_fillField _ _) fun _ => relays_pure _

theorem relays_triesFields (hfill : p.fillSettle.natAbs < longestDuration)
    {next : CommandResult → CommandResult → Task Outcome}
    (hnext : ∀ first second, Relays p.gateway outside (next first second)) :
    Relays p.gateway outside (p.triesFields next) :=
  relays_bind (relays_fillField _ _) fun first => relays_bind (relays_pause hfill) fun _ =>
    relays_bind (relays_fillField _ _) fun second => hnext first second

theorem relays_fillCredentials (hfill : p.fillSettle.natAbs < longestDuration) :
    Relays p.gateway outside p.fillCredentials :=
  relays_triesFields hfill fun _ _ => relays_pure _

theorem relays_login (hfill : p.fillSettle.natAbs < longestDuration) :
    Relays p.gateway outside p.login :=
  relays_triesFields hfill fun _ _ => relays_bind (relays_pause hfill) fun _ =>
    relays_bind (relays_command _ _) fun _ => relays_pure _

/-! ## Outcomes -/

/-- A step that failed says why. -/
def Explained : Outcome → Prop
  | .passed => True
  | .failed error => error ≠ []

theorem explained_outcomeOf (result : CommandResult) (start : Text) :
    Explained (outcomeOf result start) := by
  unfold outcomeOf
  split
  · trivial
  · simp [Explained, Text.of]

theorem explains_outcomeOf (t : Task CommandResult) (start : Text) :
    Task.Gives outside Explained (do
      let result ← t
      pure (outcomeOf result start)) :=
  Task.gives_bind (Task.gives_true t) fun result _ =>
    Task.gives_pure (explained_outcomeOf result start)

/-- A check that passes the step leaves the explanation to what follows. -/
theorem explains_check (check : Task Bool) {next : Task Outcome}
    (hnext : next.Gives outside Explained) :
    Task.Gives outside Explained (do if ← check then pure .passed else next) := by
  refine Task.gives_bind (Task.gives_true check) fun found _ => ?_
  split
  · exact Task.gives_pure trivial
  · exact hnext

theorem explained_notFound (target : Text) : Explained (notFound target) := by
  simp [notFound, Explained, Text.of]

theorem explains_triesFields {next : CommandResult → CommandResult → Task Outcome}
    (hnext : ∀ first second, (next first second).Gives outside Explained) :
    (p.triesFields next).Gives outside Explained :=
  Task.gives_bind (Task.gives_true _) fun first _ =>
    Task.gives_bind (Task.gives_true _) fun _ _ =>
      Task.gives_bind (Task.gives_true _) fun second _ => hnext first second

theorem explains_fillCredentials : p.fillCredentials.Gives outside Explained := by
  refine explains_triesFields fun first second => Task.gives_pure ?_
  split
  · exact explained_outcomeOf _ _
  · exact explained_outcomeOf _ _

theorem explains_login : p.login.Gives outside Explained :=
  explains_triesFields fun _ _ => Task.gives_bind (Task.gives_true _) fun _ _ =>
    explains_outcomeOf _ _

theorem explains_verify (step : Text) : (p.verify step).Gives outside Explained := by
  unfold verify
  refine Task.gives_bind (Task.gives_true _) fun _ _ => ?_
  dsimp only
  split
  · exact explains_outcomeOf _ _
  · exact explains_check _ (explains_check _ (explains_check _
      (Task.gives_pure (explained_notFound _))))

theorem explains_perform (step : Text) (data : Option Input) :
    (p.perform step data).Gives outside Explained := by
  unfold perform
  split
  · exact explains_outcomeOf _ _
  · exact explains_outcomeOf _ _
  · split
    · exact explains_fillCredentials
    · exact explains_outcomeOf _ _
  · exact explains_verify step
  · exact explains_login
  · unfold wait
    split
    · exact Task.gives_bind (Task.gives_true _) fun _ _ => Task.gives_pure trivial
    · intro m outcome hrun
      simp at hrun
  · exact Task.gives_pure trivial

/-! ## What upsets a step -/

/-- The step cannot do what it does with a number, or with an answer that it was given. -/
inductive Upset (p : Performer) (step : Text) (said : List Exchange) : Fault → Prop where
  /-- The step names a time with more digits than are read. -/
  | digits {count} : Step.classify step = .wait →
    Step.waitTime step p.defaultWait = .error count →
    Upset p step said (.invalid (.longIntegerRead count))
  /-- The step names a time that is too long for the clock. -/
  | endless {milliseconds} : Step.classify step = .wait →
    Step.waitTime step p.defaultWait = .ok milliseconds →
    longestDuration ≤ milliseconds.natAbs → Upset p step said (.excess .duration)
  /-- The snapshot is nested too deep. -/
  | snapshot {r container} : Step.classify step = .verify → Step.verifyTarget step ≠ [] →
    ⟨p.snapshotCall, .ok r⟩ ∈ said → r.success = true →
    Json.read r.output = .error (.nestedTooDeep container) →
    Upset p step said (.nestedTooDeep (.document container))
  /-- The address cannot be taken apart. -/
  | address {r route problem} : Step.classify step = .verify → Step.verifyTarget step ≠ [] →
    p.routes.resolve (Step.verifyTarget step) = some route →
    ⟨p.addressCall, .ok r⟩ ∈ said → r.success = true →
    Evidence.isAtRoute r.output route = .error problem →
    Upset p step said (.invalid (.address problem))

/-- Only wait steps and verify steps are upset. -/
theorem Upset.classify (h : Upset p step said fault) :
    Step.classify step = .wait ∨ Step.classify step = .verify := by
  cases h with
  | digits hkind => exact .inl hkind
  | endless hkind => exact .inl hkind
  | snapshot hkind => exact .inr hkind
  | address hkind => exact .inr hkind

/-- The sources of a search give different commands. -/
theorem nodup_sources (p : Performer) (target : Text) :
    ((p.sources target).map (·.call.args)).Nodup := by
  have hpage : List.Nodup ([["snapshot", "-i", "--json"], ["get", "text", "body"]] :
      List (List Text)) := by decide
  have hall : List.Nodup ([["snapshot", "-i", "--json"], ["get", "text", "body"], ["url"]] :
      List (List Text)) := by decide
  unfold sources
  cases p.routes.resolve target with
  | none => exact hpage
  | some route => exact hall

theorem source_eq_of_call_eq {target : Text} {s t : Source} (hs : s ∈ p.sources target)
    (ht : t ∈ p.sources target) (hcall : s.call = t.call) : s = t :=
  List.inj_on_of_nodup_map (nodup_sources p target) hs ht (congrArg _ hcall)

/-- The answers that stop a search are those of commands that broke off, and those that upset the
step. -/
theorem unreadable_iff_upset (hkind : Step.classify step = .verify)
    (htarget : Step.verifyTarget step ≠ [])
    (hasked : ∀ q ∈ asked, q.source ∈ p.sources (Step.verifyTarget step)) :
    (∃ q ∈ asked, Unreadable p (Step.verifyTarget step) q fault) ↔
      BreaksOff (asked.map Inquiry.exchange) fault ∨
        Upset p step (asked.map Inquiry.exchange) fault := by
  constructor
  · rintro ⟨q, hq, hunreadable⟩
    have hmem := List.mem_map_of_mem (f := Inquiry.exchange) hq
    cases hunreadable with
    | broken => exact .inl ⟨_, hmem, rfl⟩
    | snapshot hr hread => exact .inr (.snapshot hkind htarget hmem hr hread)
    | address hr hroute hat => exact .inr (.address hkind htarget hroute hmem hr hat)
  -- The command that was answered tells which source was asked.
  have hsource : ∀ {s : Source} {answer}, s ∈ p.sources (Step.verifyTarget step) →
      ⟨s.call, answer⟩ ∈ asked.map Inquiry.exchange → ⟨s, answer⟩ ∈ asked := by
    intro s answer hs hsaid
    obtain ⟨⟨source, answer'⟩, hq, hexchange⟩ := List.mem_map.mp hsaid
    obtain ⟨hcall, rfl⟩ := Exchange.mk.inj hexchange
    obtain rfl := source_eq_of_call_eq (hasked _ hq) hs hcall
    exact hq
  rintro (⟨e, he, hanswer⟩ | hupset)
  · obtain ⟨⟨source, answer⟩, hq, rfl⟩ := List.mem_map.mp he
    obtain rfl : answer = .error fault := hanswer
    exact ⟨_, hq, .broken⟩
  · cases hupset with
    | digits hwait => simp [hkind] at hwait
    | endless hwait => simp [hkind] at hwait
    | snapshot _ _ hsaid hr hread =>
      exact ⟨_, hsource (s := p.snapshotSource _) (by simp [sources]) hsaid, .snapshot hr hread⟩
    | address _ _ hroute hsaid hr hat =>
      exact ⟨_, hsource (s := p.addressSource _) (by simp [sources, hroute]) hsaid,
        .address hr hroute hat⟩

/-- What upsets a wait step is the time that it names. -/
theorem upset_wait_iff (hkind : Step.classify step = .wait) :
    Upset p step said fault ↔
      (∃ count, Step.waitTime step p.defaultWait = .error count ∧
        fault = .invalid (.longIntegerRead count)) ∨
      ∃ milliseconds, Step.waitTime step p.defaultWait = .ok milliseconds ∧
        longestDuration ≤ milliseconds.natAbs ∧ fault = .excess .duration := by
  constructor
  · intro hupset
    cases hupset with
    | digits _ htime => exact .inl ⟨_, htime, rfl⟩
    | endless _ htime hlong => exact .inr ⟨_, htime, hlong, rfl⟩
    | snapshot hverify => simp [hkind] at hverify
    | address hverify => simp [hkind] at hverify
  · rintro (⟨count, htime, rfl⟩ | ⟨milliseconds, htime, hlong, rfl⟩)
    · exact .digits hkind htime
    · exact .endless hkind htime hlong

/-! ## Carrying out a step -/

/-- How carrying out a step goes: the commands that it gave, and what came of them. -/
structure Performance (p : Performer) (step : Text) (said : List Exchange)
    (result : Except Fault Outcome) : Prop where
  /-- The step stops with a fault exactly if the browser breaks off or the step is upset. -/
  fault : ∀ fault, result = .error fault ↔ BreaksOff said fault ∨ Upset p step said fault
  explained : ∀ outcome, result = .ok outcome → Explained outcome
  /-- A step that waits, or that names no action, needs no browser and does not fail. -/
  idle : Step.classify step = .wait ∨ Step.classify step = .other →
    said = [] ∧ ∀ outcome, result = .ok outcome → outcome = .passed

/-- The task carries out the step. -/
def Performs (p : Performer) (outside : Outside) (step : Text) (t : Task Outcome) : Prop :=
  ∀ m, ∃ said result last, t.run outside m = (result, last) ∧
    Talk p.gateway outside m said last ∧ Performance p step said result

theorem performs_of_relays {t : Task Outcome} (h : Relays p.gateway outside t)
    (hexplains : t.Gives outside Explained)
    (hkind : Step.classify step ∉ [.wait, .other, .verify]) : Performs p outside step t := by
  simp only [List.mem_cons, List.not_mem_nil, or_false, not_or] at hkind
  obtain ⟨hwait, hother, hverify⟩ := hkind
  intro m
  obtain ⟨said, result, last, hrun, htalk, hfault⟩ := h m
  refine ⟨said, result, last, hrun, htalk, {
    fault := fun fault => ?_
    explained := fun outcome hresult => hexplains m outcome (by rw [hrun, hresult])
    idle := fun hidle => absurd hidle (not_or.mpr ⟨hwait, hother⟩) }⟩
  rw [hfault fault]
  exact (or_iff_left fun hupset => hupset.classify.elim hwait hverify).symm

theorem performs_verify (hverify : p.verifySettle.natAbs < longestDuration)
    (hkind : Step.classify step = .verify) : Performs p outside step (p.verify step) := by
  intro m
  obtain ⟨said, result, last, hrun, hsaid, hgeneric, hsearch⟩ :=
    verify_dialogue p step outside m hverify
  refine ⟨said, result, last, hrun, hsaid.talk.quiet_append (quiet_passed m _), {
    fault := fun fault => ?_
    explained := fun outcome hresult => explains_verify step m outcome (by rw [hrun, hresult])
    idle := by simp [hkind] }⟩
  by_cases htarget : Step.verifyTarget step = []
  · obtain ⟨answer, rfl, -, hfault⟩ := hgeneric htarget
    have hnone : ¬ Upset p step [⟨p.snapshotCall, answer⟩] fault := by
      rintro (⟨hwait, -⟩ | ⟨hwait, -⟩ | ⟨-, hne, -⟩ | ⟨-, hne, -⟩)
      · simp [hkind] at hwait
      · simp [hkind] at hwait
      · exact hne htarget
      · exact hne htarget
    simp [hfault fault, BreaksOff, hnone]
  · obtain ⟨asked, rfl, hverified⟩ := hsearch htarget
    rw [hverified.fault fault]
    exact unreadable_iff_upset hkind htarget fun q hq =>
      hverified.order.mem (List.mem_map_of_mem hq)

theorem performs_wait (hkind : Step.classify step = .wait) :
    Performs p outside step (p.wait step) := by
  intro m
  unfold wait
  rcases htime : Step.waitTime step p.defaultWait with count | milliseconds
  · exact ⟨[], _, m, rfl, .refl, {
      fault := fun fault => by simp [upset_wait_iff hkind, htime, BreaksOff, eq_comm]
      explained := by simp
      idle := by simp }⟩
  rcases Nat.lt_or_ge milliseconds.natAbs longestDuration with hlong | hlong
  · refine ⟨[], _, _, Task.run_bind_ok (Task.pause_of_lt hlong m) _, .silence (quiet_passed m _), {
        fault := fun fault => ?_
        explained := ?_
        idle := by simp }⟩
    · have hshort := Nat.not_le.mpr hlong
      simp [upset_wait_iff hkind, htime, BreaksOff, hshort]
    · rintro _ ⟨⟩
      trivial
  · exact ⟨[], _, m, Task.run_bind_error (Task.pause_of_le hlong m) _, .refl, {
      fault := fun fault => by simp [upset_wait_iff hkind, htime, BreaksOff, hlong, eq_comm]
      explained := by simp
      idle := by simp }⟩

theorem performs_other (hkind : Step.classify step = .other) :
    Performs p outside step (pure .passed) := by
  refine fun m => ⟨[], _, m, rfl, .refl, {
    fault := fun fault => ?_
    explained := ?_
    idle := by simp }⟩
  · have hnone : ¬ Upset p step [] fault := fun hupset => by
      simpa [hkind] using hupset.classify
    simp [BreaksOff, hnone]
  · rintro _ ⟨⟩
    trivial

/-- Carrying out a step comes to an outcome, and a step that failed says why. There is a fault only
if the browser breaks off, the time that a wait step names cannot be read or waited for, or a verify
step is shown a snapshot that is nested too deep or an address that cannot be taken apart. -/
theorem performs_perform (p : Performer) (step : Text) (data : Option Input) (outside : Outside)
    (hfill : p.fillSettle.natAbs < longestDuration)
    (hverify : p.verifySettle.natAbs < longestDuration) (m : Machine) :
    ∃ said result last, (p.perform step data).run outside m = (result, last) ∧
      Talk p.gateway outside m said last ∧ Performance p step said result := by
  suffices h : Performs p outside step (p.perform step data) from h m
  have hexplains : (p.perform step data).Gives outside Explained := explains_perform step data
  unfold perform at hexplains ⊢
  rcases hkind : Step.classify step <;> simp only [hkind] at hexplains ⊢
  case navigate => exact performs_of_relays (relays_navigate step) hexplains (by simp [hkind])
  case click => exact performs_of_relays (relays_click step) hexplains (by simp [hkind])
  case fill =>
    refine performs_of_relays ?_ hexplains (by simp [hkind])
    split
    · exact relays_fillCredentials hfill
    · exact relays_fill step data
  case verify => exact performs_verify hverify hkind
  case login => exact performs_of_relays (relays_login hfill) hexplains (by simp [hkind])
  case wait => exact performs_wait hkind
  case other => exact performs_other hkind

/-- Where no field is found, both fields are tried, and the outcome names the first. -/
theorem performs_perform_fieldless :
    usual.fillSettle.natAbs < longestDuration ∧ usual.verifySettle.natAbs < longestDuration ∧
      ∃ said last, (usual.perform "Fill in student id and password" none).run fieldless
          (Machine.bare []) = (.ok (.failed "Could not fill '学号': no field"), last) ∧
        Talk usual.gateway fieldless (Machine.bare []) said last ∧
        Performance usual "Fill in student id and password" said
          (.ok (.failed "Could not fill '学号': no field")) := by
  have hfill : usual.fillSettle.natAbs < longestDuration := by decide +kernel
  have hfailed : ((usual.perform "Fill in student id and password" none).run fieldless
      (Machine.bare [])).1.toOption = some (.failed "Could not fill '学号': no field") := by
    decide +kernel
  obtain ⟨said, result, last, hrun, htalk, hperformance⟩ := performs_perform usual
    "Fill in student id and password" none fieldless hfill usual_settle (Machine.bare [])
  rw [hrun] at hfailed
  obtain ⟨outcome, rfl⟩ : ∃ outcome, result = .ok outcome := by
    cases result with
    | error fault => exact absurd hfailed (by simp [Except.toOption])
    | ok outcome => exact ⟨outcome, rfl⟩
  obtain rfl := Option.some.inj hfailed
  exact ⟨hfill, usual_settle, said, last, hrun, htalk, hperformance⟩

/-- A wait step that names a time too long for the clock. -/
def endlessWait : Text := Text.of "wait 1" ++ List.replicate 400 ('0' : CodePoint) ++ Text.of " ms"

/-- The browser does whatever it is told, but there is a fault: the wait step names a time that is
too long, and the verify step is shown an address that cannot be taken apart. -/
theorem not_performed_endless :
    let outside := telling fun _ => "http://["
    (∀ call, usual.gateway.Answers outside call) ∧ Step.classify endlessWait = .wait ∧
      ((usual.perform endlessWait none).run outside (Machine.bare [])).1 =
        .error (.excess .duration) ∧
      ((usual.perform "verify home page" none).run outside (Machine.bare [])).1.toOption =
        none := by
  intro outside
  have hkind : Step.classify endlessWait = .wait := by decide +kernel
  have htime : Step.waitTime endlessWait usual.defaultWait = .ok (10 ^ 400) := by decide +kernel
  have hlong : longestDuration ≤ (10 ^ 400 : Int).natAbs := by decide +kernel
  refine ⟨fun _ _ => ⟨_, rfl⟩, hkind, ?_, by decide +kernel⟩
  simp only [perform, hkind, wait, htime, Task.run_bind_error (Task.pause_of_le hlong _)]

end Performer

end Acceptance
