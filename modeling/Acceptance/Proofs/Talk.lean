import Mathlib.Data.List.Forall2
import Acceptance.Browser.Gateway
import Acceptance.Proofs.Machine

/-! # Talking to the browser

The commands that a task gives to the browser one after the other, each with its answer. What such a
talk leaves behind follows by induction on its commands.
-/

namespace Acceptance

/-- A command given to the browser, and what came of it. -/
structure Exchange where
  call : BrowserCall
  answer : Except Fault CommandResult

namespace Exchange

/-- The browser answered that the command succeeded. -/
def Succeeded (e : Exchange) : Prop := ∃ r, e.answer = .ok r ∧ r.success = true

/-- The browser answered that the command failed; it did not break off. -/
def Failed (e : Exchange) : Prop := ∃ r, e.answer = .ok r ∧ r.success = false

end Exchange

namespace Gateway

variable (g : Gateway)

/-- Gives a command to the browser. -/
def give (call : BrowserCall) : Task CommandResult := g.run call.args call.silent call.timeout

/-- Does a command get through? A program is not started with a zero character. -/
def reaches (call : BrowserCall) : Bool :=
  match g with
  | .direct _ => true
  | .program binary _ _ => !Task.hasZero (binary :: call.args)

/-- The call hands the command over. -/
def Shows (call : BrowserCall) (c : Call) : Prop :=
  match g with
  | .direct _ => ∃ time, c = .browse time call
  | .program binary _ _ => Machine.Launches (binary :: call.args) c

variable {g} {outside : Outside} {m : Machine} {call : BrowserCall}

theorem give_of_not_reaches (h : g.reaches call = false) :
    (g.give call).run outside m = (.error (.invalid .zeroCharacter), m) := by
  cases g with
  | direct binary => simp [reaches] at h
  | program binary timeout environment =>
    simp only [reaches, Bool.not_eq_eq_eq_not, Bool.not_false] at h
    exact ChildProcess.run_of_hasZero h _ _ _

/-- A command that gets through is one call, and quiet follows. -/
theorem quiet_give (outside : Outside) (m : Machine) (h : g.reaches call = true) :
    ∃ c effect, g.Shows call c ∧ Machine.Does outside effect ∧
      (m.after c effect).Quiet ((g.give call).run outside m).2 := by
  cases g with
  | direct binary =>
    refine ⟨.browse m.elapsed call, _, ⟨_, rfl⟩, .browse m.calls call, ?_⟩
    simp only [give, run, runWith, Task.run_browse_bind]
    split <;> exact Machine.Quiet.rfl
  | program binary timeout environment =>
    simp only [reaches, Bool.not_eq_eq_eq_not, Bool.not_true] at h
    have hquiet := ChildProcess.quiet_run outside m (by simp) h call.silent
      (limit timeout call.timeout) environment
    exact ⟨_, _, ⟨_, _, rfl, rfl⟩, .launch _ _, hquiet⟩

end Gateway

/-! ## Commands in order -/

/-- From the first machine to the second these commands were given, and no other program was called.
What else the machine went through is left open. -/
inductive Commanded (g : Gateway) (outside : Outside) :
    Machine → List Exchange → Machine → Prop where
  | rest {m m'} : m'.calls = m.calls → Commanded g outside m [] m'
  | said {m m₁ m₂ m' call answer rest} :
    m₁.calls = m.calls → (g.give call).run outside m₁ = (answer, m₂) →
    Commanded g outside m₂ rest m' → Commanded g outside m (⟨call, answer⟩ :: rest) m'

namespace Commanded

variable {g : Gateway} {outside : Outside} {m m₁ m' : Machine} {es fs : List Exchange}

theorem rest_append (hcalls : m₁.calls = m.calls) (h : Commanded g outside m₁ es m') :
    Commanded g outside m es m' := by
  cases h with
  | rest h => exact .rest (h.trans hcalls)
  | said h hgive hrest => exact .said (h.trans hcalls) hgive hrest

theorem append (h : Commanded g outside m es m₁) (k : Commanded g outside m₁ fs m') :
    Commanded g outside m (es ++ fs) m' := by
  induction h with
  | rest hcalls => exact k.rest_append hcalls
  | said hcalls hgive _ ih => exact .said hcalls hgive (ih k)

/-- The commands that got through were written down in order, and no other call was. -/
theorem calls (h : Commanded g outside m es m') :
    ∃ trace, m'.calls = m.calls ++ trace ∧
      List.Forall₂ (fun e c => g.Shows e.call c) (es.filter (g.reaches ·.call)) trace := by
  induction h with
  | rest h => exact ⟨[], by simp [h]⟩
  | @said m m₁ m₂ m' call answer rest h hgive _ ih =>
    obtain ⟨trace, hcalls, htrace⟩ := ih
    cases hreach : g.reaches call with
    | false =>
      rw [Gateway.give_of_not_reaches hreach, Prod.mk.injEq] at hgive
      refine ⟨trace, ?_, ?_⟩
      · rw [hcalls, ← hgive.2, h]
      · rwa [List.filter_cons_of_neg (by simp [hreach])]
    | true =>
      obtain ⟨c, effect, hc, -, hafter⟩ := Gateway.quiet_give outside m₁ hreach
      rw [hgive] at hafter
      refine ⟨c :: trace, ?_, ?_⟩
      · rw [hcalls, hafter.calls, Machine.after_calls, h, List.append_assoc]
        rfl
      · rw [List.filter_cons_of_pos (by simp [hreach])]
        exact .cons hc htrace

end Commanded

/-- From the first machine to the second these commands were given, and nothing else happened that
another program could tell. -/
inductive Talk (g : Gateway) (outside : Outside) : Machine → List Exchange → Machine → Prop where
  | silence {m m'} : m.Quiet m' → Talk g outside m [] m'
  | said {m m₁ m₂ m' call answer rest} :
    m.Quiet m₁ → (g.give call).run outside m₁ = (answer, m₂) → Talk g outside m₂ rest m' →
    Talk g outside m (⟨call, answer⟩ :: rest) m'

namespace Talk

variable {g : Gateway} {outside : Outside} {m m₁ m' : Machine} {es fs : List Exchange}

theorem refl : Talk g outside m [] m := .silence .rfl

theorem quiet_append (hquiet : m.Quiet m₁) (h : Talk g outside m₁ es m') :
    Talk g outside m es m' := by
  cases h with
  | silence h => exact .silence (trans_of Machine.Quiet hquiet h)
  | said h hgive hrest => exact .said (trans_of Machine.Quiet hquiet h) hgive hrest

theorem append (h : Talk g outside m es m₁) (k : Talk g outside m₁ fs m') :
    Talk g outside m (es ++ fs) m' := by
  induction h with
  | silence hquiet => exact k.quiet_append hquiet
  | said hquiet hgive _ ih => exact .said hquiet hgive (ih k)

theorem append_quiet (h : Talk g outside m es m₁) (hquiet : m₁.Quiet m') :
    Talk g outside m es m' := by
  have := h.append (.silence hquiet)
  rwa [List.append_nil] at this

/-- Giving one command. -/
theorem single (g : Gateway) (outside : Outside) (m : Machine) (call : BrowserCall) :
    Talk g outside m [⟨call, ((g.give call).run outside m).1⟩] ((g.give call).run outside m).2 :=
  .said .rfl rfl .refl

/-! ## What it leaves behind -/

/-- What is the same before and after each command is the same before and after the talk. -/
theorem preserves {P : Machine → Prop} (hquiet : ∀ {m m'}, m.Quiet m' → P m → P m')
    (hcall : ∀ {m} call {effect}, Machine.Does outside effect → P m → P (m.after call effect))
    (h : Talk g outside m es m') (hm : P m) : P m' := by
  induction h with
  | silence h => exact hquiet h hm
  | @said m m₁ m₂ m' call answer rest h hgive _ ih =>
    apply ih
    have hm₁ := hquiet h hm
    cases hreach : g.reaches call with
    | false =>
      rw [Gateway.give_of_not_reaches hreach, Prod.mk.injEq] at hgive
      exact hgive.2 ▸ hm₁
    | true =>
      obtain ⟨c, effect, -, hdoes, hafter⟩ := Gateway.quiet_give outside m₁ hreach
      rw [hgive] at hafter
      exact hquiet hafter (hcall c hdoes hm₁)

theorem setting (h : Talk g outside m es m') : m'.setting = m.setting :=
  h.preserves (P := fun m' => m'.setting = m.setting) (fun h hm => h.setting.trans hm)
    (fun _ _ _ hm => hm) rfl

/-- Programs that stay installed are installed afterwards. -/
theorem installed {name : Text}
    (hkeeps : ∀ effect, Machine.Does outside effect → ∀ place s,
      s.installed.contains name = true → (effect place s).installed.contains name = true)
    (h : Talk g outside m es m') (hm : m.installed.contains name = true) :
    m'.installed.contains name = true := by
  refine h.preserves (P := fun m => m.installed.contains name = true) ?_ ?_ hm
  · intro m m' hquiet hm
    rwa [hquiet.installed]
  · intro m call effect hdoes hm
    exact hkeeps effect hdoes m.directory m.toSurroundings hm

theorem printed (h : Talk g outside m es m') : m'.printed = m.printed :=
  h.preserves (P := fun m' => m'.printed = m.printed) (fun h hm => h.printed.trans hm)
    (fun _ _ _ hm => hm) rfl

theorem commanded (h : Talk g outside m es m') : Commanded g outside m es m' := by
  induction h with
  | silence h => exact .rest h.calls
  | said h hgive _ ih => exact .said h.calls hgive ih

/-- The commands that got through were written down in order, and no other call was. -/
theorem calls (h : Talk g outside m es m') :
    ∃ trace, m'.calls = m.calls ++ trace ∧
      List.Forall₂ (fun e c => g.Shows e.call c) (es.filter (g.reaches ·.call)) trace :=
  h.commanded.calls

/-- What is true of every call that shows one of the commands is true of all calls. -/
theorem forall_calls {P : Call → Prop} {trace : List Call}
    (htrace : List.Forall₂ (fun e c => g.Shows e.call c) (es.filter (g.reaches ·.call)) trace)
    (h : ∀ e ∈ es, ∀ c, g.Shows e.call c → P c) : ∀ c ∈ trace, P c := by
  have hreached : ∀ e ∈ es.filter (g.reaches ·.call), ∀ c, g.Shows e.call c → P c :=
    fun e he => h e (List.mem_of_mem_filter he)
  generalize es.filter (g.reaches ·.call) = reached at htrace hreached
  induction htrace with
  | nil => simp
  | cons hshows _ ih =>
    simp only [List.forall_mem_cons] at hreached ⊢
    exact ⟨hreached.1 _ hshows, ih hreached.2⟩

end Talk

/-! ## Talks of a kind -/

/-- Commands of a kind were given, and nothing else happened. -/
def Tells (g : Gateway) (outside : Outside) (kind : BrowserCall → Prop) (m m' : Machine) : Prop :=
  ∃ es, Talk g outside m es m' ∧ ∀ e ∈ es, kind e.call

section

variable {g : Gateway} {outside : Outside} {kind : BrowserCall → Prop} {m m' : Machine}

instance : IsPreorder Machine (Tells g outside kind) where
  refl _ := ⟨[], .refl, by simp⟩
  trans _ _ _ := by
    rintro ⟨es, hes, hkind⟩ ⟨fs, hfs, hkind'⟩
    refine ⟨es ++ fs, hes.append hfs, fun e he => ?_⟩
    rcases List.mem_append.mp he with he | he
    · exact hkind e he
    · exact hkind' e he

theorem Tells.of_quiet (h : m.Quiet m') : Tells g outside kind m m' :=
  ⟨[], .silence h, by simp⟩

theorem tells_give (call : BrowserCall) (h : kind call) :
    (g.give call).Leaves outside (Tells g outside kind) := by
  intro m
  refine ⟨_, .single g outside m call, fun e he => ?_⟩
  rw [List.mem_singleton.mp he]
  exact h

end

end Acceptance
