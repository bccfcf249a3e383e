import Acceptance.Proofs.Talk
import Acceptance.Run.Install

/-! # Installing the browser

The installation gives no fault, and starts each of its commands at most once, in order.
-/

namespace Acceptance

namespace Install

variable {outside : Outside} {m m' : Machine}

/-! ## Running commands -/

theorem timeout_lt : timeout.natAbs < longestDuration := by decide +kernel

/-- A command leaves one call behind. -/
theorem run_calls (outside : Outside) (m : Machine) {argv : List Text} (hargv : argv ≠ []) (hzero : Task.hasZero argv = false) :
    ∃ r m₁ call, (ChildProcess.run argv true timeout []).run outside m = (.ok r, m₁) ∧
      Machine.Launches argv call ∧ m₁.calls = m.calls ++ [call] := by
  obtain ⟨r, hr⟩ := ChildProcess.succeeds_run outside hargv hzero timeout_lt true [] m
  have hquiet := ChildProcess.quiet_run outside m hargv hzero true timeout []
  exact ⟨r, _, _, Prod.ext hr rfl, ⟨_, _, rfl, rfl⟩, hquiet.calls⟩

/-- The commands that were started are the first of the list, in order. -/
theorem runAll_calls (outside : Outside) {list : List (List Text)} (hargv : ∀ argv ∈ list, argv ≠ [])
    (hzero : ∀ argv ∈ list, Task.hasZero argv = false) (m : Machine) :
    ∃ succeeded m' ran trace, (runAll list).run outside m = (.ok succeeded, m') ∧
      ran <+: list ∧ List.Forall₂ Machine.Launches ran trace ∧ m'.calls = m.calls ++ trace := by
  induction list generalizing m with
  | nil => exact ⟨true, m, [], [], rfl, by simp, .nil, by simp⟩
  | cons argv rest ih =>
    simp only [List.forall_mem_cons] at hargv hzero
    obtain ⟨r, m₁, call, hrun, hcall, hcalls⟩ :=
      run_calls outside m hargv.1 hzero.1
    unfold runAll
    rw [Task.run_bind_ok hrun]
    cases hr : r.success with
    | false => exact ⟨false, m₁, [argv], [call], rfl, by simp, .cons hcall .nil, hcalls⟩
    | true =>
      obtain ⟨succeeded, m', ran, trace, hrest, hprefix, htrace, hcalls'⟩ :=
        ih hargv.2 hzero.2 m₁
      refine ⟨succeeded, m', argv :: ran, call :: trace, hrest, ?_, .cons hcall htrace, ?_⟩
      · simpa using hprefix
      · rw [hcalls', hcalls, List.append_assoc]
        rfl

/-! ## The installation -/

theorem ensure_of_installed {g : Gateway} (h : m.installed.contains g.binary = true) :
    (ensure g).run outside m = (.ok true, m) := by
  unfold ensure Gateway.isInstalled Task.isInstalled
  simp only [Task.run_read_bind, h, if_true, Task.run_pure]

theorem commands_ne_nil (binary : Text) : ∀ argv ∈ commands binary, argv ≠ [] := by
  simp [commands]

theorem hasZero_commands {binary : Text} (h : Task.hasZero [binary] = false) :
    ∀ argv ∈ commands binary, Task.hasZero argv = false := by
  have hbinary : binary.any (·.val = 0) = false := by simpa [Task.hasZero] using h
  simp only [commands, List.forall_mem_cons, Task.hasZero, List.any_cons, List.any_nil, hbinary]
  decide

/-- Asking for the browser gives no fault. It starts at most the commands of the installation, each
once, and if it says that the browser is there, it is. -/
theorem ensure_spec {g : Gateway} (hzero : Task.hasZero [g.binary] = false) (outside : Outside)
    (m : Machine) :
    ∃ ready m' ran trace, (ensure g).run outside m = (.ok ready, m') ∧
      ran <+: commands g.binary ∧ List.Forall₂ Machine.Launches ran trace ∧
      m'.calls = m.calls ++ trace ∧
      (ready = true → m'.installed.contains g.binary = true) ∧
      (m.installed.contains g.binary = true → ready = true ∧ m' = m) := by
  cases hinstalled : m.installed.contains g.binary with
  | true =>
    refine ⟨true, m, [], [], ensure_of_installed hinstalled, by simp, .nil, by simp, ?_, by simp⟩
    exact fun _ => hinstalled
  | false =>
    obtain ⟨succeeded, m', ran, trace, hrun, hprefix, htrace, hcalls⟩ :=
      runAll_calls outside (commands_ne_nil g.binary) (hasZero_commands hzero) m
    unfold ensure Gateway.isInstalled Task.isInstalled
    simp only [Task.run_read_bind, hinstalled, Bool.false_eq_true, if_false]
    rw [Task.run_bind_ok hrun]
    cases succeeded with
    | false => exact ⟨false, m', ran, trace, rfl, hprefix, htrace, hcalls, by simp, by simp⟩
    | true => exact ⟨_, m', ran, trace, rfl, hprefix, htrace, hcalls, id, by simp⟩

end Install

end Acceptance
