import Acceptance.Project.Layout
import Acceptance.Proofs.Task

/-! # Where things are, asked again

The places of a project and its time depend on the setting alone, so they are the same whenever they
are asked for.
-/

namespace Acceptance

/-! ## Homes and variables -/

namespace Task

theorem asks_environment? (name : Text) : (environment? name).Asks := by
  apply asks_read
  intro m m' h
  simp only [Machine.setting, Setting.mk.injEq] at h
  rw [h.2.1]

theorem asks_setVariable? (name : Text) : (setVariable? name).Asks :=
  asks_bind (asks_environment? name) fun _ => asks_pure _

theorem asks_homeOf (user : Text) : (read fun m => Environment.get? m.homes user).Asks := by
  apply asks_read
  intro m m' h
  simp only [Machine.setting, Setting.mk.injEq] at h
  rw [h.2.2.1]

theorem asks_lookUpHome (part : Text) : (lookUpHome part).Asks := by
  unfold lookUpHome
  apply asks_ite
  · apply asks_bind (asks_environment? _)
    rintro (_ | home)
    · apply asks_bind (asks_homeOf _)
      rintro (_ | home) <;> exact asks_pure _
    · apply asks_bind (asks_pure _)
      rintro (_ | home) <;> exact asks_pure _
  · apply asks_bind (asks_homeOf _)
    rintro (_ | home) <;> exact asks_pure _

theorem asks_expandHome (p : Path) : (expandHome p).Asks := by
  unfold expandHome
  split
  · exact asks_pure _
  · apply asks_ite (asks_pure _)
    apply asks_bind (asks_lookUpHome _)
    intro home
    exact asks_ite (asks_fail _) (asks_pure _)

theorem asks_currentDirectory : currentDirectory.Asks := by
  apply asks_read
  intro m m' h
  simp only [Machine.setting, Setting.mk.injEq] at h
  rw [h.1]

end Task

namespace Layout

/-! ## Time -/

theorem asks_now : now.Asks := by
  apply Task.asks_bind (Task.asks_setVariable? _)
  rintro (_ | written)
  · apply Task.asks_read
    intro m m' h
    simp only [Machine.setting, Setting.mk.injEq] at h
    exact h.2.2.2.2
  · dsimp only
    split
    · exact Task.asks_pure _
    · exact Task.asks_fail _

theorem asks_stamp : stamp.Asks := Task.asks_bind asks_now fun _ => Task.asks_pure _

/-! ## Directories -/

theorem asks_projectDirectory : projectDirectory.Asks := by
  apply Task.asks_bind (Task.asks_setVariable? _)
  rintro (_ | t)
  · exact Task.asks_currentDirectory
  · exact Task.asks_expandHome _

theorem asks_agentDirectory : agentDirectory.Asks :=
  Task.asks_bind asks_projectDirectory fun _ => Task.asks_pure _

theorem asks_featuresFile : featuresFile.Asks :=
  Task.asks_bind asks_projectDirectory fun _ => Task.asks_pure _

theorem asks_runsDirectory : runsDirectory.Asks :=
  Task.asks_bind asks_agentDirectory fun _ => Task.asks_pure _

theorem asks_fromProject (p : Path) : (fromProject p).Asks :=
  Task.asks_ite (Task.asks_pure _) (Task.asks_bind asks_projectDirectory fun _ => Task.asks_pure _)

theorem asks_screenshotsDirectory (given : Option Text) : (screenshotsDirectory given).Asks := by
  unfold screenshotsDirectory
  split
  · exact Task.asks_bind asks_agentDirectory fun _ => Task.asks_pure _
  · exact Task.asks_bind asks_agentDirectory fun _ => Task.asks_pure _
  · exact Task.asks_bind (Task.asks_expandHome _) fun p => asks_fromProject p

end Layout

end Acceptance
