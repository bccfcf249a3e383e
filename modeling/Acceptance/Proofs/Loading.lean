import Acceptance.Proofs.JsonPrinting
import Acceptance.Proofs.Sparing
import Acceptance.Proofs.Store

/-! # What is loaded

Loading gives out what the bytes of the project file mean. Nothing else can be loaded, so what is
known of values that were read is known of projects. -/

namespace Acceptance

variable {outside : Outside} {m m' : Machine} {p : Path} {content : List UInt8} {executable : Bool}

/-! ## Bytes -/

namespace Json

/-- The bytes are a document of the value. -/
def Means (content : List UInt8) (v : Value) : Prop :=
  ∃ t, Utf8.decode content = .ok t ∧ read (Text.withLineFeeds t) = .ok v

theorem Means.asRead {v : Value} (h : Means content v) : AsRead mostNested v := by
  obtain ⟨t, -, hread⟩ := h
  exact asRead_read hread

theorem Means.inj {v w : Value} (hv : Means content v) (hw : Means content w) : v = w := by
  obtain ⟨t, ht, hv⟩ := hv
  obtain ⟨t', ht', hw⟩ := hw
  obtain rfl : t = t' := Except.ok.inj (ht.symm.trans ht')
  exact Except.ok.inj (hv.symm.trans hw)

/-- What can be loaded is not nothing. -/
theorem Means.ne_nil {v : Value} (h : Means content v) : content ≠ [] := by
  rintro rfl
  obtain ⟨t, hdecode, hread⟩ := h
  obtain rfl : [] = t := Except.ok.inj hdecode
  exact nomatch hread

/-- What is laid out means the value that is laid out. -/
theorem means_layout {v : Value} (hkept : Kept mostNested v) (hwritable : unwritable? v = none) :
    Means ((layout 0 v "\n").flatMap Utf8.bytesOf) v := by
  have hplain : Text.Plain (layout 0 v "\n") :=
    plain_layout v (encodable_of_kept v hkept) hwritable 0 (Text.plain_of_all (by decide))
  refine ⟨_, Utf8.decode_flatMap hplain.encodes, ?_⟩
  rw [Text.withLineFeeds_of_absent fun c hc => (hplain c hc).2, read_layout hkept hwritable]

/-- A document means its value with the entries in order. -/
theorem means_document {v : Value} {document : Text} (hkept : Kept mostNested v)
    (hwrite : write v = .ok document) :
    Means (document.flatMap Utf8.bytesOf) (ordered v) := by
  obtain ⟨rfl, hwritable⟩ := write_eq hwrite
  exact means_layout (kept_ordered v hkept) hwritable

end Json

/-! ## The project file -/

/-- The project file is where its path leads, and this is in it. -/
structure Machine.HasProject (outside : Outside) (m : Machine) (p : Path) (content : List UInt8)
    (executable : Bool) : Prop where
  path : (Layout.featuresFile.run outside m).1 = .ok p
  fit : Task.pathProblem? p = none
  located : m.files.locate m.directory p = .ok (Place.ofPath m.directory p)
  file : m.files.get? (Place.ofPath m.directory p) = some (.file content executable)

namespace Project

/-- The project that the bytes of a file mean. -/
def ofContent (p : Path) (content : List UInt8) : Except Fault Project :=
  match Utf8.decode content with
  | .ok t => parse p (Text.withLineFeeds t) >>= ofValue p
  | .error problem => .error (.invalid (.undecodable problem))

theorem ofContent_eq_ok {project : Project} : ofContent p content = .ok project ↔
    Json.Means content (.object project.data) ∧
      project.data.get? "features" = some (.list project.features) := by
  constructor
  · intro h
    unfold ofContent at h
    split at h
    next t hdecode =>
      obtain ⟨v, hparse, hvalue⟩ := Json.bind_eq_ok h
      have hread : Json.read (Text.withLineFeeds t) = .ok v := by
        unfold parse at hparse
        split at hparse
        next w hw => rw [hw, Except.ok.inj hparse]
        next error herror =>
          split at hparse <;> exact absurd hparse (by simp)
      unfold ofValue at hvalue
      split at hvalue
      next data =>
        split at hvalue
        next features hfeatures =>
          rw [← Except.ok.inj hvalue]
          exact ⟨⟨t, hdecode, hread⟩, hfeatures⟩
        next => exact absurd hvalue (by simp)
      next => exact absurd hvalue (by simp)
    next => exact absurd h (by simp)
  · rintro ⟨⟨t, hdecode, hread⟩, hfeatures⟩
    unfold ofContent parse
    rw [hdecode]
    dsimp only
    rw [hread]
    show ofValue p (.object project.data) = _
    unfold ofValue
    dsimp only
    rw [hfeatures]

theorem run_load_of_file (h : m.HasProject outside p content executable) :
    load.run outside m = (ofContent p content, m) := by
  have hread := Task.run_readText_of_file outside h.fit h.located h.file
  unfold load
  rw [Task.run_bind, Layout.asks_featuresFile.run_self, h.path]
  dsimp only
  rw [Task.run_bind_ok (Task.run_pathExists_of_file h.fit h.located h.file), if_pos rfl,
    Task.run_attempt_bind, hread]
  unfold ofContent
  cases Utf8.decode content with
  | error problem => rfl
  | ok t =>
    dsimp only [Except.map, Except.mapError]
    cases parse p (Text.withLineFeeds t) with
    | error fault => rfl
    | ok v => exact Task.run_ofExcept _

/-- What is not found is not read. -/
theorem run_pathExists_true (h : (Task.pathExists p).run outside m = (.ok true, m')) :
    Task.pathProblem? p = none ∧
      m.files.locate m.directory p = .ok (Place.ofPath m.directory p) ∧
      (m.files.get? (Place.ofPath m.directory p)).isSome = true := by
  unfold Task.pathExists at h
  split at h
  · exact absurd (Prod.mk.inj h).1 (by simp)
  next hproblem =>
  rw [Task.run_read_bind] at h
  split at h
  next place hlocate =>
    have hplace := FileTree.locate_eq_ok hlocate
    rw [hplace] at hlocate h
    exact ⟨hproblem, hlocate, Except.ok.inj (Prod.mk.inj h).1⟩
  · exact absurd (Prod.mk.inj h).1 (by simp)
  · exact absurd (Prod.mk.inj h).1 (by simp)
  · exact absurd (Prod.mk.inj h).1 (by simp)

theorem load_eq_ok {project : Project} (h : load.run outside m = (.ok project, m')) :
    m' = m ∧ ∃ p content executable, m.HasProject outside p content executable ∧
      ofContent p content = .ok project := by
  have hload := h
  unfold load at h
  rw [Task.run_bind, Layout.asks_featuresFile.run_self] at h
  rcases hpath : (Layout.featuresFile.run outside m).1 with fault | p
  · rw [hpath] at h
    exact absurd (Prod.mk.inj h).1 (by simp)
  rw [hpath] at h
  obtain ⟨isThere, m₁, hexists, h⟩ := Task.run_bind_eq_ok h
  obtain rfl : m = m₁ := Task.Leaves.of_run (R := Eq) (Task.leaves_pathExists p) hexists
  cases isThere with
  | false => exact absurd (Prod.mk.inj h).1 (by simp)
  | true =>
    obtain ⟨hfit, hlocate, hsome⟩ := run_pathExists_true hexists
    obtain ⟨node, hnode⟩ := Option.isSome_iff_exists.mp hsome
    cases node with
    | file content executable =>
      have hproject : m.HasProject outside p content executable := ⟨hpath, hfit, hlocate, hnode⟩
      rw [run_load_of_file hproject] at hload
      exact ⟨(Prod.mk.inj hload).2.symm, p, content, executable, hproject, (Prod.mk.inj hload).1⟩
    | directory =>
      have hread : (Task.readText p).run outside m = (.error (.file .isADirectory p.toText), m) := by
        unfold Task.readText Task.onFiles
        rw [Task.run_bind_assoc, Task.run_checkPath_bind, hfit]
        dsimp only
        rw [Task.run_bind_assoc, Task.run_read_bind, FileTree.content, hlocate]
        dsimp only [bind, Except.bind]
        rw [hnode]
        rfl
      rw [if_pos rfl, Task.run_attempt_bind, hread] at h
      exact absurd (Prod.mk.inj h).1 (by simp)

end Project

end Acceptance
