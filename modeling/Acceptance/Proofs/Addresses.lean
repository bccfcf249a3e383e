import Mathlib.Data.List.DropRight
import Mathlib.Data.List.TakeDrop
import Acceptance.Proofs.Verifying

/-! # The address of a page, there and back

A page is opened at its path below the base address, and it is found again by the path of the
address that the browser tells. Both agree for a base address without a path of its own. -/

namespace Acceptance

/-! ## Cutting -/

namespace Text

variable {p : CodePoint → Bool} {s t : Text}

theorem cutAt_of_absent {sep : CodePoint} (h : sep ∉ t) : cutAt sep t = (t, none) := by
  induction t with
  | nil => rfl
  | cons c rest ih =>
    rw [List.mem_cons, not_or] at h
    rw [cutAt, if_neg (Ne.symm h.1), ih h.2]

theorem cutAt_append {sep : CodePoint} (h : sep ∉ t) (rest : Text) :
    cutAt sep (t ++ sep :: rest) = (t, some rest) := by
  induction t with
  | nil => simp [cutAt]
  | cons c t ih =>
    rw [List.mem_cons, not_or] at h
    rw [List.cons_append, cutAt, if_neg (Ne.symm h.1), ih h.2]

/-- What stays of the second text keeps the first. -/
theorem trimRightWhere_append (s : Text) (h : ∃ c ∈ t, p c = false) :
    trimRightWhere p (s ++ t) = s ++ trimRightWhere p t := by
  have hstays : t.reverse.dropWhile p ≠ [] := by simpa [List.dropWhile_eq_nil_iff] using h
  unfold trimRightWhere
  rw [List.reverse_append, List.dropWhile_append, if_neg (by simpa using hstays),
    List.reverse_append, List.reverse_reverse]

/-- A text that has nothing to trim is kept, whatever follows it. -/
theorem trimRightWhere_append_of_trimmed (h : trimRightWhere p s = s) (t : Text) :
    trimRightWhere p (s ++ t) = s ++ trimRightWhere p t := by
  by_cases hstays : ∃ c ∈ t, p c = false
  · exact trimRightWhere_append s hstays
  · have hall : ∀ c ∈ t, p c = true := by simpa using hstays
    have hnone : trimRightWhere p t = [] := List.rdropWhile_eq_nil_iff.mpr hall
    rw [hnone, List.append_nil]
    unfold trimRightWhere at h ⊢
    rw [List.reverse_append, List.dropWhile_append_of_pos (by simpa using hall), h]

theorem trimRightWhere_of_forall (h : ∀ c ∈ t, p c = false) : trimRightWhere p t = t := by
  refine List.rdropWhile_eq_self_iff.mpr fun hne => ?_
  simp [h _ (List.getLast_mem hne)]

theorem trimLeftWhere_cons {c : CodePoint} (h : p c = false) (t : Text) :
    trimLeftWhere p (c :: t) = c :: t := List.dropWhile_cons_of_neg (by simp [h])

end Text

namespace Evidence

theorem withoutSlashes_eq_nil {t : Text} : withoutSlashes t = [] ↔ ∀ c ∈ t, c = '/' := by
  simp [withoutSlashes, Text.trimRightWhere]

theorem withoutSlashes_append (s : Text) {t : Text} (h : withoutSlashes t ≠ []) :
    withoutSlashes (s ++ t) = s ++ withoutSlashes t := by
  apply Text.trimRightWhere_append
  simpa [withoutSlashes_eq_nil] using h

end Evidence

/-! ## The parts of an address -/

namespace Url

/-- Where a site is: a scheme, and a host with its port. -/
structure Site where
  scheme : Text
  host : Text

namespace Site

/-- An address of the site, with what follows the host. -/
def address (s : Site) (rest : Text) : Text := s.scheme ++ "://" ++ s.host ++ rest

/-- The scheme is a letter and what may follow it, and the host is accepted as it is. -/
structure WellFormed (s : Site) : Prop where
  letter : ∃ c rest, s.scheme = c :: rest ∧ c.isAsciiLetter = true
  scheme : ∀ c ∈ s.scheme, isSchemeChar c = true
  host_ne_nil : s.host ≠ []
  host_chars : ∀ c ∈ s.host, isHostEnd c = false ∧ isLeftOut c = false
  host : hostProblem? s.host = none

end Site

/-- A path starts with a slash; it ends before a query or a fragment. -/
structure IsPath (t : Text) : Prop where
  start : t.head? = some ('/' : CodePoint)
  chars : ∀ c ∈ t, c ≠ '?' ∧ c ≠ '#'

theorem IsPath.exists_eq {t : Text} (h : IsPath t) : ∃ rest, t = "/" ++ rest := by
  cases t with
  | nil => exact absurd h.start (by simp)
  | cons c rest => exact ⟨rest, by rw [Option.some.inj h.start]; rfl⟩

theorem isSchemeChar_bounds {c : CodePoint} (h : isSchemeChar c = true) :
    0x2B ≤ c.val ∧ c.val ≠ 0x3A := by
  simp only [isSchemeChar, CodePoint.isAsciiLetter, CodePoint.isAsciiDigit, Bool.or_eq_true,
    Bool.and_eq_true, decide_eq_true_eq] at h
  rcases h with (((h | h) | rfl) | rfl) | rfl
  · omega
  · omega
  · decide
  · decide
  · decide

theorem isLeftOut_of_large {c : CodePoint} (h : 0x2B ≤ c.val) : isLeftOut c = false := by
  simp only [isLeftOut, Bool.or_eq_false_iff, decide_eq_false_iff_not]
  refine ⟨⟨?_, ?_⟩, ?_⟩ <;> rintro rfl <;> exact absurd h (by decide)

/-! ## The path of an address -/

section

variable {s : Site} (hs : s.WellFormed)
include hs

/-- Of scheme and host nothing is left out. -/
theorem cleaned_address (rest : Text) :
    ((s.address rest).dropWhile (·.val ≤ 0x20)).filter (!isLeftOut ·) =
      s.address (rest.filter (!isLeftOut ·)) := by
  have hscheme : s.scheme.filter (!isLeftOut ·) = s.scheme := by
    simpa using fun c hc => isLeftOut_of_large (isSchemeChar_bounds (hs.scheme c hc)).1
  have hhost : s.host.filter (!isLeftOut ·) = s.host := by
    simpa using fun c hc => (hs.host_chars c hc).2
  have hstart : (s.address rest).dropWhile (·.val ≤ 0x20) = s.address rest := by
    obtain ⟨c, after, heq, -⟩ := hs.letter
    have hc := isSchemeChar_bounds (hs.scheme c (by simp [heq]))
    unfold Site.address
    rw [heq]
    exact List.dropWhile_cons_of_neg (by simp; omega)
  rw [hstart]
  unfold Site.address
  rw [List.filter_append, List.filter_append, List.filter_append, hscheme, hhost]
  rfl

theorem cutScheme_address (rest : Text) :
    ∃ small, cutScheme (s.address rest) = (small, "//" ++ s.host ++ rest) := by
  have hcolon : (':' : CodePoint) ∉ s.scheme := fun h =>
    absurd rfl (isSchemeChar_bounds (hs.scheme _ h)).2
  have hscheme : (s.scheme.head?.any CodePoint.isAsciiLetter && s.scheme.all isSchemeChar) = true := by
    obtain ⟨c, after, heq, hc⟩ := hs.letter
    rw [List.all_eq_true.mpr hs.scheme, heq]
    simp [hc]
  have hcut : Text.cutAt ':' (s.address rest) = (s.scheme, some ("//" ++ s.host ++ rest)) := by
    unfold Site.address
    rw [List.append_assoc, List.append_assoc]
    exact Text.cutAt_append hcolon _
  unfold cutScheme
  rw [hcut]
  dsimp only
  rw [if_pos hscheme]
  exact ⟨_, rfl⟩

theorem cutHost_append {path : Text} (hpath : IsPath path) :
    cutHost ("//" ++ s.host ++ path) = (s.host, path) := by
  have hhost : ∀ c ∈ s.host, (!isHostEnd c) = true := by
    simpa using fun c hc => (hs.host_chars c hc).1
  have hspan : (s.host ++ path).span (!isHostEnd ·) = (s.host, path) := by
    obtain ⟨rest, rfl⟩ := hpath.exists_eq
    rw [List.span_eq_takeWhile_dropWhile, List.takeWhile_append_of_pos hhost,
      List.dropWhile_append_of_pos hhost]
    simp [Text.of, isHostEnd]
  rw [List.append_assoc]
  exact hspan

omit hs in
/-- A last segment without a semicolon has no parameters. -/
theorem withoutParameters_append (front : Text) {last : Text} (h : (';' : CodePoint) ∉ last) :
    withoutParameters (front ++ "/" ++ last) = front ++ "/" ++ last := by
  let isInside : CodePoint → Bool := (· ≠ ('/' : CodePoint))
  -- Seen from the end, the last segment stops at the slash before `last` at the latest.
  have hlast : (front ++ "/" ++ last).rtakeWhile isInside = last.rtakeWhile isInside := by
    have hstops : (Text.of "/" ++ front.reverse).takeWhile isInside = [] := rfl
    unfold List.rtakeWhile
    rw [List.reverse_append, List.reverse_append, show (Text.of "/").reverse = Text.of "/" from rfl,
      List.takeWhile_append, hstops, List.append_nil]
    split
    next hall => rw [(List.takeWhile_prefix _).eq_of_length hall]
    next => rfl
  have hnone : (';' : CodePoint) ∉ (front ++ "/" ++ last).rtakeWhile isInside := fun hmem =>
    h ((List.rtakeWhile_suffix isInside last).mem (hlast ▸ hmem))
  have hsuffix := List.suffix_iff_eq_append.mp
    (List.rtakeWhile_suffix isInside (front ++ "/" ++ last))
  unfold withoutParameters
  dsimp only
  rw [show ((front ++ "/" ++ last).reverse.takeWhile isInside).reverse =
    (front ++ "/" ++ last).rtakeWhile isInside from rfl, Text.cutAt_of_absent hnone, hsuffix]

/-- The path of an address is what follows the host, but for what is left out of it. -/
theorem path_address {front last : Text} (hpath : IsPath (front ++ "/" ++ last))
    (hlast : (';' : CodePoint) ∉ last) :
    Url.path (s.address (front ++ "/" ++ last)) =
      .ok ((front ++ "/" ++ last).filter (!isLeftOut ·)) := by
  have hkept : IsPath ((front ++ "/" ++ last).filter (!isLeftOut ·)) := by
    refine ⟨?_, fun c hc => hpath.chars c (List.mem_of_mem_filter hc)⟩
    obtain ⟨rest, hrest⟩ := hpath.exists_eq
    rw [hrest, List.filter_append]
    rfl
  have hparameters : withoutParameters ((front ++ "/" ++ last).filter (!isLeftOut ·)) =
      (front ++ "/" ++ last).filter (!isLeftOut ·) := by
    rw [List.filter_append, List.filter_append]
    exact withoutParameters_append _ fun h => hlast (List.mem_of_mem_filter h)
  obtain ⟨small, hcut⟩ := cutScheme_address hs ((front ++ "/" ++ last).filter (!isLeftOut ·))
  unfold Url.path
  rw [cleaned_address hs]
  dsimp only
  rw [hcut]
  dsimp only
  rw [cutHost_append hs hkept]
  dsimp only
  rw [hs.host, Text.cutAt_of_absent fun h => (hkept.chars _ h).2 rfl,
    Text.cutAt_of_absent fun h => (hkept.chars _ h).1 rfl]
  dsimp only
  rw [hparameters, ite_self]

end

end Url

/-! ## Opening a page and finding it -/

namespace Performer

open Evidence (isAtRoute withoutSlashes)

variable {p : Performer} {site : Url.Site} {below path : Text}

/-- The part of an address that shows of a path below the base: what the path of the base does not
end with stands before it, and blanks at the end and line ends are lost. -/
def shownPath (below path : Text) : Text :=
  (Text.trimRight (withoutSlashes below ++ "/" ++ Text.trimLeftWhere (· = '/') path)).filter
    (!Url.isLeftOut ·)

theorem resolveUrl_path (hbase : p.baseUrl = site.address below) (hsite : site.WellFormed)
    (hpath : Url.IsPath path) :
    p.resolveUrl path =
      site.address (withoutSlashes below ++ "/" ++ Text.trimLeftWhere (· = '/') path) := by
  have hrelative : Step.isAbsoluteUrl path = false := by
    obtain ⟨rest, rfl⟩ := hpath.exists_eq
    rfl
  -- The slashes that the base address loses are those of its path: a host has none.
  have hhost : ∀ c ∈ site.host, decide (c = ('/' : CodePoint)) = false := by
    intro c hc
    have hend := (hsite.host_chars c hc).1
    simp only [Url.isHostEnd, Bool.or_eq_false_iff] at hend
    exact hend.1.1
  have htrimmed : withoutSlashes (site.scheme ++ "://" ++ site.host) =
      site.scheme ++ "://" ++ site.host := by
    obtain ⟨c, hc⟩ := List.exists_mem_of_ne_nil _ hsite.host_ne_nil
    unfold withoutSlashes
    rw [Text.trimRightWhere_append _ ⟨c, hc, hhost c hc⟩, Text.trimRightWhere_of_forall hhost]
  have hfront : withoutSlashes p.baseUrl =
      site.scheme ++ "://" ++ site.host ++ withoutSlashes below := by
    rw [hbase]
    exact Text.trimRightWhere_append_of_trimmed htrimmed below
  unfold resolveUrl
  rw [hrelative, hfront]
  simp only [Url.Site.address, List.append_assoc, Bool.false_eq_true, if_false]

/-- A slash is no blank, so nothing before it is trimmed. -/
theorem trimRight_append_slash (front last : Text) :
    Text.trimRight (front ++ "/" ++ last) = front ++ "/" ++ Text.trimRight last := by
  have hslash : Text.trimRight "/" = "/" := by decide
  unfold Text.trimRight at hslash ⊢
  rw [List.append_assoc, Text.trimRightWhere_append front ⟨'/', by simp [Text.of], by decide⟩,
    Text.trimRightWhere_append_of_trimmed hslash, List.append_assoc]

theorem trim_address (hsite : site.WellFormed) (front last : Text) :
    Text.trim (site.address (front ++ "/" ++ last)) =
      site.address (front ++ "/" ++ Text.trimRight last) := by
  obtain ⟨c, after, heq, hletter⟩ := hsite.letter
  have hc : c.isBlank = false := by
    simp only [CodePoint.isAsciiLetter, Bool.or_eq_true, Bool.and_eq_true, decide_eq_true_eq]
      at hletter
    simp only [CodePoint.isBlank, CodePoint.isIn, blankRanges, List.any_cons, List.any_nil,
      Bool.or_eq_false_iff, Bool.and_eq_false_iff, decide_eq_false_iff_not, and_true]
    omega
  have hstart : Text.trimLeft (site.address (front ++ "/" ++ last)) =
      site.address (front ++ "/" ++ last) := by
    unfold Url.Site.address
    rw [heq]
    exact Text.trimLeftWhere_cons hc _
  unfold Text.trim
  rw [hstart]
  unfold Url.Site.address
  rw [← List.append_assoc, ← List.append_assoc, trimRight_append_slash]
  simp only [List.append_assoc]

theorem isPath_below {front last : Text} (hfront : front = [] ∨ Url.IsPath front)
    (hlast : ∀ c ∈ last, c ≠ '?' ∧ c ≠ '#') : Url.IsPath (front ++ "/" ++ last) := by
  refine ⟨?_, fun c hc => ?_⟩
  · rcases hfront with rfl | hfront
    · rfl
    · obtain ⟨rest, rfl⟩ := hfront.exists_eq
      rfl
  · simp only [List.mem_append] at hc
    rcases hc with (hc | hc) | hc
    · rcases hfront with rfl | hfront
      · exact absurd hc (by simp)
      · exact hfront.chars c hc
    · rw [List.mem_singleton.mp hc]
      decide
    · exact hlast c hc

theorem isAtRoute_resolveUrl (hbase : p.baseUrl = site.address below) (hsite : site.WellFormed)
    (hbelow : below = [] ∨ Url.IsPath below) (hpath : Url.IsPath path)
    (hplain : (';' : CodePoint) ∉ path) :
    isAtRoute (p.resolveUrl path) path =
      .ok (decide (withoutSlashes (shownPath below path) = withoutSlashes path)) := by
  have hfront : withoutSlashes below = [] ∨ Url.IsPath (withoutSlashes below) := by
    have hpart : withoutSlashes below <+: below := List.rdropWhile_prefix _ _
    rcases hbelow with rfl | hbelow
    · exact .inl (List.prefix_nil.mp hpart)
    rcases hparts : withoutSlashes below with _ | ⟨c, rest⟩
    · exact .inl rfl
    · rw [hparts] at hpart
      refine .inr ⟨?_, fun d hd => hbelow.chars d (hpart.mem hd)⟩
      obtain ⟨after, rfl⟩ := hpart
      exact hbelow.start
  have hlast : Text.trimRight (Text.trimLeftWhere (· = '/') path) <:+: path :=
    (List.rdropWhile_prefix _ _).isInfix.trans (List.dropWhile_suffix _).isInfix
  have hshown := isPath_below hfront fun c hc => hpath.chars c (hlast.mem hc)
  have haddress := Url.path_address hsite hshown fun hc => hplain (hlast.mem hc)
  rw [resolveUrl_path hbase hsite hpath]
  unfold isAtRoute shownPath
  rw [trim_address hsite, haddress, trimRight_append_slash]
  rfl

/-! ### Paths that are shown as they are -/

/-- A path with one slash at its start, without tabs and line ends, and without blanks at its end. -/
structure IsPlain (path : Text) : Prop where
  start : ∃ rest, path = "/" ++ rest ∧ rest.head? ≠ some ('/' : CodePoint)
  kept : ∀ c ∈ path, Url.isLeftOut c = false
  tight : Text.trimRight path = path

/-- The page that is opened at the path is found again by its address. -/
def FoundAgain (below path : Text) : Prop :=
  withoutSlashes (shownPath below path) = withoutSlashes path

instance (below path : Text) : Decidable (FoundAgain below path) :=
  inferInstanceAs (Decidable (withoutSlashes (shownPath below path) = withoutSlashes path))

theorem shownPath_of_isPlain (hplain : IsPlain path) :
    shownPath below path = (withoutSlashes below).filter (!Url.isLeftOut ·) ++ path := by
  obtain ⟨rest, hrest, hstart⟩ := hplain.start
  have hslashes : Text.trimLeftWhere (· = '/') path = rest := by
    rw [hrest]
    cases rest with
    | nil => rfl
    | cons c rest =>
      have hc : c ≠ '/' := by simpa using hstart
      simp [Text.of, Text.trimLeftWhere, hc]
  have htight : "/" ++ Text.trimRight rest = path := by
    have htrim := trimRight_append_slash [] rest
    rw [List.nil_append, ← hrest, hplain.tight] at htrim
    exact htrim.symm
  have hkept : path.filter (!Url.isLeftOut ·) = path := by simpa using hplain.kept
  unfold shownPath
  rw [hslashes, trimRight_append_slash, List.append_assoc, htight, List.filter_append, hkept]

/-- A plain path is found again exactly if the base address has no path of its own. -/
theorem foundAgain_iff (hplain : IsPlain path) (hbelow : ∀ c ∈ below, Url.isLeftOut c = false) :
    FoundAgain below path ↔ withoutSlashes below = [] := by
  have hpart : withoutSlashes below <+: below := List.rdropWhile_prefix _ _
  have hkept : (withoutSlashes below).filter (!Url.isLeftOut ·) = withoutSlashes below := by
    simpa using fun c hc => hbelow c (hpart.mem hc)
  unfold FoundAgain
  rw [shownPath_of_isPlain hplain, hkept]
  by_cases hpath : withoutSlashes path = []
  · -- The path is nothing but slashes, and they are dropped with those at the end of the base.
    have hslashes := Evidence.withoutSlashes_eq_nil.mp hpath
    have hdropped : withoutSlashes (withoutSlashes below ++ path) = withoutSlashes below := by
      unfold withoutSlashes Text.trimRightWhere
      rw [List.reverse_append, List.dropWhile_append_of_pos (by simpa using hslashes)]
      exact List.rdropWhile_idempotent _ below
    rw [hdropped, hpath]
  · rw [Evidence.withoutSlashes_append _ hpath, List.append_left_eq_self]

/-! ### Opening and verifying -/

theorem navigateTarget_eq {step : Text} (hroute : p.routes.resolve (Step.cleanTarget step) = some path)
    (hpath : Url.IsPath path) (hrelative : Step.isAbsoluteUrl (Step.cleanTarget step) = false) :
    Step.navigateTarget step p.routes = path := by
  obtain ⟨rest, rfl⟩ := hpath.exists_eq
  unfold Step.navigateTarget
  simp only [hrelative, hroute]
  rfl

/-- The address that the browser tells is compared with the route of the text. -/
theorem addressShows_of_told {outside : Outside} {m m' : Machine} {r : CommandResult}
    {target route : Text} (hroute : p.routes.resolve target = some route)
    (hgive : (p.gateway.give p.addressCall).run outside m = (.ok r, m')) (hr : r.success = true) :
    (p.addressShows target).run outside m =
      ((isAtRoute r.output route).mapError fun problem => .invalid (.address problem), m') := by
  have hcommand : p.command ["url"] p.timeouts.read = p.gateway.give p.addressCall := rfl
  unfold addressShows
  rw [hroute]
  dsimp only
  rw [hcommand, Task.run_bind_ok hgive, hr]
  cases hat : isAtRoute r.output route <;> rfl

/-- The command that opens an address. -/
def openCall (p : Performer) (url : Text) : BrowserCall :=
  { args := ["open", url], silent := true, timeout := some p.timeouts.navigate }

/-- The base address is a host with any path below it, and the text names a route. Navigating to the
text opens the route below the base address, by one command. When the browser then tells this very
address, verifying the text compares what it shows of the path with the route. For a plain route they
agree exactly if the base address has no path of its own. -/
theorem found_again (p : Performer) {target : Text} (hbase : p.baseUrl = site.address below)
    (hsite : site.WellFormed) (hbelow : below = [] ∨ Url.IsPath below)
    (hroute : p.routes.resolve target = some path) (hpath : Url.IsPath path)
    (hparameters : (';' : CodePoint) ∉ path) :
    (∀ step outside m, Step.cleanTarget step = target → Step.isAbsoluteUrl target = false →
      ∃ answer last, Dialogue p.gateway outside m [⟨p.openCall (p.resolveUrl path), answer⟩] last ∧
        (p.navigate step).run outside m =
          (answer.map (outcomeOf · ("Failed to open " ++ p.resolveUrl path)), last)) ∧
    isAtRoute (p.resolveUrl path) path = .ok (decide (FoundAgain below path)) ∧
    (∀ outside m m' r, (p.gateway.give p.addressCall).run outside m = (.ok r, m') →
      r.success = true → r.output = p.resolveUrl path →
      (p.addressShows target).run outside m = (.ok (decide (FoundAgain below path)), m')) ∧
    (IsPlain path → (∀ c ∈ below, Url.isLeftOut c = false) →
      (FoundAgain below path ↔ withoutSlashes below = [])) := by
  have hat := isAtRoute_resolveUrl hbase hsite hbelow hpath hparameters
  refine ⟨?_, hat, ?_, fun hplain hkept => foundAgain_iff hplain hkept⟩
  · rintro step outside m rfl hrelative
    have hopen : p.openUrl (p.resolveUrl path) =
        p.gateway.give (p.openCall (p.resolveUrl path)) := rfl
    rcases hgive : (p.gateway.give (p.openCall (p.resolveUrl path))).run outside m with
      ⟨answer, last⟩
    refine ⟨answer, last, .said hgive (.silent _), ?_⟩
    unfold navigate
    rw [navigateTarget_eq hroute hpath hrelative]
    dsimp only
    rw [hopen, Task.run_bind, hgive]
    cases answer <;> rfl
  · intro outside m m' r hgive hr houtput
    rw [addressShows_of_told hroute hgive hr, houtput, hat]
    rfl

theorem resolve_loginPage : Routes.standard.resolve "login page" = some (Text.of "/login") := by
  decide +kernel

theorem found_again_bare_host :
    ∃ p : Performer, p.baseUrl = "http://app.test:8080/" ∧
      (p.addressShows "login page").run (telling fun _ => p.resolveUrl "/login") (Machine.bare []) =
        (.ok true, ((p.gateway.give p.addressCall).run (telling fun _ => p.resolveUrl "/login")
          (Machine.bare [])).2) := by
  let p : Performer := { usual with baseUrl := "http://app.test:8080/" }
  let site : Url.Site := { scheme := "http", host := "app.test:8080" }
  have hsite : site.WellFormed :=
    { letter := ⟨'h', "ttp", rfl, by decide⟩
      scheme := by decide
      host_ne_nil := by decide
      host_chars := by decide
      host := by decide }
  have hbase : p.baseUrl = site.address "/" := rfl
  obtain ⟨-, -, hshows, -⟩ :=
    found_again p hbase hsite (.inr ⟨rfl, by decide⟩) resolve_loginPage ⟨rfl, by decide⟩ (by decide)
  exact ⟨p, rfl, hshows _ _ _ _ rfl rfl rfl⟩

/-- Below a base address with a path, the page that was opened for a text is not found by it. -/
theorem not_found_below_app :
    ∃ p : Performer, p.baseUrl = "http://a.test/app" ∧
      p.routes.resolve "login page" = some (Text.of "/login") ∧
      p.resolveUrl "/login" = "http://a.test/app/login" ∧
      isAtRoute (p.resolveUrl "/login") "/login" = .ok false ∧
      ((p.addressShows "login page").run (telling fun _ => p.resolveUrl "/login")
        (Machine.bare [])).1 = .ok false := by
  let p : Performer := { usual with baseUrl := "http://a.test/app" }
  have hurl : p.resolveUrl "/login" = "http://a.test/app/login" := by decide
  have hat : isAtRoute (p.resolveUrl "/login") "/login" = .ok false := by
    have hpath : Url.path (Text.trim (p.resolveUrl "/login")) = .ok "/app/login" := by
      decide +kernel
    unfold isAtRoute
    rw [hpath]
    rfl
  refine ⟨p, rfl, resolve_loginPage, hurl, hat, ?_⟩
  rw [addressShows_of_told resolve_loginPage rfl rfl]
  dsimp only
  rw [hat]
  rfl

end Performer

end Acceptance
