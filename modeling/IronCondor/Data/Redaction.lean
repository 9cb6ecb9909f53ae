import IronCondor.Data.Feed
import IronCondor.Lib.Cut

/-! # Credentials in a base URL

A simulator is recorded by its base URL, and a credential written into the URL must not be
recorded with it. The copy that is serialised drops the userinfo of the authority. -/
namespace IronCondor

open Checked

section Model

/-- The characters an authority stops at. -/
def isDelimiter (c : Char) : Bool := c = '/' || c = '?' || c = '#'

def schemeSep : List Char := [':', '/', '/']

def redactedUrl : String := "[redacted-url]"

/-- The text up to the first delimiter. -/
def upToDelimiter (text : List Char) : List Char := text.takeWhile fun c => !isDelimiter c

/-- The text from the first delimiter on. -/
def fromDelimiter (text : List Char) : List Char := text.dropWhile fun c => !isDelimiter c

/-- `redact_url_userinfo`. -/
def redactUrlUserinfo (url : String) : String :=
  match Cut.first schemeSep url.toList with
  | none => if '@' ∈ upToDelimiter url.toList then redactedUrl else url
  | some (scheme, rest) =>
    match Cut.last '@' (upToDelimiter rest) with
    | none => url
    | some (_, host) => String.ofList (scheme ++ schemeSep ++ (host ++ fromDelimiter rest))

/-- A value handed to a serializer. -/
inductive SerdeValue where
  | json (text : String)
  | text (text : String)
  | number (value : Int)
  | optional (text : Option String)
deriving DecidableEq

/-- `Serialize for SimulatorSourceSpec`: the fields in order, the base URL redacted. -/
def SimulatorSourceSpec.serialize (spec : SimulatorSourceSpec) : List (String × SerdeValue) :=
  [("session", .json spec.session),
    ("base_url", .text (redactUrlUserinfo spec.baseUrl)),
    ("data_seed", .number spec.dataSeed.value),
    ("tape_sha256", .text spec.tapeSha256),
    ("simulator_version", .optional spec.simulatorVersion)]

end Model

section Authority

/-- The characters that end a scheme's claim to what follows it. -/
def isReserved (c : Char) : Bool := isDelimiter c || c = '@'

/-- What stands before the authority of a URL, the authority, and what follows it. A leading
scheme is one with no delimiter and no at-sign in it. -/
def urlParts (url : List Char) : List Char × List Char × List Char :=
  match Cut.first schemeSep url with
  | some (scheme, rest) =>
    if scheme.any isReserved then ([], upToDelimiter url, fromDelimiter url)
    else (scheme ++ schemeSep, upToDelimiter rest, fromDelimiter rest)
  | none => ([], upToDelimiter url, fromDelimiter url)

def authority (url : String) : List Char := (urlParts url.toList).2.1

/-- The URLs have one host, prefix and tail, and any userinfo before them. -/
def SameButUserinfo (url other : String) : Prop :=
  ∃ before user user' host after, '@' ∉ host ∧
    urlParts url.toList = (before, user ++ '@' :: host, after) ∧
    urlParts other.toList = (before, user' ++ '@' :: host, after)

/-- What the recorded copy of a URL promises about its userinfo. -/
structure RedactsUserinfo (url : String) : Prop where
  clean : '@' ∉ authority (redactUrlUserinfo url)
  independent : ∀ other, SameButUserinfo url other → redactUrlUserinfo other = redactUrlUserinfo url
  unchanged : '@' ∉ authority url → redactUrlUserinfo url = url
  idempotent : redactUrlUserinfo (redactUrlUserinfo url) = redactUrlUserinfo url

/-- The first `://` ends a leading scheme. -/
def LeadingScheme (url : String) : Prop :=
  ∀ scheme rest, Cut.first schemeSep url.toList = some (scheme, rest) →
    scheme.any isReserved = false

/-- Neither the authority nor what follows the first `://` up to a delimiter has an at-sign. -/
def FreeOfUserinfo (url : String) : Prop :=
  '@' ∉ authority url ∧ ∀ scheme rest, Cut.first schemeSep url.toList = some (scheme, rest) →
    '@' ∉ upToDelimiter rest

end Authority

section Cases

variable {url : String} {scheme rest : List Char}

/-- With a leading scheme the authority is what follows it. -/
theorem urlParts_scheme {url : List Char} (h : Cut.first schemeSep url = some (scheme, rest))
    (hscheme : scheme.any isReserved = false) :
    urlParts url = (scheme ++ schemeSep, upToDelimiter rest, fromDelimiter rest) := by
  rw [urlParts, h]
  simp [hscheme]

theorem urlParts_bare {url : List Char} (h : Cut.first schemeSep url = none) :
    urlParts url = ([], upToDelimiter url, fromDelimiter url) := by
  rw [urlParts, h]

theorem urlParts_nested {url : List Char} (h : Cut.first schemeSep url = some (scheme, rest))
    (hscheme : scheme.any isReserved = true) :
    urlParts url = ([], upToDelimiter url, fromDelimiter url) := by
  rw [urlParts, h]
  simp [hscheme]

/-- An authority at the beginning of the URL runs to the first delimiter. -/
theorem urlParts_nil {url : List Char} (h : (urlParts url).1 = []) :
    urlParts url = ([], upToDelimiter url, fromDelimiter url) := by
  rcases hcut : Cut.first schemeSep url with _ | ⟨scheme, rest⟩
  · exact urlParts_bare hcut
  · cases hscheme : scheme.any isReserved with
    | true => exact urlParts_nested hcut hscheme
    | false =>
      rw [urlParts_scheme hcut hscheme] at h
      simp [schemeSep] at h

/-- An authority behind a scheme is one behind the first separator. -/
theorem urlParts_scheme_inv {url text after : List Char}
    (h : urlParts url = (scheme ++ schemeSep, text, after)) : ∃ rest,
      Cut.first schemeSep url = some (scheme, rest) ∧ upToDelimiter rest = text ∧
        fromDelimiter rest = after := by
  have hne : (urlParts url).1 ≠ [] := by
    rw [h]
    simp [schemeSep]
  rcases hcut : Cut.first schemeSep url with _ | ⟨scheme', rest⟩
  · rw [urlParts_bare hcut] at hne
    exact absurd rfl hne
  · cases hscheme : scheme'.any isReserved with
    | true =>
      rw [urlParts_nested hcut hscheme] at hne
      exact absurd rfl hne
    | false =>
      rw [urlParts_scheme hcut hscheme] at h
      simp only [Prod.mk.injEq, List.append_cancel_right_eq] at h
      exact ⟨rest, by rw [h.1], h.2⟩

/-- No at-sign after the first `://` leaves the URL as it is. -/
theorem redact_of_quiet (h : Cut.first schemeSep url.toList = some (scheme, rest))
    (hquiet : '@' ∉ upToDelimiter rest) : redactUrlUserinfo url = url := by
  simp only [redactUrlUserinfo, h, Cut.last_eq_none.2 hquiet]

/-- The last at-sign after the first `://` and what stands before it there are dropped. -/
theorem redact_of_userinfo {user host : List Char}
    (h : Cut.first schemeSep url.toList = some (scheme, rest))
    (hrest : upToDelimiter rest = user ++ '@' :: host) (hhost : '@' ∉ host) :
    redactUrlUserinfo url =
      String.ofList (scheme ++ schemeSep ++ (host ++ fromDelimiter rest)) := by
  simp only [redactUrlUserinfo, h, hrest, Cut.last_append hhost]

theorem redact_bare (h : Cut.first schemeSep url.toList = none) :
    redactUrlUserinfo url = if '@' ∈ upToDelimiter url.toList then redactedUrl else url := by
  simp only [redactUrlUserinfo, h]

/-- A host put back after its scheme is cut there again, up to the same delimiter. -/
theorem cut_redacted {user host : List Char}
    (h : Cut.first schemeSep url.toList = some (scheme, rest))
    (hrest : upToDelimiter rest = user ++ '@' :: host) :
    Cut.first schemeSep (scheme ++ schemeSep ++ (host ++ fromDelimiter rest)) =
        some (scheme, host ++ fromDelimiter rest) ∧
      upToDelimiter (host ++ fromDelimiter rest) = host ∧
      fromDelimiter (host ++ fromDelimiter rest) = fromDelimiter rest := by
  have hhost : ∀ c ∈ host, (!isDelimiter c) = true := by
    intro c hc
    apply List.mem_takeWhile_imp (l := rest) (x := c)
    change c ∈ upToDelimiter rest
    rw [hrest]
    exact List.mem_append_right _ (List.mem_cons_of_mem _ hc)
  exact ⟨Cut.first_append h _, Cut.takeWhile_append_dropWhile hhost rest⟩

end Cases

section Redacts

variable {url : String}

/-- A URL with no userinfo to drop is recorded as it is. -/
theorem FreeOfUserinfo.redact (h : FreeOfUserinfo url) : redactUrlUserinfo url = url := by
  rcases hcut : Cut.first schemeSep url.toList with _ | ⟨scheme, rest⟩
  · have hclean : '@' ∉ upToDelimiter url.toList := by
      have h := h.1
      rwa [authority, urlParts_bare hcut] at h
    rw [redact_bare hcut, if_neg hclean]
  · exact redact_of_quiet hcut (h.2 scheme rest hcut)

theorem FreeOfUserinfo.redacts (h : FreeOfUserinfo url) : RedactsUserinfo url where
  clean := by
    rw [h.redact]
    exact h.1
  independent := by
    rintro other ⟨before, user, user', host, after, -, hurl, -⟩
    apply absurd _ h.1
    rw [authority, hurl]
    exact List.mem_append_right _ List.mem_cons_self
  unchanged _ := h.redact
  idempotent := by rw [h.redact, h.redact]

/-- Userinfo put before a host does not make a separator: it holds no slash, and the at-sign is
none of the separator's characters. -/
theorem first_bare_of_userinfo {user user' tail : List Char} (huser : '/' ∉ user')
    (h : Cut.first schemeSep (user ++ '@' :: tail) = none) :
    Cut.first schemeSep (user' ++ '@' :: tail) = none := by
  rcases hcut : Cut.first schemeSep (user' ++ '@' :: tail) with _ | ⟨before, after⟩
  · rfl
  · exfalso
    have hsplit := Cut.first_eq_some hcut
    rw [List.append_assoc, List.append_eq_append_iff] at hsplit
    rcases hsplit with ⟨middle, rfl, htail⟩ | ⟨middle, rfl, htail⟩
    · cases middle with
      | nil => simp [schemeSep] at htail
      | cons c middle =>
        rw [List.cons_append, List.cons.injEq] at htail
        apply Cut.first_eq_none h
        rw [htail.2]
        exact ⟨user ++ '@' :: middle, after, by simp⟩
    · rcases middle with _ | ⟨c, _ | ⟨c', middle⟩⟩
      · simp [schemeSep] at htail
      · simp [schemeSep] at htail
      · simp only [schemeSep, List.cons_append, List.cons.injEq] at htail
        apply huser
        rw [← htail.2.1]
        simp

theorem slash_notMem_upToDelimiter (text : List Char) : '/' ∉ upToDelimiter text := by
  intro h
  have hpass := List.mem_takeWhile_imp h
  simp [isDelimiter] at hpass

theorem upToDelimiter_append_fromDelimiter (text : List Char) :
    upToDelimiter text ++ fromDelimiter text = text := List.takeWhile_append_dropWhile

/-- Without a separator, userinfo is shown by nothing but the placeholder. -/
theorem redacts_bare (h : Cut.first schemeSep url.toList = none) : RedactsUserinfo url := by
  by_cases hat : '@' ∈ upToDelimiter url.toList
  · have hredacted : redactUrlUserinfo url = redactedUrl := by rw [redact_bare h, if_pos hat]
    have hplaceholder : redactUrlUserinfo redactedUrl = redactedUrl ∧
        '@' ∉ authority redactedUrl := by decide
    refine ⟨?_, ?_, ?_, ?_⟩
    · rw [hredacted]
      exact hplaceholder.2
    · rintro other ⟨before, user, user', host, after, -, hurl, hother⟩
      rw [urlParts_bare h] at hurl
      simp only [Prod.mk.injEq] at hurl
      obtain ⟨rfl, hauthority, htail⟩ := hurl
      rw [urlParts_nil (by rw [hother])] at hother
      simp only [Prod.mk.injEq, true_and] at hother
      obtain ⟨hauthority', htail'⟩ := hother
      have hslash : '/' ∉ user' := by
        intro hmem
        apply slash_notMem_upToDelimiter other.toList
        rw [hauthority']
        exact List.mem_append_left _ hmem
      have hbare : Cut.first schemeSep other.toList = none := by
        rw [← upToDelimiter_append_fromDelimiter url.toList, hauthority, htail, List.append_assoc,
          List.cons_append] at h
        rw [← upToDelimiter_append_fromDelimiter other.toList, hauthority', htail',
          List.append_assoc, List.cons_append]
        exact first_bare_of_userinfo hslash h
      rw [hredacted, redact_bare hbare, if_pos]
      rw [hauthority']
      exact List.mem_append_right _ List.mem_cons_self
    · intro hclean
      rw [authority, urlParts_bare h] at hclean
      exact absurd hat hclean
    · rw [hredacted]
      exact hplaceholder.1
  · apply FreeOfUserinfo.redacts
    constructor
    · rw [authority, urlParts_bare h]
      exact hat
    · rw [h]
      nofun

variable {scheme rest : List Char}

/-- Behind a leading scheme the userinfo is cut off, and the host is the whole new authority. -/
theorem redacts_scheme (h : Cut.first schemeSep url.toList = some (scheme, rest))
    (hscheme : scheme.any isReserved = false) : RedactsUserinfo url := by
  have hauthority : authority url = upToDelimiter rest := by
    rw [authority, urlParts_scheme h hscheme]
  rcases hcut : Cut.last '@' (upToDelimiter rest) with _ | ⟨user, host⟩
  · have hquiet := Cut.last_eq_none.1 hcut
    apply FreeOfUserinfo.redacts
    constructor
    · rw [hauthority]
      exact hquiet
    · intro scheme' rest' h'
      rw [h] at h'
      cases h'
      exact hquiet
  · obtain ⟨hrest, hhost⟩ := Cut.last_eq_some hcut
    have hredacted := redact_of_userinfo h hrest hhost
    obtain ⟨hcut', hup, -⟩ := cut_redacted h hrest
    rw [← String.toList_ofList (l := scheme ++ schemeSep ++ (host ++ fromDelimiter rest)),
      ← hredacted] at hcut'
    have hclean : '@' ∉ upToDelimiter (host ++ fromDelimiter rest) := by rwa [hup]
    refine ⟨?_, ?_, ?_, redact_of_quiet hcut' hclean⟩
    · rw [authority, urlParts_scheme hcut' hscheme]
      exact hclean
    · rintro other ⟨before, user₀, user', host', after, hhost', hurl, hother⟩
      rw [urlParts_scheme h hscheme] at hurl
      simp only [Prod.mk.injEq] at hurl
      obtain ⟨rfl, hsame, rfl⟩ := hurl
      obtain ⟨rest', hcutOther, hrest', hafter⟩ := urlParts_scheme_inv hother
      have hhosts : some (user, host) = some (user₀, host') := by
        rw [← Cut.last_append hhost', ← hsame, hcut]
      cases hhosts
      rw [hredacted, redact_of_userinfo hcutOther hrest' hhost, hafter]
    · intro hfree
      rw [hauthority, hrest] at hfree
      exact absurd (List.mem_append_right _ List.mem_cons_self) hfree

/-- A separator behind a delimiter or an at-sign leaves the authority alone. -/
theorem authority_nested {tail : List Char} {text : String}
    (h : Cut.first schemeSep text.toList = some (scheme, tail))
    (hscheme : scheme.any isReserved = true) :
    authority text = upToDelimiter (scheme ++ schemeSep) := by
  rw [authority, urlParts_nested h hscheme, Cut.first_eq_some h]
  have hslash : '/' ∈ scheme ++ schemeSep := by simp [schemeSep]
  exact Cut.takeWhile_append_stop hslash (by rfl)

/-- Behind such a separator the promise holds only when there is nothing to drop. -/
theorem free_of_redacts (h : Cut.first schemeSep url.toList = some (scheme, rest))
    (hscheme : scheme.any isReserved = true) (hredacts : RedactsUserinfo url) :
    FreeOfUserinfo url := by
  have hauthority := authority_nested h hscheme
  rcases hcut : Cut.last '@' (upToDelimiter rest) with _ | ⟨user, host⟩
  · have hquiet := Cut.last_eq_none.1 hcut
    have hclean := hredacts.clean
    rw [redact_of_quiet h hquiet] at hclean
    refine ⟨hclean, ?_⟩
    intro scheme' rest' h'
    rw [h] at h'
    cases h'
    exact hquiet
  · exfalso
    obtain ⟨hrest, hhost⟩ := Cut.last_eq_some hcut
    have hredacted := redact_of_userinfo h hrest hhost
    obtain ⟨hcut', -, -⟩ := cut_redacted h hrest
    rw [← String.toList_ofList (l := scheme ++ schemeSep ++ (host ++ fromDelimiter rest)),
      ← hredacted] at hcut'
    have hclean := hredacts.clean
    rw [authority_nested hcut' hscheme, ← hauthority] at hclean
    have hsame := hredacts.unchanged hclean
    have hlength : (redactUrlUserinfo url).toList.length = url.toList.length := by rw [hsame]
    have hwhole := congrArg List.length (upToDelimiter_append_fromDelimiter rest)
    rw [Cut.first_eq_some hcut', Cut.first_eq_some h] at hlength
    rw [hrest] at hwhole
    simp only [List.length_append, List.length_cons] at hlength hwhole
    omega

/-- The promise holds exactly with a leading scheme, with no separator, or with nothing to drop. -/
theorem redactsUserinfo_iff : RedactsUserinfo url ↔ LeadingScheme url ∨ FreeOfUserinfo url := by
  rcases hcut : Cut.first schemeSep url.toList with _ | ⟨scheme, rest⟩
  · refine iff_of_true (redacts_bare hcut) (.inl ?_)
    intro scheme rest h
    rw [hcut] at h
    cases h
  · have hleading : LeadingScheme url ↔ scheme.any isReserved = false := by
      constructor
      · exact fun h => h scheme rest hcut
      · intro h scheme' rest' hcut'
        rw [hcut] at hcut'
        cases hcut'
        exact h
    rw [hleading]
    cases hscheme : scheme.any isReserved with
    | false => exact iff_of_true (redacts_scheme hcut hscheme) (.inl rfl)
    | true =>
      constructor
      · exact fun h => .inr (free_of_redacts hcut hscheme h)
      · rintro (h | h)
        · cases h
        · exact h.redacts

/-- The serialised copy of a base URL keeps the promise exactly with a leading scheme, with no
separator, or with nothing to drop. -/
theorem SimulatorSourceSpec.serialize_redacts (spec : SimulatorSourceSpec) :
    spec.serialize.lookup "base_url" = some (.text (redactUrlUserinfo spec.baseUrl)) ∧
      (RedactsUserinfo spec.baseUrl ↔ LeadingScheme spec.baseUrl ∨ FreeOfUserinfo spec.baseUrl) :=
  ⟨rfl, redactsUserinfo_iff⟩

/-- A credential before a path that holds a URL of its own is recorded in full. -/
theorem redact_leaks : redactUrlUserinfo "ci-bot:SECRET@host:7070/run?callback=http://x" =
      "ci-bot:SECRET@host:7070/run?callback=http://x" ∧
    ¬ RedactsUserinfo "ci-bot:SECRET@host:7070/run?callback=http://x" := by
  have hsame : redactUrlUserinfo "ci-bot:SECRET@host:7070/run?callback=http://x" =
      "ci-bot:SECRET@host:7070/run?callback=http://x" := by decide +kernel
  refine ⟨hsame, fun h => ?_⟩
  have hclean := h.clean
  rw [hsame] at hclean
  exact absurd hclean (by decide +kernel)

end Redacts

end IronCondor
