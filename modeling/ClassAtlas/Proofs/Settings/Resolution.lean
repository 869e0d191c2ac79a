import ClassAtlas.Proofs.ClassFile.ModifiedUtf8
import ClassAtlas.Proofs.Settings.Count
import ClassAtlas.Settings.Resolve
import Mathlib

/-!
# Laws of configuration

Each setting is resolved from the command line, else from its variable, else from its default; zero
is raised to one, so that no resolved setting is zero. A session requires both settings, and the
worker count determines the error. Specification: `SPEC_FULL.md` §10.4, lines 145–153.
-/

namespace ClassAtlas.Settings

/-! ### Single settings -/

/-- Resolution of a setting from the argument, the text of its variable and its default. A variable
that states no count is rejected with its name and its quoted text. -/
inductive Resolves (argument : Option Nat) (text : Option String) (default : Nat)
    (source : Variable) : Except VariableError Nat → Prop
  | argument {count : Nat} : argument = some count →
    Resolves argument text default source (.ok (max count 1))
  | stated {value : String} {count : Nat} : argument = none → text = some value →
    States value count → Resolves argument text default source (.ok (max count 1))
  | refused {value : String} {error : VariableError} : argument = none → text = some value →
    (∀ count, ¬States value count) → error.source = source →
    error.message = source.name ++ " must be a non-negative integer, got " ++ Text.quoted value →
    Resolves argument text default source (.error error)
  | default : argument = none → text = none → Resolves argument text default source (.ok default)

/-- Resolution of an arbitrary setting. -/
theorem resolves_given (argument : Option Nat) (environment : Environment) (default : Nat)
    (source : Variable) :
    Resolves argument (environment.text? source) default source
      ((given? argument environment source).map (·.getD default)) := by
  cases hargument : argument with
  | some count => exact .argument rfl
  | none =>
    cases htext : environment.text? source with
    | none =>
      have hgiven : given? none environment source = .ok none := by
        simp [given?, variableCount?, htext, bind, Except.bind, pure, Except.pure]
      rw [hgiven]
      exact .default rfl rfl
    | some value =>
      cases hcount : parseCount (Text.trim value.toList) with
      | ok count =>
        have hgiven : given? none environment source = .ok (some (max count 1)) := by
          simp [given?, variableCount?, htext, hcount, bind, Except.bind, pure, Except.pure]
        rw [hgiven]
        exact .stated rfl rfl (parseCount_trim_eq_ok_iff.mp hcount)
      | error cause =>
        have hgiven : given? none environment source = .error { source, value, cause } := by
          simp [given?, variableCount?, htext, hcount, bind, Except.bind]
        have hnone : ∀ count, ¬States value count := by
          intro count hstates
          rw [parseCount_trim_eq_ok_iff.mpr hstates] at hcount
          cases hcount
        rw [hgiven]
        exact .refused rfl rfl hnone rfl rfl

/-- Resolution of the worker count. -/
theorem resolves_workers (default : Nat) (arguments : Arguments) (environment : Environment) :
    Resolves arguments.workers (environment.text? .workers) default .workers
      (workers default arguments environment) :=
  resolves_given arguments.workers environment default .workers

/-- Resolution of the tick interval. -/
theorem resolves_tickInterval (arguments : Arguments) (environment : Environment) :
    Resolves arguments.tickMs (environment.text? .tickMs) Layout.defaultInterval .tickMs
      (tickInterval arguments environment) :=
  resolves_given arguments.tickMs environment Layout.defaultInterval .tickMs

namespace Resolves

variable {argument : Option Nat} {text : Option String} {default : Nat} {source : Variable}
  {result : Except VariableError Nat}

/-- An argument takes precedence. -/
theorem eq_of_argument {count : Nat} (h : Resolves argument text default source result)
    (hargument : argument = some count) : result = .ok (max count 1) := by
  subst hargument
  cases h with
  | argument h => rw [Option.some.inj h]
  | stated h | refused h | default h => cases h

/-- A resolved setting is positive if its default is. -/
theorem pos {count : Nat} (h : Resolves argument text default source result)
    (hdefault : 0 < default) (hresult : result = .ok count) : 0 < count := by
  cases h with
  | argument | stated =>
    obtain rfl := Except.ok.inj hresult
    omega
  | refused => cases hresult
  | default =>
    obtain rfl := Except.ok.inj hresult
    exact hdefault

end Resolves

/-! ### Sessions -/

/-- Environment whose variables hold the given texts. -/
def Environment.ofTexts (workers tickMs : Option String) : Environment where
  workers := workers.map Text.Utf8.encode
  tickMs := tickMs.map Text.Utf8.encode

private theorem text?_ofTexts (workers tickMs : Option String) :
    (Environment.ofTexts workers tickMs).text? .workers = workers ∧
      (Environment.ofTexts workers tickMs).text? .tickMs = tickMs := by
  have hdecode (text : Option String) :
      (text.map Text.Utf8.encode).bind Text.Utf8.decode? = text := by
    cases text with
    | none => rfl
    | some text => exact Text.Utf8.decode?_eq_some_iff.mpr rfl
  exact ⟨hdecode workers, hdecode tickMs⟩

variable {default : Nat} {arguments : Arguments} {environment : Environment}

/-- A session configuration consists of both settings. -/
theorem session_eq_ok_iff {config : SessionConfig} :
    session default arguments environment = .ok config ↔
      ∃ count tickMs, workers default arguments environment = .ok count ∧
        tickInterval arguments environment = .ok tickMs ∧
        config = { scan := { workers := count }, tickMs } := by
  simp only [session, bind_eq_ok_iff, pure, Except.pure, Except.ok.injEq, @eq_comm _ config]
  exact ⟨fun ⟨count, hcount, tickMs, htick, h⟩ => ⟨count, tickMs, hcount, htick, h⟩,
    fun ⟨count, tickMs, hcount, htick, h⟩ => ⟨count, hcount, tickMs, htick, h⟩⟩

/-- The first unresolved setting determines the error of a session. -/
theorem session_eq_error_iff {error : VariableError} :
    session default arguments environment = .error error ↔
      workers default arguments environment = .error error ∨
        (∃ count, workers default arguments environment = .ok count) ∧
          tickInterval arguments environment = .error error := by
  simp [session, bind_eq_error_iff, pure, Except.pure]

/-- Both settings of a session configuration are positive if the default worker count is. -/
theorem pos_of_session_eq_ok {config : SessionConfig} (hdefault : 0 < default)
    (h : session default arguments environment = .ok config) :
    0 < config.scan.workers ∧ 0 < config.tickMs := by
  obtain ⟨count, tickMs, hcount, htick, rfl⟩ := session_eq_ok_iff.mp h
  exact ⟨(resolves_workers default arguments environment).pos hdefault hcount,
    (resolves_tickInterval arguments environment).pos (by decide) htick⟩

/-- No session configuration of a host has a worker count or a tick interval of zero, whatever the
host's core count, the command line and the environment. -/
theorem session_pos_of_host (cores : Option {count : Nat // 0 < count}) {config : SessionConfig}
    (h : session (ScanConfig.defaultWorkers cores) arguments environment = .ok config) :
    0 < config.scan.workers ∧ 0 < config.tickMs :=
  pos_of_session_eq_ok (ScanConfig.defaultWorkers_pos cores) h

/-! ### Summary -/

/-- Laws of configuration: the resolution of both settings, the precedence of arguments in every
environment, the composition and the error of a session configuration, and positivity. -/
structure AreResolved (default : Nat) (arguments : Arguments)
    (workersText tickText : Option String) : Prop where
  workers : Resolves arguments.workers workersText default .workers
    (workers default arguments (.ofTexts workersText tickText))
  tickInterval : Resolves arguments.tickMs tickText Layout.defaultInterval .tickMs
    (tickInterval arguments (.ofTexts workersText tickText))
  workers_argument {count : Nat} {environment : Environment} : arguments.workers = some count →
    Settings.workers default arguments environment = .ok (max count 1)
  tickInterval_argument {count : Nat} {environment : Environment} : arguments.tickMs = some count →
    Settings.tickInterval arguments environment = .ok (max count 1)
  session_ok {config : SessionConfig} :
    session default arguments (.ofTexts workersText tickText) = .ok config ↔
      ∃ count tickMs,
        Settings.workers default arguments (.ofTexts workersText tickText) = .ok count ∧
        Settings.tickInterval arguments (.ofTexts workersText tickText) = .ok tickMs ∧
        config = { scan := { workers := count }, tickMs }
  session_error {error : VariableError} :
    session default arguments (.ofTexts workersText tickText) = .error error ↔
      Settings.workers default arguments (.ofTexts workersText tickText) = .error error ∨
        (∃ count, Settings.workers default arguments (.ofTexts workersText tickText) = .ok count) ∧
          Settings.tickInterval arguments (.ofTexts workersText tickText) = .error error
  workers_pos {count : Nat} :
    Settings.workers default arguments (.ofTexts workersText tickText) = .ok count → 0 < count
  tickInterval_pos {count : Nat} :
    Settings.tickInterval arguments (.ofTexts workersText tickText) = .ok count → 0 < count
  session_pos {config : SessionConfig} :
    session default arguments (.ofTexts workersText tickText) = .ok config →
      0 < config.scan.workers ∧ 0 < config.tickMs

/-- The laws of `AreResolved` hold for every positive default, command line and environment. The
default of a host is positive by `ScanConfig.defaultWorkers_pos`. -/
theorem areResolved {default : Nat} (h : 0 < default) (arguments : Arguments)
    (workersText tickText : Option String) :
    AreResolved default arguments workersText tickText := by
  obtain ⟨hworkersText, htickText⟩ := text?_ofTexts workersText tickText
  have hworkers := resolves_workers default arguments (.ofTexts workersText tickText)
  have htick := resolves_tickInterval arguments (.ofTexts workersText tickText)
  rw [hworkersText] at hworkers
  rw [htickText] at htick
  exact {
    workers := hworkers
    tickInterval := htick
    workers_argument := (resolves_workers default arguments _).eq_of_argument
    tickInterval_argument := (resolves_tickInterval arguments _).eq_of_argument
    session_ok := session_eq_ok_iff
    session_error := session_eq_error_iff
    workers_pos := hworkers.pos h
    tickInterval_pos := htick.pos (by decide)
    session_pos := pos_of_session_eq_ok h }

/-- A variable with white space, a sign and leading zeros is accepted, and one beyond 64 bits is
rejected. -/
theorem areResolved_overflow :
    0 < 12 ∧ AreResolved 12 {} (some " +007\n") (some "18446744073709551616") ∧
      workers 12 {} (.ofTexts (some " +007\n") (some "18446744073709551616")) = .ok 7 ∧
      ∃ error, session 12 {} (.ofTexts (some " +007\n") (some "18446744073709551616")) =
          .error error ∧ error.source = .tickMs := by
  have hlaws := areResolved (by decide : 0 < 12) {} (some " +007\n")
    (some "18446744073709551616")
  have hworkers :
      workers 12 {} (.ofTexts (some " +007\n") (some "18446744073709551616")) = .ok 7 := by
    decide +kernel
  refine ⟨by decide, hlaws, hworkers, ⟨.tickMs, "18446744073709551616", .tooLarge⟩, ?_, rfl⟩
  exact hlaws.session_error.mpr (.inr ⟨⟨7, hworkers⟩, by decide +kernel⟩)

end ClassAtlas.Settings
