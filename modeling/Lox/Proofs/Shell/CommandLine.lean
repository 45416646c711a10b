import Lox.Proofs.Shell.Account
import Lox.Shell.World

/-!
# What a command line leads to

A command line ends with one of four exit codes.  Where it is refused nothing is evaluated and
standard error says why; where it comes to running a source, the report says how that went
(`World.run_accounts`).  There are three ways to come to it, and `World.Reaches` lists them: the
script that is given, the one that the settings name, and standard input.
-/

namespace Lox.Shell

theorem Refusal.text_ne_empty (refusal : Refusal) : refusal.text ≠ "" := by
  have hline (text : String) : text ++ "\n" ≠ "" := fun h =>
    absurd (String.append_eq_empty_iff.mp h).2 (by decide)
  cases refusal with
  | usage error =>
    cases error with
    | unknownFlag flag =>
      show (UsageError.unknownFlag flag).text ++ "\n" ++ Shell.usage ≠ ""
      rw [Ne, String.append_eq_empty_iff]
      exact fun h => hline _ h.1
    | missingConfigPath =>
      show UsageError.missingConfigPath.text ++ "\n" ≠ ""
      exact hline _
    | unexpected args =>
      show (UsageError.unexpected args).text ++ "\n" ≠ ""
      exact hline _
  | settings error =>
    show "failed to load config: " ++ error.text ++ "\n" ≠ ""
    exact hline _
  | source error =>
    show "failed to load program: " ++ error.text ++ "\n" ≠ ""
    exact hline _
  | noEntry => decide

/-! ## What arguments ask for -/

/-- What the arguments ask for, the path of the settings file apart. -/
inductive Asks (inputIsTerminal : Bool) : List String → Command → Prop
  | help {word : String} {rest : List String} (h : word ∈ ["--help", "-h", "help"]) :
      Asks inputIsTerminal (word :: rest) .help
  | version {word : String} {rest : List String} (h : word ∈ ["--version", "-V", "version"]) :
      Asks inputIsTerminal (word :: rest) .version
  | dialogue (h : inputIsTerminal = true) : Asks inputIsTerminal [] .dialogue
  | repl : Asks inputIsTerminal ["repl"] .dialogue
  | piped (h : inputIsTerminal = false) : Asks inputIsTerminal [] .piped
  | entry : Asks inputIsTerminal ["run"] .entry
  | behindRun {path : String} : Asks inputIsTerminal ["run", path] (.script path)
  | script {path : String}
      (hword : path ∉ ["--help", "-h", "help", "--version", "-V", "version", "run", "repl"])
      (hflag : path.toList.head? ≠ some '-') : Asks inputIsTerminal [path] (.script path)

section

variable {inputIsTerminal : Bool} {args : List String} {command : Command}

theorem Asks.ofArguments_eq (h : Asks inputIsTerminal args command) :
    Command.ofArguments inputIsTerminal args = .ok command := by
  cases h with
  | help h =>
    simp only [List.mem_cons, List.not_mem_nil, or_false] at h
    obtain rfl | rfl | rfl := h <;> rfl
  | version h =>
    simp only [List.mem_cons, List.not_mem_nil, or_false] at h
    obtain rfl | rfl | rfl := h <;> rfl
  | dialogue h | piped h => rw [h]; rfl
  | repl | entry | behindRun => rfl
  | @script path hword hflag =>
    simp only [List.mem_cons, List.not_mem_nil, or_false, not_or] at hword
    simp [Command.ofArguments, Command.ofScript, hword, hflag]

theorem ofScript_eq_ok_iff : Command.ofScript args = .ok command ↔
    args = [] ∧ command = .entry ∨ ∃ path, args = [path] ∧ command = .script path := by
  match args with
  | [] =>
    exact ⟨fun h => .inl ⟨rfl, (Except.ok.inj h).symm⟩,
      by rintro (⟨-, rfl⟩ | ⟨_, ⟨⟩, -⟩); rfl⟩
  | [path] =>
    exact ⟨fun h => .inr ⟨path, rfl, (Except.ok.inj h).symm⟩,
      by rintro (⟨⟨⟩, -⟩ | ⟨_, ⟨⟩, rfl⟩); rfl⟩
  | _ :: _ :: _ => exact iff_of_false nofun (by rintro (⟨⟨⟩, -⟩ | ⟨_, ⟨⟩, -⟩))

/-- The command that arguments make is the one that they ask for. -/
theorem asks_iff :
    Asks inputIsTerminal args command ↔ Command.ofArguments inputIsTerminal args = .ok command := by
  refine ⟨Asks.ofArguments_eq, fun h => ?_⟩
  cases args with
  | nil =>
    obtain rfl := Except.ok.inj h
    cases inputIsTerminal with
    | true => exact .dialogue rfl
    | false => exact .piped rfl
  | cons word rest =>
    rw [Command.ofArguments] at h
    by_cases hhelp : word ∈ ["--help", "-h", "help"]
    · rw [if_pos (List.contains_iff_mem.mpr hhelp)] at h
      obtain rfl := Except.ok.inj h
      exact .help hhelp
    rw [if_neg (mt List.contains_iff_mem.mp hhelp)] at h
    by_cases hversion : word ∈ ["--version", "-V", "version"]
    · rw [if_pos (List.contains_iff_mem.mpr hversion)] at h
      obtain rfl := Except.ok.inj h
      exact .version hversion
    rw [if_neg (mt List.contains_iff_mem.mp hversion)] at h
    by_cases hrun : word = "run"
    · subst hrun
      rw [if_pos rfl, ofScript_eq_ok_iff] at h
      obtain ⟨rfl, rfl⟩ | ⟨path, rfl, rfl⟩ := h
      · exact .entry
      · exact .behindRun
    rw [if_neg hrun] at h
    by_cases hrepl : word = "repl"
    · subst hrepl
      rw [if_pos rfl] at h
      cases rest with
      | nil =>
        obtain rfl := Except.ok.inj h
        exact .repl
      | cons => cases h
    rw [if_neg hrepl] at h
    split at h
    · cases h
    · rename_i hflag
      obtain ⟨⟨⟩, -⟩ | ⟨path, ⟨⟩, rfl⟩ := ofScript_eq_ok_iff.mp h
      refine .script (fun hword => ?_) hflag
      simp only [List.mem_cons, List.not_mem_nil, or_false] at hword hhelp hversion
      tauto

end

namespace Job

theorem ofLoaded_eq_run_iff {settings settings' : Settings} {source : Source}
    {loaded : Except Source.LoadError Source} :
    ofLoaded settings loaded = .run settings' source ↔
      settings = settings' ∧ loaded = .ok source := by
  cases loaded with
  | error e => exact iff_of_false nofun nofun
  | ok s => rw [ofLoaded, Job.run.injEq, Except.ok.injEq]

end Job

namespace World

variable {w : World} {args : List String} {settings : Settings} {source : Source}
  {config start path : String}

/-! ## Coming to a source -/

/-- The settings in the file `config`, or those that are found from `start` on. -/
def settings? (w : World) (config start : String) : Except Settings.LoadError Settings :=
  Id.run (Settings.resolve w.host.files config start)

/-- A command runs a source: a script file, the script that the settings name, or what standard
input holds.  The settings are usable and the text can be read. -/
inductive Opens (w : World) (config : String) : Command → Settings → Source → Prop
  | script {path text : String} {settings : Settings}
      (hsettings : w.settings? config (Path.directory path) = .ok settings)
      (htext : w.files.read w.here path = .ok text) :
      Opens w config (.script path) settings (Source.read path text)
  | entry {text : String} {settings : Settings} (hsettings : w.settings? config "." = .ok settings)
      (hentry : settings.entryPath ≠ "")
      (htext : w.files.read w.here settings.entryPath = .ok text) :
      Opens w config .entry settings (Source.read settings.entryPath text)
  | piped {text : String} {settings : Settings} (hsettings : w.settings? config "." = .ok settings)
      (htext : w.input.whole = .ok text) :
      Opens w config .piped settings (Source.read "<stdin>" text)

/-- The arguments make a command that runs a source. -/
def Reaches (w : World) (args : List String) (settings : Settings) (source : Source) : Prop :=
  ∃ a command, Arguments.extract args = .ok a ∧ Asks w.inputIsTerminal a.rest command ∧
    w.Opens a.config command settings source

theorem withSettings_eq_run_iff {next : Settings → Id Job} :
    Id.run (Job.withSettings w.host config start next) = Job.run settings source ↔
      ∃ found, w.settings? config start = .ok found ∧
        Id.run (next found) = Job.run settings source := by
  unfold Job.withSettings settings?
  -- How settings are found stays closed, it is only told whether they are.
  generalize Settings.resolve w.host.files config start = resolved
  cases resolved with
  | error e => exact iff_of_false nofun nofun
  | ok found => exact ⟨fun h => ⟨found, rfl, h⟩, fun ⟨_, hfound, h⟩ => Except.ok.inj hfound ▸ h⟩

theorem ofReading_eq_ok_iff {label : String} {reading : Except String String} :
    Source.ofReading label reading = .ok source ↔
      ∃ text, reading = .ok text ∧ Source.read label text = source := by
  cases reading with
  | error reason => exact iff_of_false nofun nofun
  | ok text =>
    exact ⟨fun h => ⟨text, rfl, Except.ok.inj h⟩,
      fun ⟨_, htext, h⟩ => Except.ok.inj htext ▸ congrArg Except.ok h⟩

theorem load_eq_ok_iff :
    Id.run (Source.load w.host.files path) = Except.ok source ↔
      ∃ text, w.files.read w.here path = .ok text ∧ Source.read path text = source := by
  cases hread : w.files.read w.here path with
  | error e =>
    have hload : Id.run (Source.load w.host.files path) = .error ⟨path, e.text path⟩ := by
      simp only [Source.load, host, FileTree.view, hread]
      rfl
    rw [hload]
    exact iff_of_false nofun nofun
  | ok text =>
    have hload : Id.run (Source.load w.host.files path) = .ok (Source.read path text) := by
      simp only [Source.load, host, FileTree.view, hread]
      rfl
    rw [hload]
    exact ⟨fun h => ⟨text, rfl, Except.ok.inj h⟩,
      fun ⟨_, htext, h⟩ => Except.ok.inj htext ▸ congrArg Except.ok h⟩

/-- There are three commands that run a source. -/
theorem ofCommand_eq_run_iff {command : Command} :
    Id.run (Job.ofCommand w.host config command) = Job.run settings source ↔
      w.Opens config command settings source := by
  cases command with
  | help | version => exact iff_of_false nofun nofun
  | dialogue =>
    refine iff_of_false (fun h => ?_) nofun
    obtain ⟨found, -, hrun⟩ := withSettings_eq_run_iff.mp h
    cases hrun
  | script path =>
    constructor
    · intro h
      obtain ⟨found, hsettings, hrun⟩ := withSettings_eq_run_iff.mp h
      obtain ⟨rfl, hloaded⟩ := Job.ofLoaded_eq_run_iff.mp hrun
      obtain ⟨text, htext, rfl⟩ := load_eq_ok_iff.mp hloaded
      exact .script hsettings htext
    · intro h
      cases h with
      | script hsettings htext =>
        exact withSettings_eq_run_iff.mpr ⟨settings, hsettings,
          Job.ofLoaded_eq_run_iff.mpr ⟨rfl, load_eq_ok_iff.mpr ⟨_, htext, rfl⟩⟩⟩
  | entry =>
    constructor
    · intro h
      obtain ⟨found, hsettings, hrun⟩ := withSettings_eq_run_iff.mp h
      split at hrun
      · cases hrun
      · rename_i hentry
        obtain ⟨rfl, hloaded⟩ := Job.ofLoaded_eq_run_iff.mp hrun
        obtain ⟨text, htext, rfl⟩ := load_eq_ok_iff.mp hloaded
        exact .entry hsettings (mt String.isEmpty_iff.mpr hentry) htext
    · intro h
      cases h with
      | entry hsettings hentry htext =>
        refine withSettings_eq_run_iff.mpr ⟨settings, hsettings, ?_⟩
        rw [if_neg (mt String.isEmpty_iff.mp hentry)]
        exact Job.ofLoaded_eq_run_iff.mpr ⟨rfl, load_eq_ok_iff.mpr ⟨_, htext, rfl⟩⟩
  | piped =>
    constructor
    · intro h
      obtain ⟨found, hsettings, hrun⟩ := withSettings_eq_run_iff.mp h
      obtain ⟨rfl, hloaded⟩ := Job.ofLoaded_eq_run_iff.mp hrun
      obtain ⟨text, htext, rfl⟩ := ofReading_eq_ok_iff.mp hloaded
      exact .piped hsettings htext
    · intro h
      cases h with
      | piped hsettings htext =>
        exact withSettings_eq_run_iff.mpr ⟨settings, hsettings,
          Job.ofLoaded_eq_run_iff.mpr ⟨rfl, ofReading_eq_ok_iff.mpr ⟨_, htext, rfl⟩⟩⟩

/-- What the arguments of a command line come to: a refusal, or the job of a command. -/
theorem job_eq (w : World) (args : List String) :
    w.job args =
      match Arguments.extract args with
      | .error e => .refuse (.usage e)
      | .ok a =>
        match Command.ofArguments w.inputIsTerminal a.rest with
        | .error e => .refuse (.usage e)
        | .ok command => Id.run (Job.ofCommand w.host a.config command) := by
  have hterminal : w.host.inputIsTerminal = w.inputIsTerminal := rfl
  unfold job Job.ofArguments
  rw [← hterminal]
  cases Arguments.extract args with
  | error e => rfl
  | ok a => cases h : Command.ofArguments w.host.inputIsTerminal a.rest <;> simp only [h] <;> rfl

theorem job_eq_run_iff : w.job args = .run settings source ↔ w.Reaches args settings source := by
  constructor
  · intro h
    rw [job_eq] at h
    split at h
    · cases h
    · rename_i a hargs
      split at h
      · cases h
      · rename_i command hcommand
        exact ⟨a, command, hargs, asks_iff.mpr hcommand, ofCommand_eq_run_iff.mp h⟩
  · rintro ⟨a, command, hargs, hcommand, hopens⟩
    simp only [job_eq, hargs, asks_iff.mp hcommand]
    exact ofCommand_eq_run_iff.mpr hopens

/-! ## Outcomes -/

/-- What comes of all the statements that are evaluated for a job. -/
def evaluated (w : World) : Job → List StatementResult
  | .run settings source => settings.results source
  | .converse settings => (w.turns settings).flatMap Turn.results
  | .refuse _ | .present _ => []

/-- A job ends with one of four exit codes, and with 1 only if it is refused: then no statement is
evaluated, standard output is empty and standard error is not. -/
theorem code_perform (w : World) (j : Job) :
    (w.perform j).1.code.number ∈ [0, 1, 65, 70] ∧
    ((w.perform j).1.code.number = 1 → w.evaluated j = [] ∧ (w.perform j).1.output = "" ∧
      (w.perform j).1.errors ≠ "") := by
  have hnumber (code : ExitCode) : code.number ∈ [0, 1, 65, 70] := by cases code <;> decide
  refine ⟨hnumber _, fun h => ?_⟩
  cases j with
  | refuse refusal => exact ⟨rfl, rfl, refusal.text_ne_empty⟩
  | present text => cases h
  | converse settings => cases h
  | run settings source =>
    have hcode : (runSource settings w.errorsToTerminal source).code.number = 1 := h
    rw [code_runSource] at hcode
    split at hcode
    · cases hcode
    · split at hcode <;> cases hcode

/-- A command line ends with exit code 0, 1, 65 or 70; with 1 no statement was evaluated, standard
output is empty and standard error is not.  If it comes to running a source, which it does in
exactly three ways, then the report tells how that went. -/
theorem run_accounts (w : World) (args : List String) :
    (w.run args).1.code.number ∈ [0, 1, 65, 70] ∧
    ((w.run args).1.code.number = 1 → w.evaluated (w.job args) = [] ∧
      (w.run args).1.output = "" ∧ (w.run args).1.errors ≠ "") ∧
    ∀ settings source, (w.job args = .run settings source ↔ w.Reaches args settings source) ∧
      (w.Reaches args settings source →
        Accounts settings w.errorsToTerminal source (w.run args).1) := by
  obtain ⟨hcode, hrefused⟩ := w.code_perform (w.job args)
  refine ⟨hcode, hrefused, fun settings source => ⟨job_eq_run_iff, fun h => ?_⟩⟩
  rw [run, job_eq_run_iff.mpr h]
  exact accounts_runSource settings w.errorsToTerminal source

/-- Settings are found that pass a test, if those that are found do. -/
theorem exists_settings {p : Settings → Bool}
    (h : (w.settings? config start).toOption.any p = true) :
    ∃ settings, w.settings? config start = .ok settings ∧ p settings = true := by
  cases hsettings : w.settings? config start with
  | error e =>
    rw [hsettings] at h
    cases h
  | ok settings =>
    rw [hsettings] at h
    exact ⟨settings, rfl, h⟩

/-- A script with a value to show and a failing statement, in a project that echoes values; and a
text on standard input with errors of all three kinds, reported to a terminal. -/
theorem run_accounts_script :
    let script : World := ⟨⟨[(["a.lox"], "1 == 1;\n-nil;\n"), (["lox.yml"], "echo: true\n")], []⟩,
      "/", none, ⟨[], none⟩, true, false⟩
    let source := Source.read "a.lox" "1 == 1;\n-nil;\n"
    let piped : World := ⟨⟨[], []⟩, "/", none, ⟨Text.Utf8.bytes "print 1 @;\nvar;\n-nil;\n", none⟩,
      false, true⟩
    let flawed := Source.read "<stdin>" "print 1 @;\nvar;\n-nil;\n"
    (∃ settings, settings.echo = true ∧ script.Reaches ["a.lox"] settings source ∧
      Accounts settings false source (script.run ["a.lox"]).1) ∧
    (script.run ["a.lox"]).1.code.number = 70 ∧ (script.run ["a.lox"]).1.output = "true\n" ∧
    (script.run ["a.lox"]).1.errors =
      "[line 2] runtime error: operand of '-' must be a number, got nil\n" ∧
    (∃ settings, settings.color = .auto ∧ piped.Reaches [] settings flawed ∧
      Accounts settings true flawed (piped.run []).1) ∧
    (piped.run []).1.code.number = 65 ∧ (piped.run []).1.output = "1\n" ∧
    (piped.run []).1.errors =
      "\x1b[31m[line 1] scan error: unexpected character '@'\x1b[0m\n" ++
      "\x1b[31m[line 2] parse error at ';': expected 'identifier' after 'var'\x1b[0m\n" ++
      "\x1b[31m[line 3] runtime error: operand of '-' must be a number, got nil\x1b[0m\n" := by
  intro script source piped flawed
  refine ⟨?_, by decide +kernel, by decide +kernel, by decide +kernel, ?_, by decide +kernel,
    by decide +kernel, by decide +kernel⟩
  · -- The settings are those of the file, of which only the echo is looked at.
    obtain ⟨settings, hsettings, hecho⟩ : ∃ settings, script.settings? "" "." = .ok settings ∧
        settings.echo = true := exists_settings (by decide +kernel)
    have htext : script.files.read script.here "a.lox" = .ok "1 == 1;\n-nil;\n" := by
      decide +kernel
    have hreaches : script.Reaches ["a.lox"] settings source :=
      ⟨⟨none, ["a.lox"]⟩, .script "a.lox", by decide, .script (by decide) (by decide),
        .script hsettings htext⟩
    exact ⟨settings, hecho, hreaches,
      ((run_accounts script ["a.lox"]).2.2 settings source).2 hreaches⟩
  · obtain ⟨settings, hsettings, hcolor⟩ : ∃ settings, piped.settings? "" "." = .ok settings ∧
        (settings.color == .auto) = true := exists_settings (by decide +kernel)
    have htext : piped.input.whole = .ok "print 1 @;\nvar;\n-nil;\n" := by decide +kernel
    have hreaches : piped.Reaches [] settings flawed :=
      ⟨⟨none, []⟩, .piped, by decide, .piped rfl, .piped hsettings htext⟩
    exact ⟨settings, eq_of_beq hcolor, hreaches,
      ((run_accounts piped []).2.2 settings flawed).2 hreaches⟩

end World

end Lox.Shell
