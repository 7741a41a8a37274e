import Inlay.CommandLine.Basic
import Inlay.Proofs.Phases
import Inlay.Proofs.Registrations
import Inlay.Proofs.Replace
import Inlay.Proofs.Spelling

namespace Inlay.CommandLine

namespace Dotenv

variable {d : Disk} {vars vars' : Variables} {lines : List Bytes} {k x : String}

/-- A line that is understood: an assignment with its value put together, or none. -/
def Tells (vars : Variables) (bytes : Bytes) (assigned : Option (String × String)) : Prop :=
  ∃ text, Text.decode? bytes = some text ∧ line vars text.toList = some assigned

/-- The variable of an assignment is set, unless it is set before; no variable has a value with the character that
ends one. -/
structure Assigns (vars : Variables) (assigned : Option (String × String)) (vars' : Variables) : Prop where
  get? : ∀ k x, vars'.get? k = some x ↔ vars.get? k = some x ∨ vars.get? k = none ∧ assigned = some (k, x)
  value : ∀ k x, assigned = some (k, x) → vars.get? k = none → '\x00' ∉ x.toList

/-- All of the lines are understood, and one after the other assigned. -/
inductive Sets : List Bytes → Variables → Variables → Prop
  | nil (vars : Variables) : Sets [] vars vars
  | cons {bytes : Bytes} {rest : List Bytes} {vars vars₁ vars' : Variables} {assigned : Option (String × String)}
      (hline : Tells vars bytes assigned) (hassigns : Assigns vars assigned vars₁) (hrest : Sets rest vars₁ vars') :
      Sets (bytes :: rest) vars vars'

/-- The lines of the nearest file are assigned, up to the first that is not understood. -/
inductive Completes (d : Disk) (vars vars' : Variables) : Prop
  | without (hnearest : nearest d (ancestors d.workingDirectory) = none) (hvars : vars' = vars) : Completes d vars vars'
  | file {content : Bytes} {read rest : List Bytes}
      (hnearest : nearest d (ancestors d.workingDirectory) = some content) (hlines : splitLines content = read ++ rest)
      (hread : Sets read vars vars') (hrest : ∀ bytes ∈ rest.head?, ¬∃ assigned, Tells vars' bytes assigned) :
      Completes d vars vars'

theorem Assigns.unique {assigned : Option (String × String)} (h : Assigns vars assigned vars')
    {vars'' : Variables} (h' : Assigns vars assigned vars'') : vars' = vars'' := by
  refine Table.eq_of_get? fun j => Option.ext fun y => ?_
  rw [h.get?, h'.get?]

end Dotenv

/-! ### The words of a command line -/

variable {d : Disk} {vars : Variables} {env : Environment} {before after given : Given} {f : Flag} {v : Invocation} {q : Request}
  {arguments : List String}

def IsGiven (f : Flag) (given : Given) : Prop := ∃ value, (f, value) ∈ given

/-- The path of the settings: after the name of the command, before it, or in the variable. -/
inductive NamesSettings (vars : Variables) (before after : Given) : String → Prop
  | after {path : String} (h : (.settings, path) ∈ after) : NamesSettings vars before after path
  | before {path : String} (hno : ¬ IsGiven .settings after) (h : (.settings, path) ∈ before) :
      NamesSettings vars before after path
  | environment {path : String} (hafter : ¬ IsGiven .settings after) (hbefore : ¬ IsGiven .settings before)
      (h : vars.get? settingsVariable = some path) : NamesSettings vars before after path

structure Asks (after : Given) (q : Request) : Prop where
  dsl : (.dsl, q.dsl) ∈ after
  packageKey : ∀ key, q.packageKey = some key ↔ (.packageKey, key) ∈ after
  fusionFile : ∀ path, q.fusionFile = some path ↔ ∃ value, (.fusionFile, value) ∈ after ∧ Text.encode value = path
  presentation : q.presentation = .full ↔ IsGiven .noDiff after

/-- A command by its name, with the flags that it may have. -/
inductive Commands (after : Given) : String → List Flag → Command → Prop
  | expand {q : Request} (h : Asks after q) : Commands after q.mode.name Flag.expanding (.expand q)
  | list : Commands after "list" Flag.general .list

/-- What is asked for by the words of a command line: flags, the name of a command, and its flags. -/
inductive Says (vars : Variables) (arguments : List String) (v : Invocation) : Prop
  | words {rest : List String} {name : String} {known : List Flag} {before after : Given}
      (hbefore : Splits Flag.leading arguments before (name :: rest)) (hafter : Splits known rest after [])
      (hvalid : IsValid before ∧ IsValid after) (hcommand : Commands after name known v.command)
      (hsettings : ∀ path, v.settings = some path ↔ NamesSettings vars before after path)
      (husable : vars.get? settingsVariable = some "" → IsGiven .settings before ∧ IsGiven .settings after)
      (hverbose : v.verbose = true ↔ IsGiven .verbose before ∨ IsGiven .verbose after) : Says vars arguments v

theorem isSome_value? (hg : IsValid given) : (value? given f).isSome = true ↔ IsGiven f given := by
  rw [Option.isSome_iff_exists]
  exact exists_congr fun _ => value?_eq_some hg

theorem value?_eq_none (hg : IsValid given) : value? given f = none ↔ ¬ IsGiven f given := by
  rw [← isSome_value? hg, Option.not_isSome_iff_eq_none]

theorem settingsPath_eq_some (hb : IsValid before) (ha : IsValid after) {settings : Option String} :
    settingsPath vars before after = some settings ↔
      (vars.get? settingsVariable = some "" → IsGiven .settings before ∧ IsGiven .settings after) ∧
        settings = (value? after .settings).or ((value? before .settings).or (vars.get? settingsVariable)) := by
  rw [← isSome_value? hb, ← isSome_value? ha]
  unfold settingsPath
  cases value? after .settings <;> cases value? before .settings <;> split <;> simp_all [eq_comm]

theorem or_eq_some (hb : IsValid before) (ha : IsValid after) (path : String) :
    (value? after .settings).or ((value? before .settings).or (vars.get? settingsVariable)) = some path ↔
      NamesSettings vars before after path := by
  rw [Option.or_eq_some_iff, Option.or_eq_some_iff, value?_eq_some ha, value?_eq_some hb, value?_eq_none ha,
    value?_eq_none hb]
  constructor
  · rintro (h | ⟨hno, h | ⟨hno', h⟩⟩)
    · exact .after h
    · exact .before hno h
    · exact .environment hno hno' h
  · intro h
    cases h with
    | after h => exact .inl h
    | before hno h => exact .inr ⟨hno, .inl h⟩
    | environment hno hno' h => exact .inr ⟨hno, .inr ⟨hno', h⟩⟩

theorem ofNoDiff_eq_full {b : Bool} : Presentation.ofNoDiff b = .full ↔ b = true := by
  cases b <;> decide

theorem presentation_eq {p p' : Presentation} : p = p' ↔ (p = .full ↔ p' = .full) := by
  cases p <;> cases p' <;> decide

theorem asks_iff (ha : IsValid after) : Asks after q ↔
    value? after .dsl = some q.dsl ∧ q = ⟨q.dsl, value? after .packageKey, (value? after .fusionFile).map Text.encode,
      q.mode, .ofNoDiff (has after .noDiff)⟩ := by
  have heq {a : Option String} {f : Flag} : a = value? after f ↔ ∀ x, a = some x ↔ (f, x) ∈ after := by
    rw [Option.ext_iff]
    exact forall_congr' fun x => by rw [value?_eq_some ha]
  have hfile {path : Option Path} : path = (value? after .fusionFile).map Text.encode ↔
      ∀ p, path = some p ↔ ∃ value, (.fusionFile, value) ∈ after ∧ Text.encode value = p := by
    rw [Option.ext_iff]
    exact forall_congr' fun p => by simp only [Option.map_eq_some_iff, value?_eq_some ha]
  have hpresentation : q.presentation = .ofNoDiff (has after .noDiff) ↔
      (q.presentation = .full ↔ IsGiven .noDiff after) := by
    rw [presentation_eq, ofNoDiff_eq_full, has, isSome_value? ha]
  obtain ⟨dsl, packageKey, fusionFile, mode, presentation⟩ := q
  rw [value?_eq_some ha]
  simp only [Request.mk.injEq, true_and, heq, hfile, hpresentation]
  constructor
  · rintro ⟨hdsl, hkey, hpath, hpresentation⟩
    exact ⟨hdsl, hkey, hpath, hpresentation⟩
  · rintro ⟨hdsl, hkey, hpath, hpresentation⟩
    exact ⟨hdsl, hkey, hpath, hpresentation⟩

theorem command?_eq_some (ha : IsValid after) {name : String} {known : List Flag} {command : Command} :
    (∃ make, command? name = some (known, make) ∧ make after = some command) ↔
      Commands after name known command := by
  constructor
  · rintro ⟨make, hname, hmake⟩
    have hexpand (mode : Mode) {dsl : String} (hdsl : value? after .dsl = some dsl) :
        Commands after mode.name Flag.expanding (.expand ⟨dsl, value? after .packageKey,
          (value? after .fusionFile).map Text.encode, mode, .ofNoDiff (has after .noDiff)⟩) :=
      .expand (q := ⟨dsl, _, _, mode, _⟩) ((asks_iff ha).2 ⟨hdsl, rfl⟩)
    unfold command? at hname
    split at hname
    · next h =>
        cases hname
        obtain ⟨dsl, hdsl, hcommand⟩ := Option.bind_eq_some_iff.1 hmake
        cases hcommand
        exact h ▸ hexpand .simulate hdsl
    · split at hname
      · next h =>
          cases hname
          obtain ⟨dsl, hdsl, hcommand⟩ := Option.bind_eq_some_iff.1 hmake
          cases hcommand
          exact h ▸ hexpand .eject hdsl
      · split at hname
        · next h =>
            cases hname
            cases hmake
            exact h ▸ .list
        · cases hname
  · intro h
    cases h with
    | list => exact ⟨_, rfl, rfl⟩
    | @expand q hasks =>
        obtain ⟨hdsl, hq⟩ := (asks_iff ha).1 hasks
        rw [hq]
        cases q.mode with
        | simulate => exact ⟨_, rfl, Option.bind_eq_some_iff.2 ⟨q.dsl, hdsl, rfl⟩⟩
        | eject => exact ⟨_, rfl, Option.bind_eq_some_iff.2 ⟨q.dsl, hdsl, rfl⟩⟩

theorem parse_of_readFlags {name : String} {rest operands : List String} {known : List Flag}
    {make : Given → Option Command} (hbefore : readFlags Flag.leading [] arguments = .ok (before, name :: rest))
    (hname : command? name = some (known, make)) (hafter : readFlags known [] rest = .ok (after, operands)) :
    parse vars arguments = .ok v ↔ operands = [] ∧ make after = some v.command ∧
      settingsPath vars before after = some v.settings ∧ v.verbose = (has before .verbose || has after .verbose) := by
  obtain ⟨settings, verbose, command⟩ := v
  unfold parse
  simp only [hbefore, hname, hafter, bind, Except.bind]
  cases operands <;> cases make after <;> cases settingsPath vars before after <;>
    simp [and_comm, and_left_comm, eq_comm]

theorem parse_eq_ok : parse vars arguments = .ok v ↔ Says vars arguments v := by
  have hverbose {before after : Given} (hb : IsValid before) (ha : IsValid after) :
      v.verbose = (has before .verbose || has after .verbose) ↔
        (v.verbose = true ↔ IsGiven .verbose before ∨ IsGiven .verbose after) := by
    rw [Bool.eq_iff_iff, Bool.or_eq_true, has, has, isSome_value? hb, isSome_value? ha]
  have hsettings {before after : Given} (hb : IsValid before) (ha : IsValid after) :
      v.settings = (value? after .settings).or ((value? before .settings).or (vars.get? settingsVariable)) ↔
        ∀ path, v.settings = some path ↔ NamesSettings vars before after path := by
    rw [Option.ext_iff]
    exact forall_congr' fun path => by rw [or_eq_some hb ha]
  constructor
  · intro h
    obtain ⟨⟨before, rest⟩, hbefore, hrest⟩ := bind_eq_ok.1 h
    cases rest with
    | nil => cases hrest
    | cons name rest =>
        cases hname : command? name with
        | none =>
            simp only [hname] at hrest
            cases hrest
        | some known =>
            obtain ⟨known, make⟩ := known
            simp only [hname] at hrest
            obtain ⟨⟨after, operands⟩, hafter, -⟩ := bind_eq_ok.1 hrest
            obtain ⟨rfl, hmake, hpath, hv⟩ := (parse_of_readFlags hbefore hname hafter).1 h
            obtain ⟨hbefore, hb⟩ := readFlags_nil_eq_ok.1 hbefore
            obtain ⟨hafter, ha⟩ := readFlags_nil_eq_ok.1 hafter
            obtain ⟨husable, hpath⟩ := (settingsPath_eq_some hb ha).1 hpath
            exact ⟨hbefore, hafter, ⟨hb, ha⟩, (command?_eq_some ha).1 ⟨make, hname, hmake⟩,
              (hsettings hb ha).1 hpath, husable, (hverbose hb ha).1 hv⟩
  · rintro ⟨hbefore, hafter, ⟨hb, ha⟩, hcommand, hpath, husable, hv⟩
    obtain ⟨make, hname, hmake⟩ := (command?_eq_some ha).2 hcommand
    apply (parse_of_readFlags (readFlags_nil_eq_ok.2 ⟨hbefore, hb⟩) hname (readFlags_nil_eq_ok.2 ⟨hafter, ha⟩)).2
    refine ⟨rfl, hmake, (settingsPath_eq_some hb ha).2 ⟨husable, (hsettings hb ha).2 hpath⟩, ?_⟩
    exact (hverbose hb ha).2 hv

/-! ### What the library does -/

variable {path : Option Path} {stdin : Bytes}

/-- The settings and the registry of a call, or the error of the first of them that fails. -/
inductive Prepares (d : Disk) (env : Environment) (path : Option Path) : Except Error (Settings × Registry) → Prop
  | noSettings {fault : Settings.LoadError} (h : Settings.load d env path = .error fault) :
      Prepares d env path (.error fault.error)
  | noRegistry {s : Settings} {e : Error} (hs : Settings.load d env path = .ok s)
      (hr : Registry.ofSettings env s = .error e) : Prepares d env path (.error e)
  | both {s : Settings} {r : Registry} (hs : Settings.load d env path = .ok s)
      (hr : Registry.ofSettings env s = .ok r) : Prepares d env path (.ok (s, r))

def explorer (env : Environment) (s : Settings) (r : Registry) : Explorer :=
  ⟨r, Packages.ofSettings s, env.surroundings, {}, s.fileExtension⟩

/-- What becomes of a request, with the warnings of its run, and the disk, the output and the input it leaves. -/
inductive Answers (d : Disk) (env : Environment) (path : Option Path) (q : Request) (stdin : Bytes) :
    Except Error Report → List Warning → World → Prop
  | unprepared {e : Error} (h : Prepares d env path (.error e)) :
      Answers d env path q stdin (.error e) [] ⟨d, {}, stdin⟩
  | done {s : Settings} {r : Registry} {report : Report} {w : World} (h : Prepares d env path (.ok (s, r)))
      (hrun : ((explorer env s r).run q).run ⟨d, {}, stdin⟩ = (.ok report, w)) :
      Answers d env path q stdin (.ok report) ((explorer env s r).warnings d q) w
  | aborted {s : Settings} {r : Registry} {e : Error} {w : World} (h : Prepares d env path (.ok (s, r)))
      (hrun : ((explorer env s r).run q).run ⟨d, {}, stdin⟩ = (.error e, w)) :
      Answers d env path q stdin (.error e) ((explorer env s r).warnings d q ++ [.aborted e]) w

structure Shows {α : Type} (result : Except Error α) (warnings : List Warning) (o : Outcome) : Prop where
  succeeds : (o.status = 0 ∧ o.complaint = "") ↔ ∃ a, result = .ok a
  fails : ∀ e, result = .error e → o.status = 1 ∧ o.complaint = "Error: " ++ e.message ++ "\n"
  warnings : o.warnings = warnings

def configuration : Bytes :=
  Text.encode "\x7b\"dsl\":\x7b\"md\":\x7b\"type\":\"template\",\"template\":\"\"\x7d\x7d\x7d"

def configured : Disk where
  entries := ⟨[([".env"], .file 0o644 (Text.encode "FUSION_DSL_SETTINGS=s.json\n")),
    (["s.json"], .file 0o644 configuration)], by decide⟩
  workingDirectory := []

def named : Variables := .insert .empty settingsVariable "s.json"

end Inlay.CommandLine
