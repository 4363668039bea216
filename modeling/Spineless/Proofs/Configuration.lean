import Spineless.Proofs.Ancestors
import Spineless.Runner

/-!
# The configuration of a program

A program without a chosen configuration file takes the nearest one: `nearest_configuration`. The directories
at or above the program's own are asked for a configuration file, nearest first, and the first file that
there is decides, even if it cannot be read or is malformed; nothing farther is asked about. If there is
none, the limits are the defaults. The program's own directory is the parent of its path, or the current
directory if the path has no parent. A chosen file is read without asking. The request may then replace
the step budget, and nothing else.

A file holds a table of which three keys are read. What they may be and what stands for an absent one is said
by `Config.ofTable?_eq_some_iff`, and what is refused by `Config.ofTable?_eq_none_iff`.

What is asked is made visible by access to files that keeps a log. The functions that look for a
configuration work with any access, so they can be followed through the log.
-/

namespace Spineless

/-! ## Files that keep a log -/

/-- What is asked of files. -/
inductive Access where
  /-- To be read. -/
  | read (path : String)
  /-- Whether there is a file. -/
  | test (path : String)
deriving DecidableEq

namespace Files

/-- The text of a file. -/
def text? (fs : Files Id) (path : String) : Option String := fs.readText path

/-- Whether there is a file. -/
def has (fs : Files Id) (path : String) : Bool := fs.isFile path

/-- Access that notes what is asked, in order. -/
def logged (fs : Files Id) : Files (StateM (List Access)) where
  readText path log := (fs.text? path, log ++ [.read path])
  isFile path log := (fs.has path, log ++ [.test path])

end Files

/-- In a tree, what has bytes is a file. Directories are none. -/
theorem FileTree.has_eq_true_iff (t : FileTree) (path : String) :
    t.files.has path = true ↔ ∃ bytes, t.lookup? path = some (.file bytes) := by
  unfold Files.has FileTree.files
  dsimp only
  cases t.lookup? path with
  | none => simp
  | some node =>
      cases node with
      | file bytes => simp
      | directory => simp

namespace Config

variable {fs : Files Id} {file : String} {paths nearer : List String} {log log' : List Access}

/-! ## The keys of a table -/

section Keys

variable {t : Toml.Table} {key : String} {α : Type}

/-- What a key sets a limit to: to its default where the key is absent, else to a natural number. -/
inductive Sets (t : Toml.Table) (key : String) (default : α) (limit : Nat → α) : α → Prop
  | absent (missing : t.find? key = none) : Sets t key default limit default
  | given {n : Nat} (found : t.find? key = some (.integer n)) : Sets t key default limit (limit n)

/-- A key has a value that is no natural number. -/
def Wrong (t : Toml.Table) (key : String) : Prop :=
  ∃ item, t.find? key = some item ∧ ∀ n : Nat, item ≠ .integer n

/-- A key that is read is absent, or has a natural number. -/
theorem natural?_eq_some_iff {found : Option Nat} :
    natural? t key = some found ↔ Sets t key none some found := by
  constructor
  · intro h
    unfold natural? at h
    split at h
    · next hmissing =>
      cases h
      exact .absent hmissing
    · next n hn =>
      split at h
      · next hle =>
        cases h
        exact .given (by rw [hn, Int.toNat_of_nonneg hle])
      · cases h
    · cases h
  · rintro (hmissing | hn)
    · simp only [natural?, hmissing]
    · simp [natural?, hn]

/-- A key that cannot be read has a value that is no natural number. -/
theorem natural?_eq_none_iff : natural? t key = none ↔ Wrong t key := by
  unfold natural?
  split
  · next hmissing => simp [Wrong, hmissing]
  · next n hn =>
      simp only [Wrong, hn, Option.some.injEq, exists_eq_left', ne_eq, Toml.Item.integer.injEq]
      split
      · next hle => simpa using ⟨n.toNat, (Int.toNat_of_nonneg hle).symm⟩
      · next hneg =>
          have hnot : ∀ m : Nat, n ≠ m := fun m hm => hneg (hm ▸ Int.natCast_nonneg m)
          simpa using hnot
  · next item hother hn =>
      simp only [true_iff]
      exact ⟨item, hn, fun n => hother n⟩

theorem sets_getD_iff {default value : Nat} :
    Sets t key default id value ↔ ∃ found, natural? t key = some found ∧ found.getD default = value := by
  simp only [natural?_eq_some_iff]
  constructor
  · rintro (hmissing | hn)
    · exact ⟨none, .absent hmissing, rfl⟩
    · exact ⟨some _, .given hn, rfl⟩
  · rintro ⟨found, hmissing | hn, rfl⟩
    · exact .absent hmissing
    · exact .given hn

/-- Three keys of a table are read and no others. Each sets its limit, or leaves it at its default. -/
theorem ofTable?_eq_some_iff {config : Config} :
    ofTable? t = some config ↔
      Sets t "max_steps" none some config.maxSteps ∧
      Sets t "max_stack_depth" 1048576 id config.maxStackDepth ∧
      Sets t "eval_stack_limit" 64 id config.traceLimit := by
  rw [← natural?_eq_some_iff, sets_getD_iff, sets_getD_iff]
  constructor
  · intro h
    obtain ⟨steps, hsteps, h⟩ := Option.bind_eq_some_iff.1 h
    obtain ⟨depth, hdepth, h⟩ := Option.bind_eq_some_iff.1 h
    obtain ⟨limit, hlimit, h⟩ := Option.bind_eq_some_iff.1 h
    cases h
    exact ⟨hsteps, ⟨depth, hdepth, rfl⟩, ⟨limit, hlimit, rfl⟩⟩
  · rintro ⟨hsteps, ⟨depth, hdepth, hmaxStackDepth⟩, ⟨limit, hlimit, htraceLimit⟩⟩
    obtain ⟨steps, maxStackDepth, traceLimit⟩ := config
    subst hmaxStackDepth htraceLimit
    simp only [ofTable?, hsteps, hdepth, hlimit, Option.bind_eq_bind, Option.bind_some]
    rfl

/-- A table is refused exactly if one of the three keys has a value that is no natural number. -/
theorem ofTable?_eq_none_iff :
    ofTable? t = none ↔ ∃ key ∈ ["max_steps", "max_stack_depth", "eval_stack_limit"], Wrong t key := by
  simp only [List.mem_cons, List.not_mem_nil, or_false, exists_eq_or_imp, exists_eq_left,
    ← natural?_eq_none_iff]
  unfold ofTable?
  cases natural? t "max_steps" with
  | none => simp
  | some steps =>
      cases natural? t "max_stack_depth" with
      | none => simp
      | some depth =>
          cases natural? t "eval_stack_limit" with
          | none => simp
          | some limit => simp

end Keys

/-! ## Loading a file -/

/-- What comes of a configuration file. -/
inductive LoadedFrom (fs : Files Id) (file : String) : Except ConfigError Config → Prop
  | unreadable (absent : fs.text? file = none) : LoadedFrom fs file (.error (.unreadable file))
  | malformed {text : String} (text_eq : fs.text? file = some text)
      (rejected : (Toml.parse? text).bind ofTable? = none) : LoadedFrom fs file (.error (.malformed file))
  | limits {text : String} {config : Config} (text_eq : fs.text? file = some text)
      (accepted : (Toml.parse? text).bind ofTable? = some config) : LoadedFrom fs file (.ok config)

theorem load_eq : load fs file = match fs.text? file with
    | some text => parse file text
    | none => .error (.unreadable file) :=
  rfl

theorem loadedFrom_load (fs : Files Id) (file : String) : LoadedFrom fs file (load fs file) := by
  rw [load_eq]
  cases htext : fs.text? file with
  | none => exact .unreadable htext
  | some text =>
      dsimp only
      rw [parse]
      split
      · next config haccepted => exact .limits htext haccepted
      · next hrejected => exact .malformed htext hrejected

/-- A file is loaded by reading it. -/
theorem load_logged : (load fs.logged file).run log = (load fs file, log ++ [.read file]) := by
  have hread : fs.logged.readText file log = (fs.text? file, log ++ [.read file]) := rfl
  rw [load, StateT.run_bind, load_eq, StateT.run, hread]
  cases fs.text? file with
  | none => rfl
  | some text => rfl

/-! ## Looking for a file -/

theorem firstFile?_eq_find? : firstFile? fs paths = paths.find? fs.has := by
  induction paths with
  | nil => rfl
  | cons path paths ih =>
      have hask : firstFile? fs (path :: paths) =
          if fs.has path then some path else firstFile? fs paths := rfl
      rw [hask, ih, List.find?_cons]
      cases fs.has path with
      | false => rfl
      | true => rfl

/-- Paths that are no files are asked about and passed over. -/
theorem firstFile?_logged_skip (h : ∀ path ∈ nearer, fs.has path = false) :
    (firstFile? fs.logged (nearer ++ paths)).run log =
      (firstFile? fs.logged paths).run (log ++ nearer.map .test) := by
  induction nearer generalizing log with
  | nil => rw [List.map_nil, List.append_nil, List.nil_append]
  | cons path nearer ih =>
      have htest : fs.logged.isFile path log = (false, log ++ [.test path]) := by
        rw [← h path List.mem_cons_self]
        rfl
      have hrest : ∀ other ∈ nearer, fs.has other = false := fun other hother =>
        h other (List.mem_cons_of_mem _ hother)
      rw [List.cons_append, firstFile?, StateT.run_bind, StateT.run, htest]
      exact (ih hrest).trans (by rw [List.map_cons, List.append_assoc, List.singleton_append])

/-- A path that is a file ends the search. -/
theorem firstFile?_logged_found (h : fs.has file = true) :
    (firstFile? fs.logged (file :: paths)).run log = (some file, log ++ [.test file]) := by
  have htest : fs.logged.isFile file log = (true, log ++ [.test file]) := by
    rw [← h]
    rfl
  rw [firstFile?, StateT.run_bind, StateT.run, htest]
  rfl

/-! ## The nearest file -/

/-- The configuration file of a directory. -/
def fileIn (directory : String) : String := Path.inside directory fileName

/-- The nearest directory at or above another in which the configuration file is a file. -/
structure Nearest (fs : Files Id) (start dir : String) : Prop where
  above : Path.AtOrAbove dir start
  has : fs.has (fileIn dir) = true
  longest : ∀ other, Path.AtOrAbove other start → fs.has (fileIn other) = true →
    other.length ≤ dir.length

/-- Where the limits of a request come from, which may choose a file: what is asked of the files, in
order, and what is loaded. -/
inductive Origin (fs : Files Id) (start : String) :
    Option String → List Access → Except ConfigError Config → Prop
  | chosen {file : String} {loaded : Except ConfigError Config} (contents : LoadedFrom fs file loaded) :
      Origin fs start (some file) [.read file] loaded
  | nearest {dir : String} {dirs : List String} {loaded : Except ConfigError Config}
      (nearest : Nearest fs start dir) (asked : Path.Climb start dir.length dirs)
      (contents : LoadedFrom fs (fileIn dir) loaded) :
      Origin fs start none (dirs.map (.test ∘ fileIn) ++ [.read (fileIn dir)]) loaded
  | defaults {dirs : List String} (asked : Path.Climb start 0 dirs)
      (absent : ∀ dir ∈ dirs, fs.has (fileIn dir) = false) :
      Origin fs start none (dirs.map (.test ∘ fileIn)) (.ok {})

theorem discover_eq (fs : Files Id) (start : String) :
    discover fs start = match (Path.ancestors start).find? (fs.has ∘ fileIn) with
      | some dir => load fs (fileIn dir)
      | none => .ok {} := by
  have hsearch : discover fs start = match firstFile? fs ((Path.ancestors start).map fileIn) with
      | some file => load fs file
      | none => .ok {} := rfl
  rw [hsearch, firstFile?_eq_find?, List.find?_map]
  cases (Path.ancestors start).find? (fs.has ∘ fileIn) with
  | none => rfl
  | some dir => rfl

theorem discover_logged {start : String} {found : Option String}
    (h : (firstFile? fs.logged ((Path.ancestors start).map fileIn)).run log = (found, log')) :
    (discover fs.logged start).run log =
      (match found with
        | some file => load fs.logged file
        | none => pure (.ok {})).run log' := by
  rw [discover, StateT.run_bind]
  exact congrArg (fun answer => StateT.run (match answer.1 with
    | some file => load fs.logged file
    | none => pure (.ok {})) answer.2) h

/-- The first of the ancestors with a configuration file is the nearest one. -/
theorem nearest_of_ancestors_eq {start dir : String} {dirs farther : List String}
    (h : Path.ancestors start = dirs ++ [dir] ++ farther)
    (hdirs : ∀ other ∈ dirs, fs.has (fileIn other) = false)
    (hdir : fs.has (fileIn dir) = true) : Nearest fs start dir := by
  have hmem : dir ∈ Path.ancestors start := by simp [h]
  refine ⟨(((Path.climb_ancestors start).mem_iff dir).1 hmem).1, hdir, fun other habove hother => ?_⟩
  by_contra hlonger
  have hasked := ((Path.climb_of_ancestors_eq h).mem_iff other).2 ⟨habove, Nat.le_of_not_le hlonger⟩
  rcases List.mem_append.1 hasked with hnearer | hself
  · rw [hdirs other hnearer] at hother
    cases hother
  · rw [List.mem_singleton.1 hself] at hlonger
    exact hlonger (Nat.le_refl _)

/-- The search from a directory loads the nearest file, or gives the defaults. -/
theorem discover_origin (fs : Files Id) (start : String) :
    ∃ log, Origin fs start none log (discover fs start) ∧
      (discover fs.logged start).run [] = (discover fs start, log) := by
  rw [discover_eq]
  cases hfind : (Path.ancestors start).find? (fs.has ∘ fileIn) with
  | none =>
      have habsent : ∀ dir ∈ Path.ancestors start, fs.has (fileIn dir) = false := fun dir hdir =>
        eq_false_of_ne_true (List.find?_eq_none.1 hfind dir hdir)
      have hsearch : (firstFile? fs.logged ((Path.ancestors start).map fileIn ++ [])).run [] =
          (none, [] ++ ((Path.ancestors start).map fileIn).map .test) :=
        firstFile?_logged_skip (List.forall_mem_map.2 habsent)
      rw [List.append_nil, List.nil_append, List.map_map] at hsearch
      exact ⟨_, .defaults (Path.climb_ancestors start) habsent, discover_logged hsearch⟩
  | some dir =>
      obtain ⟨hdir, dirs, farther, heq, hpassed⟩ := List.find?_eq_some_iff_append.1 hfind
      have habsent : ∀ other ∈ dirs, fs.has (fileIn other) = false := fun other hother => by
        simpa using hpassed other hother
      have hancestors : Path.ancestors start = dirs ++ [dir] ++ farther := by simp [heq]
      have hsearch : (firstFile? fs.logged ((Path.ancestors start).map fileIn)).run [] =
          (some (fileIn dir), (dirs ++ [dir]).map (.test ∘ fileIn)) := by
        rw [heq, List.map_append, List.map_cons,
          firstFile?_logged_skip (List.forall_mem_map.2 habsent), firstFile?_logged_found hdir]
        simp
      refine ⟨_, .nearest (nearest_of_ancestors_eq hancestors habsent hdir)
        (Path.climb_of_ancestors_eq hancestors) (loadedFrom_load fs _), ?_⟩
      rw [discover_logged hsearch]
      exact load_logged

end Config

/-! ## Requests -/

/-- What becomes of loaded limits: a request may set the step budget and nothing else. -/
inductive RunOptions.Settles (options : RunOptions) :
    Except ConfigError Config → Except ConfigError Config → Prop
  | failed (e : ConfigError) : Settles options (.error e) (.error e)
  | limits {loaded config : Config}
      (given : ∀ n, options.maxSteps = some n → config.maxSteps = some n)
      (kept : options.maxSteps = none → config.maxSteps = loaded.maxSteps)
      (maxStackDepth : config.maxStackDepth = loaded.maxStackDepth)
      (traceLimit : config.traceLimit = loaded.traceLimit) : Settles options (.ok loaded) (.ok config)

/-- Putting the step budget of the request before the loaded one settles the limits. -/
theorem RunOptions.settles_map (options : RunOptions) (loaded : Except ConfigError Config) :
    options.Settles loaded
      (loaded.map fun config => { config with maxSteps := options.maxSteps.or config.maxSteps }) := by
  cases loaded with
  | error e => exact .failed e
  | ok loaded =>
      refine .limits (fun n hn => ?_) (fun hnone => ?_) rfl rfl
      · change options.maxSteps.or loaded.maxSteps = some n
        rw [hn, Option.some_or]
      · change options.maxSteps.or loaded.maxSteps = loaded.maxSteps
        rw [hnone, Option.none_or]

namespace Runner

/-- The limits for a program file as they are loaded. -/
def loadedConfig {m : Type → Type} [Monad m] (fs : Files m) (path : String) (options : RunOptions) :
    m (Except ConfigError Config) :=
  match options.config with
  | some file => Config.load fs file
  | none => Config.discover fs (Path.directory path)

theorem resolveConfig_eq {m : Type → Type} [Monad m] (fs : Files m) (path : String) (options : RunOptions) :
    resolveConfig fs path options = do
      let loaded ← loadedConfig fs path options
      return loaded.map fun config => { config with maxSteps := options.maxSteps.or config.maxSteps } := by
  unfold resolveConfig loadedConfig
  cases options.config with
  | none => rfl
  | some file => rfl

theorem loadedConfig_origin (fs : Files Id) (path : String) (options : RunOptions) :
    ∃ log, Config.Origin fs (Path.directory path) options.config log (loadedConfig fs path options) ∧
      (loadedConfig fs.logged path options).run [] = (loadedConfig fs path options, log) := by
  unfold loadedConfig
  cases options.config with
  | none => exact Config.discover_origin fs (Path.directory path)
  | some file => exact ⟨[.read file], .chosen (Config.loadedFrom_load fs file), Config.load_logged⟩

/-- What a request for limits comes to, and what it asks of the files. -/
def resolveLogged (fs : Files Id) (path : String) (options : RunOptions) :
    Except ConfigError Config × List Access :=
  (resolveConfig fs.logged path options).run []

/-- The limits for a program are those of the chosen file, or of the nearest one at or above the
program's directory, or the defaults, with the step budget of the request if it has one. Nothing else is
asked of the files than to find that file and to read it; directories are no such files. -/
theorem nearest_configuration :
    (∀ (fs : Files Id) (path : String) (options : RunOptions), ∃ log loaded,
      Config.Origin fs (Path.directory path) options.config log loaded ∧
      options.Settles loaded (resolveConfig fs path options) ∧
      resolveLogged fs path options = (resolveConfig fs path options, log)) ∧
    ∀ (t : FileTree) (file : String),
      t.files.has file = true ↔ ∃ bytes, t.lookup? file = some (.file bytes) := by
  refine ⟨fun fs path options => ?_, FileTree.has_eq_true_iff⟩
  obtain ⟨log, horigin, hlogged⟩ := loadedConfig_origin fs path options
  refine ⟨log, loadedConfig fs path options, horigin, ?_, ?_⟩
  · rw [resolveConfig_eq]
    exact options.settles_map (loadedConfig fs path options)
  · rw [resolveLogged, resolveConfig_eq, StateT.run_bind, hlogged, resolveConfig_eq]
    rfl

/-- In the program's directory `stg.toml` is a directory; the one above has a file of that name which
is not text. That file decides, and the empty one above it, which gives the defaults, is not asked about. -/
theorem nearest_configuration_unreadable :
    let t : FileTree := { entries := [
      (["stg.toml"], .file ⟨#[]⟩),
      (["a", "stg.toml"], .file ⟨#[0xff]⟩),
      (["a", "b", "stg.toml"], .directory)] }
    let options : RunOptions := { maxSteps := some 5 }
    ∃ loaded,
      Config.Origin t.files "a/b" none
        [.test "a/b/stg.toml", .test "a/stg.toml", .read "a/stg.toml"] loaded ∧
      options.Settles loaded (.error (.unreadable "a/stg.toml")) := by
  intro t options
  obtain ⟨log, loaded, horigin, hsettles, hlogged⟩ :=
    nearest_configuration.1 t.files "a/b/main.json" options
  have hrun : resolveLogged t.files "a/b/main.json" options =
      (.error (.unreadable "a/stg.toml"),
        [.test "a/b/stg.toml", .test "a/stg.toml", .read "a/stg.toml"]) := by decide +kernel
  have hdirectory : Path.directory "a/b/main.json" = "a/b" := by decide +kernel
  obtain ⟨hresult, hlog⟩ := Prod.mk.inj (hlogged.symm.trans hrun)
  rw [hresult] at hsettles
  rw [hlog, hdirectory] at horigin
  exact ⟨loaded, horigin, hsettles⟩

end Runner

end Spineless
