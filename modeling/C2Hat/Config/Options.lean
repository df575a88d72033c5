import Mathlib.Data.List.TakeDrop
import C2Hat.Config.Handler

/-!
# Defaults, file and command line

`parseOptions` lets the command line override the configuration file, and the file the
defaults.  Its result is wrong after an unknown option when there is a configuration file, and
a value counts as not given when it is the empty string or zero, or is cut when it is long.

## Main definitions

* `fileOf`, `IniFile.Clean` — the file that is read, and a file without errors.
* `fileValue`, `layered` — the value of a setting in the file, and under the command line.
* `SoundOptions` — the result is right, and the settings are layered.

## Main results

* `parseOptions_of_accepted`, `parseOptions_of_not_accepted` — what `parseOptions` computes.
* `soundOptions_iff` — **exactly when the options are parsed right**.
-/

namespace C2Hat

open Clib

/-! ### What is given -/

/-- The last option of a kind. -/
def lastOption {α : Type} (kind : Opt → Option α) (opts : List Opt) : Option α :=
  (opts.filterMap kind).getLast?

/-- The arguments of the options. -/
def Opt.hostArg : Opt → Option CStr
  | .host optarg => some optarg
  | _ => none
def Opt.portArg : Opt → Option CStr
  | .port optarg => some optarg
  | _ => none
def Opt.maxClientsArg : Opt → Option CStr
  | .maxClients optarg => some optarg
  | _ => none
def Opt.sslCertArg : Opt → Option CStr
  | .sslCert optarg => some optarg
  | _ => none
def Opt.sslKeyArg : Opt → Option CStr
  | .sslKey optarg => some optarg
  | _ => none
def Opt.configFileArg : Opt → Option CStr
  | .configFile optarg => some optarg
  | _ => none

/-- The values of the command line. -/
def cliHost (opts : List Opt) : Option Bytes := (lastOption Opt.hostArg opts).map CStr.bytes
def cliPort (opts : List Opt) : Option (BitVec 32) :=
  (lastOption Opt.portArg opts).map fun s => atoi s.bytes
def cliMaxConnections (opts : List Opt) : Option (BitVec 32) :=
  (lastOption Opt.maxClientsArg opts).map fun s => atoi s.bytes
def cliCert (opts : List Opt) : Option Bytes := (lastOption Opt.sslCertArg opts).map CStr.bytes
def cliKey (opts : List Opt) : Option Bytes := (lastOption Opt.sslKeyArg opts).map CStr.bytes

/-- The entries of a file. -/
def IniLine.entry? : IniLine → Option Entry
  | .entry e => some e
  | _ => none

/-- The last entry for a setting. -/
def lastEntry (k : Key) (lines : List IniLine) : Option Entry :=
  ((lines.filterMap IniLine.entry?).filter fun e => e.key == some k).getLast?

/-- The last value a file has for a setting. -/
def IniFile.value (file : IniFile) (k : Key) : Option Bytes :=
  match file with
  | .lines ls => (lastEntry k ls).map fun e => e.value.bytes
  | _ => none

/-- A line without an error. -/
def IniLine.Clean : IniLine → Prop
  | .other => True
  | .entry e => e.key.isSome = true
  | .malformed => False

/-- A file that is read without an error. -/
def IniFile.Clean : IniFile → Prop
  | .lines ls => ∀ line ∈ ls, line.Clean
  | _ => False

/-- The name of the configuration file. -/
def fileName (env : Environment) (opts : List Opt) : Bytes :=
  let given := ((lastOption Opt.configFileArg opts).map CStr.bytes).getD []
  if given = [] then env.configFilePath.str.bytes else given.take (kMaxPath - 2)

/-- The configuration file, if there is one. -/
def fileOf (env : Environment) (opts : List Opt) : Option IniFile :=
  if fileName env opts = [] then none else some (env.file (CStr.ofBlock (fileName env opts)))

/-- The value of a setting in the configuration file. -/
def fileValue (env : Environment) (opts : List Opt) (k : Key) : Option Bytes :=
  (fileOf env opts).bind fun file => file.value k

/-! ### The loop over the options -/

theorem lastOption_append {α : Type} (kind : Opt → Option α) (opts : List Opt) (o : Opt) :
    lastOption kind (opts ++ [o]) = (kind o).or (lastOption kind opts) := by
  rw [lastOption, List.filterMap_append]
  cases h : kind o <;> simp [lastOption, h]

variable {env : Environment} {opts : List Opt}

/-- Two settings have the same values for what the command line may override. -/
structure SameValues (s t : ServerConfigInfo) : Prop where
  host : t.host = s.host
  port : t.port = s.port
  maxConnections : t.maxConnections = s.maxConnections
  cert : t.sslCertFilePath = s.sslCertFilePath
  key : t.sslKeyFilePath = s.sslKeyFilePath

/-- What the variables of `parseOptions` hold behind the loop. -/
structure LoopSpec (env : Environment) (opts : List Opt) (start o : Options) : Prop where
  host : o.host.str.bytes = ((cliHost opts).getD []).take (kMaxHostLength - 2)
  port : o.port = (cliPort opts).getD 0
  maxConnections : o.maxConnections = (cliMaxConnections opts).getD 0
  cert : o.sslCertFilePath.str.bytes = ((cliCert opts).getD []).take (kMaxPath - 2)
  key : o.sslKeyFilePath.str.bytes = ((cliKey opts).getD []).take (kMaxPath - 2)
  configFile : o.configFilePath.str.bytes =
    (((lastOption Opt.configFileArg opts).map CStr.bytes).getD []).take (kMaxPath - 2)
  valid : o.valid = decide (Opt.unknown ∉ opts)
  settings : SameValues start.settings o.settings

theorem str_snprintf_arg {n : ℕ} (a : CharArray n) (s : CStr) (hn : 1 < n) :
    (a.snprintf (n - 1) s.bytes).str.bytes = s.bytes.take (n - 2) :=
  CharArray.str_snprintf a s.nulFree (by omega) (by omega)

theorem loop_spec (env : Environment) (settings : ServerConfigInfo) (opts : List Opt) :
    LoopSpec env opts (.init env settings)
      (opts.foldl (Options.take env) (.init env settings)) := by
  induction opts using List.reverseRecOn with
  | nil =>
    have hzeros : ∀ n, (CharArray.zeros n).str.bytes = [] := by
      intro n
      rw [CharArray.str, CharArray.zeros, CStr.ofBlock_replicate_zero]
      rfl
    constructor
    case settings => exact ⟨rfl, rfl, rfl, rfl, rfl⟩
    all_goals simp [Options.init, hzeros, cliHost, cliPort, cliMaxConnections, cliCert, cliKey,
      lastOption]
  | append_singleton opts opt ih =>
    rw [List.foldl_append, List.foldl_cons, List.foldl_nil]
    generalize opts.foldl (Options.take env) (.init env settings) = o at ih ⊢
    obtain ⟨hhost, hport, hmax, hcert, hkey, hfile, hvalid, hsettings⟩ := ih
    cases opt
    all_goals constructor
    all_goals try simp only [cliHost, cliPort, cliMaxConnections, cliCert, cliKey,
      lastOption_append, Opt.hostArg, Opt.portArg, Opt.maxClientsArg, Opt.sslCertArg,
      Opt.sslKeyArg, Opt.configFileArg, Option.some_or, Option.none_or, Option.map_some,
      Option.getD_some]
    -- an option changes one of the variables
    all_goals first
      | assumption
      | rfl
      | exact str_snprintf_arg _ _ (by decide)
      | exact ⟨hsettings.host, hsettings.port, hsettings.maxConnections, hsettings.cert,
          hsettings.key⟩
      | simp [Options.take, hvalid]

/-! ### The loop over the lines -/

variable {n : ℕ} {e : Entry}

/-- What is read of a value with its terminator. -/
theorem read_of_lt {m : ℕ} (h : e.value.bytes.length < m) :
    ∃ t, e.read m = e.value.bytes ++ 0 :: t := by
  obtain ⟨k, rfl⟩ := Nat.exists_eq_add_of_lt h
  refine ⟨((List.range (e.value.bytes.length + k + 1)).map e.behind).take k, ?_⟩
  rw [Entry.read, List.take_append, List.take_of_length_le (by omega)]
  congr 1
  rw [show e.value.bytes.length + k + 1 - e.value.bytes.length = k + 1 by omega,
    List.take_succ_cons]

/-- A value that is copied with its terminator. -/
theorem str_memcpy_short (a : CharArray n) {m : ℕ} (hm : m ≤ n) (h : e.value.bytes.length < m) :
    (a.memcpy (e.read m)).str.bytes = e.value.bytes := by
  obtain ⟨t, ht⟩ := read_of_lt h
  have hlen := length_read e m
  rw [ht] at hlen ⊢
  exact CharArray.str_memcpy_terminated a e.value.nulFree (hlen ▸ hm)

/-- A value that is copied but for the last byte of the field. -/
theorem str_memcpy_value (a : CharArray n) (hn : 0 < n) (ha : a.Closed) :
    (a.memcpy (e.read (n - 1))).str.bytes = e.value.bytes.take (n - 1) := by
  rcases Nat.lt_or_ge e.value.bytes.length (n - 1) with hlt | hge
  · rw [str_memcpy_short a (Nat.sub_le n 1) hlt, List.take_of_length_le hlt.le]
  · rw [read_of_le hge]
    refine CharArray.str_memcpy_full a (fun h => e.value.nulFree (List.mem_of_mem_take h)) ?_ ha
    rw [List.length_take]
    omega

/-- The last byte of the field stays. -/
theorem closed_memcpy (a : CharArray n) (hn : 0 < n) (ha : a.Closed) :
    (a.memcpy (e.read (n - 1))).Closed := by
  obtain ⟨t, ht⟩ := List.getLast?_eq_some_iff.mp ha
  have hlen : t.length = n - 1 := by
    have := a.length_bytes
    rw [ht, List.length_append, List.length_singleton] at this
    omega
  rw [CharArray.Closed, CharArray.bytes_memcpy a (by rw [length_read]; omega), length_read, ht,
    ← hlen, List.drop_left]
  simp

/-- The values of the settings behind some lines, from those in front of them. -/
structure LinesSpec (lines : List IniLine) (s s' : ServerConfigInfo) : Prop where
  host : s'.host.str.bytes =
    ((lastEntry .host lines).map fun e => e.value.bytes.take (kMaxHostLength - 1)).getD
      s.host.str.bytes
  port : s'.port = ((lastEntry .port lines).map fun e => atoi e.value.bytes).getD s.port
  maxConnections : s'.maxConnections =
    ((lastEntry .maxConnections lines).map fun e => atoi e.value.bytes).getD s.maxConnections
  cert : s'.sslCertFilePath.str.bytes =
    ((lastEntry .sslCertFilePath lines).map fun e => e.value.bytes).getD s.sslCertFilePath.str.bytes
  key : s'.sslKeyFilePath.str.bytes =
    ((lastEntry .sslKeyFilePath lines).map fun e => e.value.bytes).getD s.sslKeyFilePath.str.bytes

theorem lastEntry_cons (k : Key) (line : IniLine) (lines : List IniLine) :
    lastEntry k (line :: lines) = (lastEntry k lines).or (lastEntry k [line]) := by
  have happend : line :: lines = [line] ++ lines := rfl
  rw [lastEntry, lastEntry, lastEntry, happend, List.filterMap_append, List.filter_append,
    List.getLast?_append]

/-- What comes of a default when the later one of two values counts. -/
theorem getD_or {α β : Type} (x y : Option α) (f : α → β) (d : β) :
    ((x.or y).map f).getD d = (x.map f).getD ((y.map f).getD d) := by
  cases x <;> rfl

theorem LinesSpec.cons {line : IniLine} {lines : List IniLine} {s₁ s₂ s₃ : ServerConfigInfo}
    (h : LinesSpec [line] s₁ s₂) (h' : LinesSpec lines s₂ s₃) :
    LinesSpec (line :: lines) s₁ s₃ := by
  constructor
  · rw [lastEntry_cons, getD_or, h'.host, h.host]
  · rw [lastEntry_cons, getD_or, h'.port, h.port]
  · rw [lastEntry_cons, getD_or, h'.maxConnections, h.maxConnections]
  · rw [lastEntry_cons, getD_or, h'.cert, h.cert]
  · rw [lastEntry_cons, getD_or, h'.key, h.key]

/-- A line without a known entry. -/
theorem LinesSpec.same {line : IniLine} (s : ServerConfigInfo)
    (h : ∀ e, line.entry? = some e → e.key = none) : LinesSpec [line] s s := by
  have hnone : ∀ k, lastEntry k [line] = none := by
    intro k
    cases hline : line.entry? with
    | none => simp [lastEntry, hline]
    | some e => simp [lastEntry, hline, h e hline]
  constructor <;> rw [hnone] <;> rfl

/-- A line with an entry. -/
theorem LinesSpec.store {k : Key} {s : ServerConfigInfo} (hkey : e.key = some k)
    (hs : s.host.Closed) : LinesSpec [.entry e] s (k.store e s) := by
  have hentry : ∀ k', lastEntry k' [.entry e] = if k = k' then some e else none := by
    intro k'
    by_cases hk : k = k' <;> simp [lastEntry, IniLine.entry?, hkey, hk]
  have hshort := e.short
  rw [INI_MAX_LINE] at hshort
  constructor
  all_goals rw [hentry]
  all_goals cases k
  all_goals try rfl
  case host.host => exact str_memcpy_value s.host (by decide) hs
  case cert.sslCertFilePath => exact str_memcpy_short _ (by decide) (by rw [kMaxPath]; omega)
  case key.sslKeyFilePath => exact str_memcpy_short _ le_rfl (by rw [kMaxPath]; omega)

/-- Storing a value leaves the last byte of the host alone. -/
theorem closed_store {k : Key} {s : ServerConfigInfo} (hs : s.host.Closed) :
    (k.store e s).host.Closed := by
  cases k
  case host => exact closed_memcpy s.host (by decide) hs
  all_goals exact hs

/-- **The loop over the lines**: the last value for a setting counts. -/
theorem lines_spec (lines : List IniLine) {s : ServerConfigInfo} (hs : s.host.Closed)
    (lineno error : ℕ) : LinesSpec lines s (iniLines s lineno error lines).2 := by
  induction lines generalizing s lineno error with
  | nil => constructor <;> rfl
  | cons line lines ih =>
    cases line with
    | other => exact (LinesSpec.same s (by simp [IniLine.entry?])).cons (ih hs _ _)
    | malformed => exact (LinesSpec.same s (by simp [IniLine.entry?])).cons (ih hs _ _)
    | entry e =>
      cases hkey : e.key with
      | none =>
        have hsame : LinesSpec [.entry e] s s := by
          refine .same s ?_
          rintro _ ⟨⟩
          exact hkey
        simp only [iniLines, handler_eq, hkey, Option.map_none]
        exact hsame.cons (ih hs _ _)
      | some k =>
        simp only [iniLines, handler_eq, hkey, Option.map_some]
        exact (LinesSpec.store hkey hs).cons (ih (closed_store hs) _ _)

/-- The number of the first line with an error. -/
theorem error_eq_zero_iff (lines : List IniLine) (s : ServerConfigInfo) (lineno error : ℕ) :
    (iniLines s lineno error lines).1 = 0 ↔ error = 0 ∧ ∀ line ∈ lines, line.Clean := by
  induction lines generalizing s lineno error with
  | nil => simp [iniLines]
  | cons line lines ih =>
    rw [List.forall_mem_cons]
    -- an error is kept
    have hfailed : (if error = 0 then lineno + 1 else error) ≠ 0 := by split <;> omega
    cases line with
    | other => simp [iniLines, ih, IniLine.Clean]
    | malformed => simp [iniLines, ih, IniLine.Clean, hfailed]
    | entry e =>
      cases hkey : e.key with
      | none => simp [iniLines, handler_eq, hkey, ih, IniLine.Clean, hfailed]
      | some k => simp [iniLines, handler_eq, hkey, ih, IniLine.Clean]

/-! ### Overriding -/

/-- What a string option of the command line leaves of the value below it. -/
def layerString (room : ℕ) (cli : Option Bytes) (below : Bytes) : Bytes :=
  if (cli.getD []).take room = [] then below else (cli.getD []).take room

/-- What a number of the command line leaves of the number below it. -/
def layerNumber (cli : Option (BitVec 32)) (below : BitVec 32) : BitVec 32 :=
  if cli.getD 0 = 0 then below else cli.getD 0

theorem str_overrideString (field option : CharArray n) (hn : 0 < n)
    (hlen : option.str.bytes.length ≤ n - 1) :
    (overrideString field option).str.bytes =
      if option.str.bytes = [] then field.str.bytes else option.str.bytes := by
  rw [overrideString]
  by_cases hnil : option.str.bytes = []
  · rw [if_neg (by simp [hnil]), if_pos hnil]
  · rw [if_pos (List.length_pos_iff.mpr hnil), if_neg hnil,
      CharArray.str_zeros_memcpy_take option hn, List.take_of_length_le hlen]

theorem overrideString_layer {room : ℕ} {cli : Option Bytes} (field option : CharArray n)
    (hroom : room < n) (h : option.str.bytes = (cli.getD []).take room) :
    (overrideString field option).str.bytes = layerString room cli field.str.bytes := by
  have hlen : option.str.bytes.length ≤ n - 1 := by
    rw [h, List.length_take]
    omega
  rw [str_overrideString field option (by omega) hlen, h, layerString]

theorem overrideNumber_layer {cli : Option (BitVec 32)} (field option : BitVec 32)
    (h : option = cli.getD 0) : overrideNumber field option = layerNumber cli field := by
  have hpos : option > 0 ↔ option ≠ 0 := BitVec.pos_iff_ne_zero option
  rw [overrideNumber, layerNumber, ← h]
  by_cases hzero : option = 0
  · rw [if_pos hzero, if_neg (by rw [hpos]; exact not_not.mpr hzero)]
  · rw [if_neg hzero, if_pos (hpos.mpr hzero)]

/-- A value of the command line comes out as it was given. -/
theorem layerString_some {room : ℕ} (hroom : 0 < room) (v below : Bytes) :
    layerString room (some v) below = v ↔ if v = [] then below = [] else v.length ≤ room := by
  rw [layerString, Option.getD_some]
  by_cases hv : v = []
  · simp [hv]
  · have htake : v.take room ≠ [] := by
      simp only [ne_eq, List.take_eq_nil_iff, hv, or_false]
      omega
    rw [if_neg htake, if_neg hv, List.take_eq_self_iff _]

theorem layerNumber_some (v below : BitVec 32) :
    layerNumber (some v) below = v ↔ (v = 0 → below = 0) := by
  rw [layerNumber, Option.getD_some]
  by_cases hv : v = 0
  · rw [if_pos hv, hv]
    exact ⟨fun h _ => h, fun h => h rfl⟩
  · rw [if_neg hv]
    exact iff_of_true rfl fun h => absurd h hv

/-! ### The result -/

/-- The files and options that are accepted: a file decides alone. -/
def Accepted (env : Environment) (opts : List Opt) : Prop :=
  match fileOf env opts with
  | some file => file.Clean
  | none => Opt.unknown ∉ opts

/-- What `parseOptions` leaves in the settings. -/
structure ResultSpec (env : Environment) (opts : List Opt) (s : ServerConfigInfo) : Prop where
  host : s.host.str.bytes = layerString (kMaxHostLength - 2) (cliHost opts)
    (((fileValue env opts .host).map (List.take (kMaxHostLength - 1))).getD kDefaultServerHost)
  port : s.port = layerNumber (cliPort opts)
    (((fileValue env opts .port).map atoi).getD kDefaultServerPort)
  maxConnections : s.maxConnections = layerNumber (cliMaxConnections opts)
    (((fileValue env opts .maxConnections).map atoi).getD kDefaultMaxClients)
  cert : s.sslCertFilePath.str.bytes = layerString (kMaxPath - 2) (cliCert opts)
    ((fileValue env opts .sslCertFilePath).getD env.defaultTlsFilePaths.1.str.bytes)
  key : s.sslKeyFilePath.str.bytes = layerString (kMaxPath - 2) (cliKey opts)
    ((fileValue env opts .sslKeyFilePath).getD env.defaultTlsFilePaths.2.str.bytes)

/-- The values in front of the command line: the file, else the defaults. -/
structure BelowSpec (env : Environment) (opts : List Opt) (s : ServerConfigInfo) : Prop where
  host : s.host.str.bytes =
    ((fileValue env opts .host).map (List.take (kMaxHostLength - 1))).getD kDefaultServerHost
  port : s.port = ((fileValue env opts .port).map atoi).getD kDefaultServerPort
  maxConnections : s.maxConnections =
    ((fileValue env opts .maxConnections).map atoi).getD kDefaultMaxClients
  cert : s.sslCertFilePath.str.bytes =
    (fileValue env opts .sslCertFilePath).getD env.defaultTlsFilePaths.1.str.bytes
  key : s.sslKeyFilePath.str.bytes =
    (fileValue env opts .sslKeyFilePath).getD env.defaultTlsFilePaths.2.str.bytes

/-- The command line overrides what is below it. -/
theorem override_spec {o : Options} {s : ServerConfigInfo} {start : Options}
    (h : LoopSpec env opts start o) (hs : BelowSpec env opts s) :
    ResultSpec env opts (o.override s) where
  host := by rw [← hs.host]; exact overrideString_layer _ _ (by decide) h.host
  port := by rw [← hs.port]; exact overrideNumber_layer _ _ h.port
  maxConnections := by rw [← hs.maxConnections]; exact overrideNumber_layer _ _ h.maxConnections
  cert := by rw [← hs.cert]; exact overrideString_layer _ _ (by decide) h.cert
  key := by rw [← hs.key]; exact overrideString_layer _ _ (by decide) h.key

/-- The settings a file is read into. -/
theorem initial_host :
    initialSettings.host.Closed ∧ initialSettings.host.str.bytes = kDefaultServerHost := by
  decide

theorem bytes_chosenFile {start o : Options} (h : LoopSpec env opts start o) :
    (o.chosenFile env).str.bytes = fileName env opts := by
  rw [Options.chosenFile, h.configFile, fileName]
  by_cases hgiven : ((lastOption Opt.configFileArg opts).map CStr.bytes).getD [] = []
  · rw [if_pos (by simp [hgiven]), if_pos hgiven]
  · have hlen : (((lastOption Opt.configFileArg opts).map CStr.bytes).getD []).take (kMaxPath - 2) ≠
        [] := by
      simp [hgiven, kMaxPath]
    rw [if_neg (by simpa using hlen), if_neg hgiven, h.configFile]

/-- **The loops together**: what is below the command line when the file is read without error,
or when there is none. -/
theorem below_spec (h : Accepted env opts) {o : Options}
    (ho : LoopSpec env opts (.init env initialSettings) o) :
    match fileOf env opts with
    | some file => (iniParse file o.settings).1 = 0 ∧
        BelowSpec env opts (iniParse file o.settings).2
    | none => BelowSpec env opts o.settings := by
  obtain ⟨hclosed, hhost⟩ := initial_host
  have hs := ho.settings
  cases hfile : fileOf env opts with
  | none =>
    have hnone : ∀ k, fileValue env opts k = none := by
      intro k
      rw [fileValue, hfile]
      rfl
    constructor
    · rw [hs.host, hnone]
      exact hhost
    · rw [hs.port, hnone]
      rfl
    · rw [hs.maxConnections, hnone]
      rfl
    · rw [hs.cert, hnone]
      rfl
    · rw [hs.key, hnone]
      rfl
  | some file =>
    rw [Accepted, hfile] at h
    cases file with
    | missing | noMemory => exact h.elim
    | lines ls =>
      have hvalue : ∀ k, fileValue env opts k = (lastEntry k ls).map fun e => e.value.bytes := by
        intro k
        rw [fileValue, hfile]
        rfl
      have hlines := lines_spec ls (s := o.settings) (hs.host ▸ hclosed) 0 0
      refine ⟨?_, ?_⟩
      · exact Int.natCast_eq_zero.mpr ((error_eq_zero_iff ls o.settings 0 0).mpr ⟨rfl, h⟩)
      constructor
      · rw [hvalue, Option.map_map, ← hhost]
        exact hlines.host.trans (by rw [hs.host]; rfl)
      · rw [hvalue, Option.map_map]
        exact hlines.port.trans (by rw [hs.port]; rfl)
      · rw [hvalue, Option.map_map]
        exact hlines.maxConnections.trans (by rw [hs.maxConnections]; rfl)
      · rw [hvalue]
        exact hlines.cert.trans (by rw [hs.cert]; rfl)
      · rw [hvalue]
        exact hlines.key.trans (by rw [hs.key]; rfl)

/-- The string of `chosenFile` as the name of a file. -/
theorem file_chosenFile {start o : Options} (h : LoopSpec env opts start o) :
    env.file (o.chosenFile env).str = env.file (CStr.ofBlock (fileName env opts)) := by
  rw [← bytes_chosenFile h, CStr.ofBlock_bytes]

/-- The array with the name of the file is not among the values. -/
theorem BelowSpec.configFile {s : ServerConfigInfo} (h : BelowSpec env opts s)
    (a : CharArray kMaxPath) : BelowSpec env opts { s with configFilePath := a } :=
  ⟨h.host, h.port, h.maxConnections, h.cert, h.key⟩

/-- **Accepted options** leave the layered values. -/
theorem parseOptions_of_accepted (h : Accepted env opts) :
    ∃ s, parseOptions env opts initialSettings = (true, s) ∧ ResultSpec env opts s := by
  have ho := loop_spec env initialSettings opts
  have hbelow := below_spec h ho
  rw [parseOptions]
  generalize opts.foldl (Options.take env) (.init env initialSettings) = o at ho hbelow ⊢
  simp only [bytes_chosenFile ho, file_chosenFile ho]
  by_cases hname : fileName env opts = []
  · have hfile : fileOf env opts = none := if_pos hname
    rw [hfile] at hbelow
    rw [Accepted, hfile] at h
    rw [if_neg (by simp [hname]), ho.valid, decide_eq_true h]
    exact ⟨_, rfl, override_spec ho hbelow⟩
  · have hfile : fileOf env opts = some (env.file (CStr.ofBlock (fileName env opts))) :=
      if_neg hname
    rw [hfile] at hbelow
    obtain ⟨hresult, hbelow⟩ := hbelow
    rw [if_pos (List.length_pos_iff.mpr hname), if_neg (by rw [hresult]; decide), hresult]
    exact ⟨_, rfl, override_spec ho (hbelow.configFile _)⟩

theorem parseOptions_of_not_accepted (h : ¬ Accepted env opts) :
    (parseOptions env opts initialSettings).1 = false := by
  have ho := loop_spec env initialSettings opts
  rw [parseOptions]
  generalize opts.foldl (Options.take env) (.init env initialSettings) = o at ho ⊢
  simp only [bytes_chosenFile ho, file_chosenFile ho]
  by_cases hname : fileName env opts = []
  · have hfile : fileOf env opts = none := if_pos hname
    rw [Accepted, hfile] at h
    rw [if_neg (by simp [hname]), ho.valid]
    exact decide_eq_false h
  · have hfile : fileOf env opts = some (env.file (CStr.ofBlock (fileName env opts))) :=
      if_neg hname
    rw [Accepted, hfile] at h
    rw [if_pos (List.length_pos_iff.mpr hname), if_pos]
    cases hcontent : env.file (CStr.ofBlock (fileName env opts)) with
    | missing => exact .inl rfl
    | noMemory => exact .inr (.inl rfl)
    | lines ls =>
      rw [hcontent] at h
      have hfailed : (iniLines o.settings 0 0 ls).1 ≠ 0 := by
        intro hzero
        exact h ((error_eq_zero_iff ls o.settings 0 0).mp hzero).2
      refine .inr (.inr ?_)
      exact Int.natCast_pos.mpr (Nat.pos_of_ne_zero hfailed)

/-! ### Sound options -/

/-- A value of the command line, else of the file, else the default. -/
def layered {α : Type} (cli file : Option α) (default : α) : α := (cli.or file).getD default

/-- The settings are layered. -/
structure Layered (env : Environment) (opts : List Opt) (s : ServerConfigInfo) : Prop where
  host : s.host.str.bytes = layered (cliHost opts) (fileValue env opts .host) kDefaultServerHost
  port : s.port =
    layered (cliPort opts) ((fileValue env opts .port).map atoi) kDefaultServerPort
  maxConnections : s.maxConnections = layered (cliMaxConnections opts)
    ((fileValue env opts .maxConnections).map atoi) kDefaultMaxClients
  cert : s.sslCertFilePath.str.bytes = layered (cliCert opts)
    (fileValue env opts .sslCertFilePath) env.defaultTlsFilePaths.1.str.bytes
  key : s.sslKeyFilePath.str.bytes = layered (cliKey opts)
    (fileValue env opts .sslKeyFilePath) env.defaultTlsFilePaths.2.str.bytes

/-- If `parseOptions` returns `true`, then all options were recognised, the file was read without
error, and the settings are layered. -/
def SoundOptions (env : Environment) (opts : List Opt) : Prop :=
  ∀ settings, parseOptions env opts initialSettings = (true, settings) →
    Opt.unknown ∉ opts ∧ (∀ file ∈ fileOf env opts, file.Clean) ∧ Layered env opts settings

/-- A string option that is empty overrides an empty string, and another one is short enough. -/
def KeptString (room : ℕ) (cli file : Option Bytes) (default : Bytes) : Prop :=
  ∀ v ∈ cli, if v = [] then file.getD default = [] else v.length ≤ room

/-- A number that is zero overrides zero. -/
def KeptNumber (cli file : Option (BitVec 32)) (default : BitVec 32) : Prop :=
  ∀ v ∈ cli, v = 0 → file.getD default = 0

/-- Options that are recognised, with values that are not taken for missing and not cut. -/
structure Parsable (env : Environment) (opts : List Opt) : Prop where
  recognised : Opt.unknown ∉ opts
  host : KeptString (kMaxHostLength - 2) (cliHost opts) (fileValue env opts .host)
    kDefaultServerHost
  fileHost : cliHost opts = none →
    ∀ v ∈ fileValue env opts .host, v.length ≤ kMaxHostLength - 1
  port : KeptNumber (cliPort opts) ((fileValue env opts .port).map atoi) kDefaultServerPort
  maxConnections : KeptNumber (cliMaxConnections opts)
    ((fileValue env opts .maxConnections).map atoi) kDefaultMaxClients
  cert : KeptString (kMaxPath - 2) (cliCert opts) (fileValue env opts .sslCertFilePath)
    env.defaultTlsFilePaths.1.str.bytes
  key : KeptString (kMaxPath - 2) (cliKey opts) (fileValue env opts .sslKeyFilePath)
    env.defaultTlsFilePaths.2.str.bytes

theorem layerString_iff {room : ℕ} (hroom : 0 < room) (cli file : Option Bytes) (default : Bytes) :
    layerString room cli (file.getD default) = layered cli file default ↔
      KeptString room cli file default := by
  cases cli with
  | none => simp [layerString, layered, KeptString]
  | some v =>
    have hlayered : layered (some v) file default = v := rfl
    rw [hlayered, layerString_some hroom]
    simp [KeptString]

theorem layerNumber_iff (cli file : Option (BitVec 32)) (default : BitVec 32) :
    layerNumber cli (file.getD default) = layered cli file default ↔
      KeptNumber cli file default := by
  cases cli with
  | none => simp [layerNumber, layered, KeptNumber]
  | some v =>
    have hlayered : layered (some v) file default = v := rfl
    rw [hlayered, layerNumber_some]
    simp [KeptNumber]

/-- The host of the file may be cut. -/
theorem layerHost_iff (room cut : ℕ) (hroom : 0 < room) (hcut : 0 < cut) (cli file : Option Bytes)
    (default : Bytes) :
    layerString room cli ((file.map (List.take cut)).getD default) = layered cli file default ↔
      KeptString room cli file default ∧ (cli = none → ∀ v ∈ file, v.length ≤ cut) := by
  cases cli with
  | none =>
    cases file with
    | none => simp [layerString, layered, KeptString]
    | some v => simp [layerString, layered, KeptString]
  | some v =>
    have hlayered : layered (some v) file default = v := rfl
    have hnil : (file.map (List.take cut)).getD default = [] ↔ file.getD default = [] := by
      cases file with
      | none => exact Iff.rfl
      | some w =>
        rw [Option.map_some, Option.getD_some, Option.getD_some, List.take_eq_nil_iff]
        exact or_iff_right hcut.ne'
    rw [hlayered, layerString_some hroom, hnil]
    simp [KeptString]

/-- **When the settings are layered.** -/
theorem layered_iff {s : ServerConfigInfo} (h : ResultSpec env opts s)
    (hrecognised : Opt.unknown ∉ opts) : Layered env opts s ↔ Parsable env opts := by
  have hhost := layerHost_iff (kMaxHostLength - 2) (kMaxHostLength - 1) (by decide) (by decide)
    (cliHost opts) (fileValue env opts .host) kDefaultServerHost
  constructor
  · intro hs
    obtain ⟨hkept, hfileHost⟩ := hhost.mp (h.host.symm.trans hs.host)
    exact ⟨hrecognised, hkept, hfileHost,
      (layerNumber_iff _ _ _).mp (h.port.symm.trans hs.port),
      (layerNumber_iff _ _ _).mp (h.maxConnections.symm.trans hs.maxConnections),
      (layerString_iff (by decide) _ _ _).mp (h.cert.symm.trans hs.cert),
      (layerString_iff (by decide) _ _ _).mp (h.key.symm.trans hs.key)⟩
  · intro hp
    exact ⟨h.host.trans (hhost.mpr ⟨hp.host, hp.fileHost⟩),
      h.port.trans ((layerNumber_iff _ _ _).mpr hp.port),
      h.maxConnections.trans ((layerNumber_iff _ _ _).mpr hp.maxConnections),
      h.cert.trans ((layerString_iff (by decide) _ _ _).mpr hp.cert),
      h.key.trans ((layerString_iff (by decide) _ _ _).mpr hp.key)⟩

/-- **Option parsing** is sound exactly when it fails, or all options are recognised and no value
is taken for missing or cut. -/
theorem soundOptions_iff (env : Environment) (opts : List Opt) :
    SoundOptions env opts ↔ ¬ Accepted env opts ∨ Parsable env opts := by
  by_cases haccepted : Accepted env opts
  · obtain ⟨s, hs, hspec⟩ := parseOptions_of_accepted haccepted
    rw [or_iff_right (not_not.mpr haccepted)]
    constructor
    · intro hsound
      obtain ⟨hrecognised, -, hlayered⟩ := hsound s hs
      exact (layered_iff hspec hrecognised).mp hlayered
    · rintro hp settings hsettings
      obtain rfl : s = settings := congrArg Prod.snd (hs.symm.trans hsettings)
      refine ⟨hp.recognised, ?_, (layered_iff hspec hp.recognised).mpr hp⟩
      intro file hfile
      rwa [Accepted, Option.mem_def.mp hfile] at haccepted
  · refine iff_of_true ?_ (.inl haccepted)
    intro settings hsettings
    have hfalse := parseOptions_of_not_accepted haccepted
    rw [hsettings] at hfalse
    cases hfalse

/-- A user with an empty configuration file in the current directory. -/
def someEnvironment : Environment where
  uid := 1000
  home := str "/home/user"
  cwd := str "/home/user"
  access _ := false
  file name := if name = str "c2hat.conf" then .lines [] else .missing

/-- An unknown option beside a configuration file is accepted. -/
theorem not_soundOptions_unknown :
    ¬ ∀ (env : Environment) (opts : List Opt), SoundOptions env opts := by
  intro h
  have hname : fileName someEnvironment [.configFile (str "c2hat.conf"), .unknown] =
      ascii "c2hat.conf" := by
    rfl
  have hfile : fileOf someEnvironment [.configFile (str "c2hat.conf"), .unknown] =
      some (.lines []) := by
    rw [fileOf, hname, if_neg (by decide)]
    rfl
  have haccepted : Accepted someEnvironment [.configFile (str "c2hat.conf"), .unknown] := by
    rw [Accepted, hfile]
    exact List.forall_mem_nil _
  obtain ⟨s, hs, -⟩ := parseOptions_of_accepted haccepted
  obtain ⟨hrecognised, -⟩ := h _ _ s hs
  simp at hrecognised

end C2Hat
