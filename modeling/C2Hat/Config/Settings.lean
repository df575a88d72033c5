import C2Hat.Lib.CharArray
import C2Hat.Lib.Decimal

/-!
# The settings of the server

`src/server/settings.c`: the default paths, the handler for the entries of the configuration
file, and `parseOptions`, which puts the defaults, the file and the command line together.

What `getopt_long` makes of the arguments is a list of options, and what the INI library makes
of a file is a list of lines.  The value of an entry lies in the line buffer of that library,
so it is short, and something is in memory behind it.

## Main definitions

* `ServerConfigInfo` — the settings.
* `handler`, `iniParse` — the configuration file.
* `parseOptions` — the command line.
-/

namespace C2Hat

open Clib

/-! ### The settings -/

/-- `APPNAME`. -/
def APPNAME : Bytes := ascii "c2hat"

/-- `kMaxPath`, `kMaxHostLength`, `kMaxLocaleLength`: the sizes of the arrays. -/
def kMaxPath : ℕ := 4096
def kMaxHostLength : ℕ := 40
def kMaxLocaleLength : ℕ := 25

/-- `INI_MAX_LINE`: the size of the line buffer of the INI library. -/
def INI_MAX_LINE : ℕ := 200

/-- `kDefaultServerHost`, `kDefaultServerPort` and `kDefaultMaxClients`. -/
def kDefaultServerHost : Bytes := ascii "localhost"
def kDefaultServerPort : BitVec 32 := 10000
def kDefaultMaxClients : BitVec 32 := 5

/-- The log levels. -/
def LOG_FATAL : ℕ := 60
def LOG_ERROR : ℕ := 50
def LOG_WARN : ℕ := 40
def LOG_INFO : ℕ := 30
def LOG_DEBUG : ℕ := 20
def LOG_TRACE : ℕ := 10

/-- The settings of a server. -/
@[ext] structure ServerConfigInfo where
  logLevel : ℕ
  configFilePath : CharArray kMaxPath
  logFilePath : CharArray kMaxPath
  pidFilePath : CharArray kMaxPath
  sslCertFilePath : CharArray kMaxPath
  sslKeyFilePath : CharArray kMaxPath
  host : CharArray kMaxHostLength
  locale : CharArray kMaxLocaleLength
  port : BitVec 32
  maxConnections : BitVec 32
  foreground : Bool
  workingDirPath : CharArray kMaxPath

/-- The settings `main` starts from. -/
def initialSettings : ServerConfigInfo where
  logLevel := LOG_INFO
  configFilePath := .zeros _
  logFilePath := .zeros _
  pidFilePath := .zeros _
  sslCertFilePath := .zeros _
  sslKeyFilePath := .zeros _
  host := (CharArray.zeros _).memcpy kDefaultServerHost
  locale := .zeros _
  port := kDefaultServerPort
  maxConnections := kDefaultMaxClients
  foreground := false
  workingDirPath := .zeros _

/-! ### The configuration file -/

/-- An entry of a configuration file, as the handler is given it. -/
structure Entry where
  /-- The section, or the empty string. -/
  sectionName : CStr
  name : CStr
  value : CStr
  /-- The value is in the line buffer. -/
  short : value.bytes.length < INI_MAX_LINE
  /-- What is in memory behind the terminator of the value. -/
  behind : ℕ → UInt8

/-- `MATCH(s, n)`. -/
def Entry.is (e : Entry) (s n : String) : Bool := e.sectionName == str s && e.name == str n

/-- The `n` bytes from the value on. -/
def Entry.read (e : Entry) (n : ℕ) : Bytes :=
  (e.value.bytes ++ 0 :: (List.range n).map e.behind).take n

/-- `tolower`. -/
def toLower (c : UInt8) : UInt8 := if 65 ≤ c ∧ c ≤ 90 then c + 32 else c

/-- `LOG_LEVEL_MATCH(value, level)`: `strncasecmp` over five characters. -/
def logLevelMatch (value : CStr) (level : String) : Bool :=
  (value.bytes.map toLower).take 5 == (ascii level).take 5

/-- `LOG_LEVEL(level, value)`. -/
def logLevelOf (value : CStr) : ℕ :=
  if logLevelMatch value "trace" then LOG_TRACE
  else if logLevelMatch value "debug" then LOG_DEBUG
  else if logLevelMatch value "info" then LOG_INFO
  else if logLevelMatch value "warn" then LOG_WARN
  else if logLevelMatch value "error" then LOG_ERROR
  else if logLevelMatch value "fatal" then LOG_FATAL
  else LOG_INFO

/-- `handler(data, section, name, value)`: the settings, and how many bytes are read from the
value on.  A comparison or a conversion stops at the terminator.  `none` is the result `0`,
and leaves the settings as they are. -/
def handler (settings : ServerConfigInfo) (e : Entry) : Option (ServerConfigInfo × ℕ) :=
  let upToTerminator := e.value.bytes.length + 1
  if e.is "" "locale" then
    let n := kMaxLocaleLength - 1
    some ({ settings with locale := settings.locale.memcpy (e.read n) }, n)
  else if e.is "log" "level" then
    some ({ settings with logLevel := logLevelOf e.value }, upToTerminator)
  else if e.is "log" "path" then
    let n := kMaxPath - 1
    some ({ settings with logFilePath := settings.logFilePath.memcpy (e.read n) }, n)
  else if e.is "server" "host" then
    let n := kMaxHostLength - 1
    some ({ settings with host := settings.host.memcpy (e.read n) }, n)
  else if e.is "server" "port" then
    some ({ settings with port := atoi e.value.bytes }, upToTerminator)
  else if e.is "server" "max_connections" then
    some ({ settings with maxConnections := atoi e.value.bytes }, upToTerminator)
  else if e.is "server" "pid_file_path" then
    let n := kMaxPath - 1
    some ({ settings with pidFilePath := settings.pidFilePath.memcpy (e.read n) }, n)
  else if e.is "tls" "cert_file" then
    let n := kMaxPath - 1
    some ({ settings with sslCertFilePath := settings.sslCertFilePath.memcpy (e.read n) }, n)
  else if e.is "tls" "key_file" then
    -- one byte more than the others
    let n := kMaxPath
    some ({ settings with sslKeyFilePath := settings.sslKeyFilePath.memcpy (e.read n) }, n)
  else none

/-- A line of a configuration file. -/
inductive IniLine
  /-- A section, a comment or a blank line. -/
  | other
  /-- A name and a value, for which the handler is called. -/
  | entry (e : Entry)
  /-- Neither. -/
  | malformed

/-- A configuration file: it cannot be opened, there is no memory for a line, or it is read. -/
inductive IniFile
  | missing
  | noMemory
  | lines (lines : List IniLine)

/-- The loop over the lines from number `lineno + 1` on.  The number of the first line with an
error is kept, and the loop goes on. -/
def iniLines (settings : ServerConfigInfo) (lineno error : ℕ) :
    List IniLine → ℕ × ServerConfigInfo
  | [] => (error, settings)
  | line :: lines =>
    let failed := if error = 0 then lineno + 1 else error
    match line with
    | .other => iniLines settings (lineno + 1) error lines
    | .malformed => iniLines settings (lineno + 1) failed lines
    | .entry e =>
      match handler settings e with
      | some (settings, _) => iniLines settings (lineno + 1) error lines
      | none => iniLines settings (lineno + 1) failed lines

/-- `ini_parse(filename, handler, settings)`. -/
def iniParse (file : IniFile) (settings : ServerConfigInfo) : ℤ × ServerConfigInfo :=
  match file with
  | .missing => (-1, settings)
  | .noMemory => (-2, settings)
  | .lines lines => ((iniLines settings 0 0 lines).1, (iniLines settings 0 0 lines).2)

/-! ### Default paths -/

/-- What the server asks the system for. -/
structure Environment where
  /-- `getuid()`. -/
  uid : BitVec 32
  /-- `getenv("HOME")`. -/
  home : CStr
  /-- `getcwd`. -/
  cwd : CStr
  /-- Whether `access(path, R_OK)` is zero. -/
  access : CStr → Bool
  /-- The file with a name. -/
  file : CStr → IniFile

namespace Environment

variable (env : Environment)

/-- A path that is written into an array of `kMaxPath` bytes. -/
def path (text : Bytes) : CharArray kMaxPath := (CharArray.zeros kMaxPath).snprintf kMaxPath text

/-- A path under the home directory, under `/etc`, and under `/usr/local/etc`. -/
def userConfig (name : String) : CharArray kMaxPath :=
  path (env.home.bytes ++ ascii "/.config/" ++ APPNAME ++ ascii name)

def etcConfig (name : String) : CharArray kMaxPath := path (ascii "/etc/" ++ APPNAME ++ ascii name)

def localEtcConfig (name : String) : CharArray kMaxPath :=
  path (ascii "/usr/local/etc/" ++ APPNAME ++ ascii name)

/-- `GetConfigFilePath`. -/
def configFilePath : CharArray kMaxPath :=
  if env.uid ≠ 0 ∧ env.access (env.userConfig "/server.conf").str = true then
    env.userConfig "/server.conf"
  else if env.access (etcConfig "/server.conf").str = true then etcConfig "/server.conf"
  else if env.access (localEtcConfig "/server.conf").str = true then localEtcConfig "/server.conf"
  else .zeros _

/-- `GetDefaultPidFilePath`. -/
def defaultPidFilePath : CharArray kMaxPath :=
  if env.uid = 0 then path (ascii "/var/run/" ++ APPNAME ++ ascii ".pid")
  else path (env.home.bytes ++ ascii "/.local/run/" ++ APPNAME ++ ascii ".pid")

/-- `GetWorkingDirectory`. -/
def workingDirectory : CharArray kMaxPath :=
  if env.uid = 0 then path (ascii "/usr/local/" ++ APPNAME)
  else path (env.home.bytes ++ ascii "/.local/state/" ++ APPNAME)

/-- `GetDefaultLogFilePath`, which does not clear the array first. -/
def defaultLogFilePath (old : CharArray kMaxPath) : CharArray kMaxPath :=
  if env.uid = 0 then old.snprintf kMaxPath (ascii "/var/log/" ++ APPNAME ++ ascii "-server.log")
  else old.snprintf kMaxPath
    (env.home.bytes ++ ascii "/.local/state/" ++ APPNAME ++ ascii "/server.log")

/-- `GetDefaultTlsFilePaths`: the certificate and the key, both or none. -/
def defaultTlsFilePaths : CharArray kMaxPath × CharArray kMaxPath :=
  if env.uid ≠ 0 ∧ env.access (env.userConfig "/ssl/cert.pem").str = true ∧
      env.access (env.userConfig "/ssl/key.pem").str = true then
    (env.userConfig "/ssl/cert.pem", env.userConfig "/ssl/key.pem")
  else if env.access (etcConfig "/ssl/cert.pem").str = true ∧
      env.access (etcConfig "/ssl/key.pem").str = true then
    (path (etcConfig "/ssl/cert.pem").str.bytes, path (etcConfig "/ssl/key.pem").str.bytes)
  else if env.access (localEtcConfig "/ssl/cert.pem").str = true ∧
      env.access (localEtcConfig "/ssl/key.pem").str = true then
    (path (localEtcConfig "/ssl/cert.pem").str.bytes,
      path (localEtcConfig "/ssl/key.pem").str.bytes)
  else (.zeros _, .zeros _)

end Environment

/-! ### The command line -/

/-- What `getopt_long` returns: an option with its argument, or `'?'`. -/
inductive Opt
  | host (optarg : CStr)
  | port (optarg : CStr)
  | maxClients (optarg : CStr)
  | foreground
  | sslCert (optarg : CStr)
  | sslKey (optarg : CStr)
  | configFile (optarg : CStr)
  | unknown
  deriving DecidableEq

/-- The variables of `parseOptions`. -/
structure Options where
  settings : ServerConfigInfo
  configFilePath : CharArray kMaxPath
  sslCertFilePath : CharArray kMaxPath
  sslKeyFilePath : CharArray kMaxPath
  host : CharArray kMaxHostLength
  port : BitVec 32
  maxConnections : BitVec 32
  valid : Bool

/-- The variables in front of the loop, with the defaults filled in. -/
def Options.init (env : Environment) (settings : ServerConfigInfo) : Options where
  settings := { settings with
    logFilePath := env.defaultLogFilePath settings.logFilePath
    pidFilePath := env.defaultPidFilePath
    sslCertFilePath := env.defaultTlsFilePaths.1
    sslKeyFilePath := env.defaultTlsFilePaths.2
    workingDirPath := env.workingDirectory }
  configFilePath := .zeros _
  sslCertFilePath := .zeros _
  sslKeyFilePath := .zeros _
  host := .zeros _
  port := 0
  maxConnections := 0
  valid := true

/-- The body of the loop over the options. -/
def Options.take (env : Environment) (o : Options) : Opt → Options
  | .host optarg => { o with host := o.host.snprintf (kMaxHostLength - 1) optarg.bytes }
  | .port optarg => { o with port := atoi optarg.bytes }
  | .maxClients optarg => { o with maxConnections := atoi optarg.bytes }
  | .foreground => { o with settings := { o.settings with
      foreground := true
      workingDirPath := o.settings.workingDirPath.snprintf kMaxPath env.cwd.bytes } }
  | .sslCert optarg =>
    { o with sslCertFilePath := o.sslCertFilePath.snprintf (kMaxPath - 1) optarg.bytes }
  | .sslKey optarg =>
    { o with sslKeyFilePath := o.sslKeyFilePath.snprintf (kMaxPath - 1) optarg.bytes }
  | .configFile optarg =>
    { o with configFilePath := o.configFilePath.snprintf (kMaxPath - 1) optarg.bytes }
  | .unknown => { o with valid := false }

/-- A string option overrides a field unless it is empty. -/
def overrideString {n : ℕ} (field option : CharArray n) : CharArray n :=
  if option.str.bytes.length > 0 then (CharArray.zeros n).memcpy (option.bytes.take (n - 1))
  else field

/-- A number overrides a field unless it is zero. -/
def overrideNumber (field option : BitVec 32) : BitVec 32 := if option > 0 then option else field

/-- The end of `parseOptions`: the options of the command line override the settings. -/
def Options.override (o : Options) (settings : ServerConfigInfo) : ServerConfigInfo :=
  { settings with
    host := overrideString settings.host o.host
    port := overrideNumber settings.port o.port
    maxConnections := overrideNumber settings.maxConnections o.maxConnections
    sslCertFilePath := overrideString settings.sslCertFilePath o.sslCertFilePath
    sslKeyFilePath := overrideString settings.sslKeyFilePath o.sslKeyFilePath }

/-- The configuration file to read: the one that was given, or one that is found. -/
def Options.chosenFile (env : Environment) (o : Options) : CharArray kMaxPath :=
  if o.configFilePath.str.bytes.length = 0 then env.configFilePath else o.configFilePath

/-- `parseOptions(argc, argv, settings)`: its result and the settings, where `opts` is what
`getopt_long` makes of the arguments. -/
def parseOptions (env : Environment) (opts : List Opt) (settings : ServerConfigInfo) :
    Bool × ServerConfigInfo :=
  let o := opts.foldl (Options.take env) (.init env settings)
  let configFilePath := o.chosenFile env
  if configFilePath.str.bytes.length > 0 then
    let (result, settings) := iniParse (env.file configFilePath.str) o.settings
    let settings := { settings with
      configFilePath := (CharArray.zeros _).memcpy (configFilePath.bytes.take (kMaxPath - 1)) }
    if result = -1 ∨ result = -2 ∨ result > 0 then (false, settings)
    else (decide (result = 0), o.override settings)
  else (o.valid, o.override o.settings)

end C2Hat
