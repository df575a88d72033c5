import C2Hat.Config.Settings

/-!
# Copying the values of the configuration file

`handler` copies a value with `memcpy`, as many bytes as fit into the field, or one more for
the key file.  It reads on behind the terminator of a short value, and relies on a terminator
that is already there for a long one.

## Main definitions

* `Key` — the settings an entry may be for.
* `Copied` — what copying a value means.

## Main results

* `handler_copied_iff` — **a value is copied safely exactly when it is a number or a log level,
  or its length is just that of the field, or greater and the field ends with a terminator.**
-/

namespace C2Hat

open Clib

/-- The settings of a configuration file. -/
inductive Key
  | locale
  | logLevel
  | logFilePath
  | host
  | port
  | maxConnections
  | pidFilePath
  | sslCertFilePath
  | sslKeyFilePath
  deriving DecidableEq

/-- The setting an entry is for. -/
def Entry.key (e : Entry) : Option Key :=
  if e.is "" "locale" then some .locale
  else if e.is "log" "level" then some .logLevel
  else if e.is "log" "path" then some .logFilePath
  else if e.is "server" "host" then some .host
  else if e.is "server" "port" then some .port
  else if e.is "server" "max_connections" then some .maxConnections
  else if e.is "server" "pid_file_path" then some .pidFilePath
  else if e.is "tls" "cert_file" then some .sslCertFilePath
  else if e.is "tls" "key_file" then some .sslKeyFilePath
  else none

/-- How many bytes `handler` reads from a value on. -/
def Key.read (e : Entry) : Key → ℕ
  | .locale => kMaxLocaleLength - 1
  | .host => kMaxHostLength - 1
  | .logFilePath | .pidFilePath | .sslCertFilePath => kMaxPath - 1
  | .sslKeyFilePath => kMaxPath
  | .logLevel | .port | .maxConnections => e.value.bytes.length + 1

/-- The settings after `handler` has stored a value. -/
def Key.store (e : Entry) (settings : ServerConfigInfo) : Key → ServerConfigInfo
  | .locale => { settings with locale := settings.locale.memcpy (e.read (kMaxLocaleLength - 1)) }
  | .logLevel => { settings with logLevel := logLevelOf e.value }
  | .logFilePath =>
    { settings with logFilePath := settings.logFilePath.memcpy (e.read (kMaxPath - 1)) }
  | .host => { settings with host := settings.host.memcpy (e.read (kMaxHostLength - 1)) }
  | .port => { settings with port := atoi e.value.bytes }
  | .maxConnections => { settings with maxConnections := atoi e.value.bytes }
  | .pidFilePath =>
    { settings with pidFilePath := settings.pidFilePath.memcpy (e.read (kMaxPath - 1)) }
  | .sslCertFilePath =>
    { settings with sslCertFilePath := settings.sslCertFilePath.memcpy (e.read (kMaxPath - 1)) }
  | .sslKeyFilePath =>
    { settings with sslKeyFilePath := settings.sslKeyFilePath.memcpy (e.read kMaxPath) }

/-- **The handler** stores the value of an entry it knows, whatever the settings are. -/
theorem handler_eq (settings : ServerConfigInfo) (e : Entry) :
    handler settings e = e.key.map fun k => (k.store e settings, k.read e) := by
  simp only [handler, Entry.key,
    apply_ite (Option.map fun k : Key => (k.store e settings, k.read e)), Option.map_some,
    Option.map_none]
  rfl

/-- The settings without one of them. -/
def Key.forget (settings : ServerConfigInfo) : Key → ServerConfigInfo
  | .locale => { settings with locale := initialSettings.locale }
  | .logLevel => { settings with logLevel := initialSettings.logLevel }
  | .logFilePath => { settings with logFilePath := initialSettings.logFilePath }
  | .host => { settings with host := initialSettings.host }
  | .port => { settings with port := initialSettings.port }
  | .maxConnections => { settings with maxConnections := initialSettings.maxConnections }
  | .pidFilePath => { settings with pidFilePath := initialSettings.pidFilePath }
  | .sslCertFilePath => { settings with sslCertFilePath := initialSettings.sslCertFilePath }
  | .sslKeyFilePath => { settings with sslKeyFilePath := initialSettings.sslKeyFilePath }

/-- The bytes of a setting that is a string. -/
def Key.field (settings : ServerConfigInfo) : Key → Option Bytes
  | .locale => some settings.locale.bytes
  | .logFilePath => some settings.logFilePath.bytes
  | .host => some settings.host.bytes
  | .pidFilePath => some settings.pidFilePath.bytes
  | .sslCertFilePath => some settings.sslCertFilePath.bytes
  | .sslKeyFilePath => some settings.sslKeyFilePath.bytes
  | .logLevel | .port | .maxConnections => none

/-- The value is copied safely: nothing behind its terminator is read, no other setting changes,
and a string field begins with what fits of the value, and a terminator. -/
def Copied (e : Entry) (k : Key) (settings settings' : ServerConfigInfo) (read : ℕ) : Prop :=
  read ≤ e.value.bytes.length + 1 ∧ k.forget settings' = k.forget settings ∧
    ∀ field ∈ k.field settings', e.value.bytes.take (field.length - 1) ++ [0] <+: field

/-- The length of a value is just right for an array of `n` bytes of which the last one is not
written, or the value is longer and the last byte is a terminator. -/
def Fills {n : ℕ} (e : Entry) (a : CharArray n) : Prop :=
  e.value.bytes.length + 2 = n ∨ (n ≤ e.value.bytes.length + 1 ∧ a.Closed)

instance {n : ℕ} (e : Entry) (a : CharArray n) : Decidable (Fills e a) :=
  inferInstanceAs (Decidable (_ ∨ _))

/-- The values that are copied safely.  No value is long enough for a path. -/
def Copyable (e : Entry) (settings : ServerConfigInfo) : Key → Prop
  | .logLevel | .port | .maxConnections => True
  | .locale => Fills e settings.locale
  | .host => Fills e settings.host
  | .logFilePath | .pidFilePath | .sslCertFilePath | .sslKeyFilePath => False

instance (e : Entry) (settings : ServerConfigInfo) (k : Key) :
    Decidable (Copyable e settings k) := by
  cases k <;> unfold Copyable <;> infer_instance

variable {n : ℕ} {e : Entry} {settings settings' : ServerConfigInfo} {read : ℕ}

theorem length_read (e : Entry) (m : ℕ) : (e.read m).length = m := by
  simp only [Entry.read, List.length_take, List.length_append, List.length_cons, List.length_map,
    List.length_range]
  omega

/-- What is read of a value that is long enough. -/
theorem read_of_le {m : ℕ} (h : m ≤ e.value.bytes.length) : e.read m = e.value.bytes.take m := by
  rw [Entry.read, List.take_append_of_le_length h]

theorem read_terminated : e.read (e.value.bytes.length + 1) = e.value.bytes ++ [0] := by
  rw [Entry.read, List.take_append, List.take_of_length_le (Nat.le_succ _)]
  simp

/-- **The copy** of all bytes but the last one of an array. -/
theorem copy_iff (hn : 0 < n) (a : CharArray n) :
    (n - 1 ≤ e.value.bytes.length + 1 ∧
      e.value.bytes.take (n - 1) ++ [0] <+: (a.memcpy (e.read (n - 1))).bytes) ↔ Fills e a := by
  obtain ⟨n, rfl⟩ := Nat.exists_eq_add_one.mpr hn
  rw [Nat.add_sub_cancel]
  obtain ⟨t, c, ha⟩ : ∃ t c, a.bytes = t ++ [c] := by
    rcases List.eq_nil_or_concat a.bytes with hnil | ⟨t, c, ha⟩
    · have := a.length_bytes
      simp [hnil] at this
    · exact ⟨t, c, by rw [ha, List.concat_eq_append]⟩
  have hlen : t.length = n := by
    have := a.length_bytes
    rwa [ha, List.length_append, List.length_singleton, Nat.add_right_cancel_iff] at this
  have hbytes : (a.memcpy (e.read n)).bytes = e.read n ++ [c] := by
    rw [CharArray.bytes_memcpy a (by rw [length_read]; omega), length_read, ha, ← hlen,
      List.drop_left]
  have hclosed : a.Closed ↔ c = 0 := by simp [CharArray.Closed, ha]
  rw [hbytes, Fills, hclosed]
  rcases lt_trichotomy n (e.value.bytes.length + 1) with hlt | heq | hgt
  · -- the terminator of the value is not reached
    have hpre : e.value.bytes.take n ++ [0] <+: e.read n ++ [c] ↔ c = 0 := by
      rw [read_of_le (Nat.le_of_lt_succ hlt), List.prefix_append_right_inj]
      simp [eq_comm]
    rw [hpre, and_iff_right hlt.le, or_iff_right (by omega), and_iff_right (by omega)]
  · have hpre : e.value.bytes.take n ++ [0] <+: e.read n ++ [c] := by
      rw [heq, read_terminated, List.take_of_length_le (Nat.le_succ _)]
      exact List.prefix_append _ _
    exact iff_of_true ⟨heq.le, hpre⟩ (.inl (by omega))
  · exact iff_of_false (by omega) (by omega)

/-- **Copying a value** of the configuration file. -/
theorem handler_copied_iff (h : handler settings e = some (settings', read)) :
    (∃ k, e.key = some k ∧ Copied e k settings settings' read) ↔
      ∃ k, e.key = some k ∧ Copyable e settings k := by
  rw [handler_eq] at h
  obtain ⟨k, hkey, hk⟩ := Option.map_eq_some_iff.mp h
  have hshort := e.short
  rw [INI_MAX_LINE] at hshort
  simp only [hkey, Option.some.injEq, exists_eq_left']
  cases k with
  | logLevel | port | maxConnections =>
    cases hk
    exact iff_of_true ⟨le_rfl, rfl, by simp [Key.field]⟩ trivial
  | locale =>
    cases hk
    have hforget : Key.forget (Key.store e settings .locale) .locale =
        Key.forget settings .locale := rfl
    rw [Copied, and_iff_right hforget]
    simp only [Key.field, Option.mem_some_iff, forall_eq', CharArray.length_bytes]
    exact copy_iff (by decide) settings.locale
  | host =>
    cases hk
    have hforget : Key.forget (Key.store e settings .host) .host = Key.forget settings .host := rfl
    rw [Copied, and_iff_right hforget]
    simp only [Key.field, Option.mem_some_iff, forall_eq', CharArray.length_bytes]
    exact copy_iff (by decide) settings.host
  | logFilePath | pidFilePath | sslCertFilePath | sslKeyFilePath =>
    cases hk
    refine iff_of_false ?_ id
    rintro ⟨hread, -⟩
    simp only [Key.read, kMaxPath] at hread
    omega

/-- The entry `[server] port = 5678`. -/
def portEntry : Entry := ⟨str "server", str "port", str "5678", by decide, fun _ => 0⟩

theorem handler_copied_iff_port :
    ∃ settings' read, handler initialSettings portEntry = some (settings', read) ∧
      ((∃ k, portEntry.key = some k ∧ Copied portEntry k initialSettings settings' read) ↔
        ∃ k, portEntry.key = some k ∧ Copyable portEntry initialSettings k) := by
  have h : handler initialSettings portEntry =
      some ({ initialSettings with port := atoi portEntry.value.bytes }, 5) := by
    rfl
  exact ⟨_, _, h, handler_copied_iff h⟩

/-- The entry `[server] host = ::1`: 35 bytes behind it are read. -/
def hostEntry : Entry := ⟨str "server", str "host", str "::1", by decide, fun _ => 0⟩

theorem not_handler_copied_host :
    ¬ ∀ (settings settings' : ServerConfigInfo) (e : Entry) (read : ℕ),
      handler settings e = some (settings', read) →
        ∃ k, e.key = some k ∧ Copied e k settings settings' read := by
  intro h
  have hrun : handler initialSettings hostEntry = some ({ initialSettings with
      host := initialSettings.host.memcpy (hostEntry.read 39) }, 39) := by
    rfl
  obtain ⟨k, -, hread, -⟩ := h _ _ _ _ hrun
  exact absurd hread (by decide)

end C2Hat
