import C2Hat.Config.Options

/-!
# The port as a text

`Server_init` prints the port into an array of six bytes.  The port comes through `atoi`, which
takes any number there is, and nothing compares it with the ports there are.

## Main definitions

* `serverPort` — what `Server_init` prints.
* `Printable` — the numbers there is room for.

## Main results

* `serverPort_fits_iff` — **the text fits exactly when the port that is given is printable.**
-/

namespace C2Hat

open Clib

/-- The size of `serverPort` in `Server_init`. -/
def serverPortSize : ℕ := 6

/-- `sprintf(serverPort, "%d", config->port)`: the text in front of the terminator. -/
def serverPort (config : ServerConfigInfo) : Bytes := decimal config.port.toInt

/-- The numbers with at most five characters. -/
def Printable (port : BitVec 32) : Prop := -10000 < port.toInt ∧ port.toInt < 100000

instance (port : BitVec 32) : Decidable (Printable port) := inferInstanceAs (Decidable (_ ∧ _))

variable {env : Environment} {opts : List Opt} {settings : ServerConfigInfo}

theorem length_serverPort_le_iff (config : ServerConfigInfo) :
    (serverPort config).length + 1 ≤ serverPortSize ↔ Printable config.port := by
  have hsize : (serverPort config).length + 1 ≤ serverPortSize ↔
      (serverPort config).length ≤ 4 + 1 :=
    Nat.add_le_add_iff_right
  rw [hsize, serverPort, length_decimal_le_iff (by decide), Printable]
  omega

/-- The default port is printable. -/
theorem printable_default : Printable kDefaultServerPort := by decide

/-- The port that is not zero on the command line, else the one of the file, is printable. -/
theorem printable_layerNumber_iff (cli file : Option (BitVec 32)) :
    Printable (layerNumber cli (file.getD kDefaultServerPort)) ↔
      (∀ p ∈ cli, p ≠ 0 → Printable p) ∧ ((∀ p ∈ cli, p = 0) → ∀ p ∈ file, Printable p) := by
  have hbelow : Printable (file.getD kDefaultServerPort) ↔ ∀ p ∈ file, Printable p := by
    cases file with
    | none => simp [printable_default]
    | some p => simp
  rw [layerNumber]
  cases cli with
  | none => simp [hbelow]
  | some p =>
    rw [Option.getD_some]
    by_cases hp : p = 0
    · rw [if_pos hp, hbelow]
      simp [hp]
    · rw [if_neg hp]
      simp [show p ≠ 0#32 from hp]

/-- **The port of accepted options** fits into the array exactly when the number on the command
line does, or, if that is zero or missing, the number in the file. -/
theorem serverPort_fits_iff (h : parseOptions env opts initialSettings = (true, settings)) :
    (serverPort settings).length + 1 ≤ serverPortSize ↔
      (∀ port ∈ cliPort opts, port ≠ 0 → Printable port) ∧
      ((∀ port ∈ cliPort opts, port = 0) →
        ∀ text ∈ fileValue env opts .port, Printable (atoi text)) := by
  have haccepted : Accepted env opts := by
    by_contra hnot
    have hfalse := parseOptions_of_not_accepted hnot
    rw [h] at hfalse
    cases hfalse
  obtain ⟨s, hs, hspec⟩ := parseOptions_of_accepted haccepted
  obtain rfl : s = settings := congrArg Prod.snd (hs.symm.trans h)
  rw [length_serverPort_le_iff, hspec.port, printable_layerNumber_iff]
  simp only [Option.mem_map, forall_exists_index, and_imp, forall_apply_eq_imp_iff₂]

/-- Without a configuration file, known options are accepted. -/
theorem accepted_port (optarg : CStr) : Accepted someEnvironment [.port optarg] := by
  have hfile : fileOf someEnvironment [.port optarg] = none := by
    refine if_pos ?_
    rfl
  rw [Accepted, hfile]
  simp

theorem serverPort_fits_iff_port : ∃ settings,
    parseOptions someEnvironment [.port (str "5678")] initialSettings = (true, settings) ∧
      ((serverPort settings).length + 1 ≤ serverPortSize ↔
        (∀ port ∈ cliPort [.port (str "5678")], port ≠ 0 → Printable port) ∧
        ((∀ port ∈ cliPort [.port (str "5678")], port = 0) →
          ∀ text ∈ fileValue someEnvironment [.port (str "5678")] .port,
            Printable (atoi text))) := by
  obtain ⟨s, hs, -⟩ := parseOptions_of_accepted (accepted_port (str "5678"))
  exact ⟨s, hs, serverPort_fits_iff hs⟩

/-- A port with six digits is accepted. -/
theorem not_serverPort_fits_long :
    ¬ ∀ (env : Environment) (opts : List Opt) (settings : ServerConfigInfo),
      parseOptions env opts initialSettings = (true, settings) →
        (serverPort settings).length + 1 ≤ serverPortSize := by
  intro h
  obtain ⟨s, hs, hspec⟩ := parseOptions_of_accepted (accepted_port (str "100000"))
  have hfits := (length_serverPort_le_iff s).mp (h _ _ s hs)
  rw [hspec.port, printable_layerNumber_iff] at hfits
  exact absurd (hfits.1 100000 (by decide) (by decide)) (by decide)

end C2Hat
