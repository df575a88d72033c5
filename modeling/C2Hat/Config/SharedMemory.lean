import C2Hat.Config.Settings

/-!
# The name of the shared memory

`initSharedMemPath` of `src/server/commands.c`: the name under which the `start` command of a
user leaves the settings for the `status` and `stop` commands.  It is written into an array
of 16 bytes, which has room for eight characters of the identifier of the user.

## Main definitions

* `initSharedMemPath` — the name for a user.

## Main results

* `sharedMemPath_ne_iff` — **the names of two users differ exactly when one of them is root or
  the first eight characters of the identifiers, printed as signed numbers, do.**
* `sharedMemPath_ne_of_lt` — they differ when both identifiers have at most eight digits.
-/

namespace C2Hat

open Clib

/-- The size of `sharedMemPath`. -/
def sharedMemPathSize : ℕ := 16

/-- The identifier of a user as `%d` prints it: the `uid_t` is taken for an `int`. -/
def uidText (uid : BitVec 32) : Bytes := decimal uid.toInt

/-- `initSharedMemPath()` for the user with the identifier `uid`. -/
def initSharedMemPath (uid : BitVec 32) : CStr :=
  if uid = 0 then
    ((CharArray.zeros sharedMemPathSize).snprintf sharedMemPathSize (ascii "/" ++ APPNAME)).str
  else
    ((CharArray.zeros sharedMemPathSize).snprintf sharedMemPathSize
      (ascii "/" ++ APPNAME ++ ascii "-" ++ uidText uid)).str

/-- What there is room for of an identifier. -/
def uidPrefix (uid : BitVec 32) : Bytes := (uidText uid).take 8

example : (initSharedMemPath 4294967295).bytes = ascii "/c2hat--1" := by decide

theorem bytes_initSharedMemPath_root : (initSharedMemPath 0).bytes = ascii "/c2hat" := by
  decide

theorem bytes_initSharedMemPath {uid : BitVec 32} (h : uid ≠ 0) :
    (initSharedMemPath uid).bytes = ascii "/c2hat-" ++ uidPrefix uid := by
  have hnul : (0 : UInt8) ∉ ascii "/" ++ APPNAME ++ ascii "-" ++ uidText uid := by
    rw [List.mem_append, not_or]
    exact ⟨by decide, zero_not_mem_decimal _⟩
  rw [initSharedMemPath, if_neg h, CharArray.str_snprintf _ hnul (by decide) le_rfl]
  rfl

/-- The name of root is shorter than all others. -/
theorem initSharedMemPath_root_ne {uid : BitVec 32} (h : uid ≠ 0) :
    initSharedMemPath 0 ≠ initSharedMemPath uid := by
  intro heq
  have hlen := congrArg (fun s => s.bytes.length) heq
  simp only [bytes_initSharedMemPath_root, bytes_initSharedMemPath h, List.length_append] at hlen
  have h6 : (ascii "/c2hat").length = 6 := by decide
  have h7 : (ascii "/c2hat-").length = 7 := by decide
  omega

/-- There is room for eight digits. -/
theorem uidPrefix_of_lt {uid : BitVec 32} (h : uid.toNat < 10 ^ 8) : uidPrefix uid = uidText uid := by
  have hint : uid.toInt = uid.toNat := BitVec.toInt_eq_toNat_of_lt (by omega)
  refine List.take_of_length_le ?_
  rw [uidText, length_decimal_le_iff (by decide), hint]
  omega

/-- **One name per user**, except for identifiers that begin alike. -/
theorem sharedMemPath_ne_iff (a b : BitVec 32) (hab : a ≠ b) :
    initSharedMemPath a ≠ initSharedMemPath b ↔ a = 0 ∨ b = 0 ∨ uidPrefix a ≠ uidPrefix b := by
  by_cases ha : a = 0
  · subst ha
    exact iff_of_true (initSharedMemPath_root_ne hab.symm) (.inl rfl)
  by_cases hb : b = 0
  · subst hb
    exact iff_of_true (initSharedMemPath_root_ne ha).symm (.inr (.inl rfl))
  have hname : initSharedMemPath a = initSharedMemPath b ↔ uidPrefix a = uidPrefix b := by
    rw [CStr.ext_iff, bytes_initSharedMemPath ha, bytes_initSharedMemPath hb,
      List.append_cancel_left_eq]
  rw [Ne, hname]
  constructor
  · exact fun h => .inr (.inr h)
  · rintro (h | h | h)
    · exact absurd h ha
    · exact absurd h hb
    · exact h

theorem sharedMemPath_ne_iff_thousand :
    initSharedMemPath 1000 ≠ initSharedMemPath 1001 ↔
      (1000 : BitVec 32) = 0 ∨ (1001 : BitVec 32) = 0 ∨ uidPrefix 1000 ≠ uidPrefix 1001 :=
  sharedMemPath_ne_iff 1000 1001 (by decide)

/-- Two users share a name. -/
theorem not_sharedMemPath_ne_long :
    ¬ ∀ a b : BitVec 32, a ≠ b → initSharedMemPath a ≠ initSharedMemPath b := by
  intro h
  exact h 100000000 1000000001 (by decide) (by decide)

/-- Identifiers with at most eight digits have names of their own. -/
theorem sharedMemPath_ne_of_lt {a b : BitVec 32} (ha : a.toNat < 10 ^ 8) (hb : b.toNat < 10 ^ 8)
    (hab : a ≠ b) : initSharedMemPath a ≠ initSharedMemPath b := by
  by_cases ha₀ : a = 0
  · exact ha₀ ▸ initSharedMemPath_root_ne fun hb₀ => hab (ha₀.trans hb₀.symm)
  by_cases hb₀ : b = 0
  · exact hb₀ ▸ (initSharedMemPath_root_ne ha₀).symm
  intro heq
  rw [CStr.ext_iff, bytes_initSharedMemPath ha₀, bytes_initSharedMemPath hb₀,
    List.append_cancel_left_eq, uidPrefix_of_lt ha, uidPrefix_of_lt hb] at heq
  exact hab (BitVec.toInt_inj.mp (decimal_injective heq))

end C2Hat
