import PwshHost.Rust.Std

/-! Exit codes of the hosting library: the codes with a name, all others by
their number, and their conversions from and to machine integers. -/
namespace PwshHost.HostFxr

open Rust

/-- `as u32`, which keeps the bits. -/
def asU32 (i : I32) : U32 := ⟨i.val % 4294967296, by omega⟩

/-- `as i32`, which keeps the bits. -/
def asI32 (u : U32) : I32 := ⟨(u.val + 2147483648) % 4294967296 - 2147483648, by omega⟩

structure TryFromIntError where
  deriving DecidableEq

/-- `i32::try_from` at a `u32`. -/
def i32TryFrom (u : U32) : Except TryFromIntError I32 :=
  match Bounded.ofInt (-2147483648) 2147483647 u.val with
  | some i => .ok i
  | none => .error ⟨⟩

/-- Both casts keep the 32 bits, so one undoes the other. -/
theorem asI32_asU32 (i : I32) : asI32 (asU32 i) = i := by
  have hRange := i.property
  apply Subtype.ext
  change (i.val % 4294967296 + 2147483648) % 4294967296 - 2147483648 = i.val
  omega

/-- A checked conversion accepts what came from a number that is not negative. -/
theorem i32TryFrom_asU32 (i : I32) :
    i32TryFrom (asU32 i) = if 0 ≤ i.val then .ok i else .error ⟨⟩ := by
  have hRange := i.property
  have hBits : (asU32 i).val = i.val % 4294967296 := rfl
  by_cases hNonneg : 0 ≤ i.val
  · have hSame : (asU32 i).val = i.val := by omega
    have hInt : Bounded.ofInt (-2147483648) 2147483647 (asU32 i).val = some i := by
      rw [Bounded.ofInt, dif_pos (by omega)]
      exact congrArg some (Subtype.ext hSame)
    rw [i32TryFrom, hInt, if_pos hNonneg]
  · have hInt : Bounded.ofInt (-2147483648) 2147483647 (asU32 i).val = none := by
      rw [Bounded.ofInt, dif_neg (by omega)]
    rw [i32TryFrom, hInt, if_neg hNonneg]

inductive KnownHostExitCode where
  | success
  | successHostAlreadyInitialized
  | successDifferentRuntimeProperties
  | invalidArgFailure
  | coreHostLibLoadFailure
  | coreHostLibMissingFailure
  | coreHostEntryPointFailure
  | coreHostCurHostFindFailure
  | coreClrResolveFailure
  | coreClrBindFailure
  | coreClrInitFailure
  | coreClrExeFailure
  | resolverInitFailure
  | resolverResolveFailure
  | libHostCurExeFindFailure
  | libHostInitFailure
  | libHostSdkFindFailure
  | libHostInvalidArgs
  | invalidConfigFile
  | appArgNotRunnable
  | appHostExeNotBoundFailure
  | frameworkMissingFailure
  | hostApiFailed
  | hostApiBufferTooSmall
  | libHostUnknownCommand
  | libHostAppRootFindFailure
  | sdkResolverResolveFailure
  | frameworkCompatFailure
  | frameworkCompatRetry
  | appHostExeNotBundle
  | bundleExtractionFailure
  | bundleExtractionIOError
  | libHostDuplicateProperty
  | hostApiUnsupportedVersion
  | hostInvalidState
  | hostPropertyNotFound
  | coreHostIncompatibleConfig
  | hostApiUnsupportedScenario
  deriving DecidableEq, Repr

namespace KnownHostExitCode

/-- The discriminants. -/
def value : KnownHostExitCode → U32
  | success => ⟨0x00000000, by decide⟩
  | successHostAlreadyInitialized => ⟨0x00000001, by decide⟩
  | successDifferentRuntimeProperties => ⟨0x00000002, by decide⟩
  | invalidArgFailure => ⟨0x80008081, by decide⟩
  | coreHostLibLoadFailure => ⟨0x80008082, by decide⟩
  | coreHostLibMissingFailure => ⟨0x80008083, by decide⟩
  | coreHostEntryPointFailure => ⟨0x80008084, by decide⟩
  | coreHostCurHostFindFailure => ⟨0x80008085, by decide⟩
  | coreClrResolveFailure => ⟨0x80008087, by decide⟩
  | coreClrBindFailure => ⟨0x80008088, by decide⟩
  | coreClrInitFailure => ⟨0x80008089, by decide⟩
  | coreClrExeFailure => ⟨0x8000808a, by decide⟩
  | resolverInitFailure => ⟨0x8000808b, by decide⟩
  | resolverResolveFailure => ⟨0x8000808c, by decide⟩
  | libHostCurExeFindFailure => ⟨0x8000808d, by decide⟩
  | libHostInitFailure => ⟨0x8000808e, by decide⟩
  | libHostSdkFindFailure => ⟨0x80008091, by decide⟩
  | libHostInvalidArgs => ⟨0x80008092, by decide⟩
  | invalidConfigFile => ⟨0x80008093, by decide⟩
  | appArgNotRunnable => ⟨0x80008094, by decide⟩
  | appHostExeNotBoundFailure => ⟨0x80008095, by decide⟩
  | frameworkMissingFailure => ⟨0x80008096, by decide⟩
  | hostApiFailed => ⟨0x80008097, by decide⟩
  | hostApiBufferTooSmall => ⟨0x80008098, by decide⟩
  | libHostUnknownCommand => ⟨0x80008099, by decide⟩
  | libHostAppRootFindFailure => ⟨0x8000809a, by decide⟩
  | sdkResolverResolveFailure => ⟨0x8000809b, by decide⟩
  | frameworkCompatFailure => ⟨0x8000809c, by decide⟩
  | frameworkCompatRetry => ⟨0x8000809d, by decide⟩
  | appHostExeNotBundle => ⟨0x8000809e, by decide⟩
  | bundleExtractionFailure => ⟨0x8000809f, by decide⟩
  | bundleExtractionIOError => ⟨0x800080a0, by decide⟩
  | libHostDuplicateProperty => ⟨0x800080a1, by decide⟩
  | hostApiUnsupportedVersion => ⟨0x800080a2, by decide⟩
  | hostInvalidState => ⟨0x800080a3, by decide⟩
  | hostPropertyNotFound => ⟨0x800080a4, by decide⟩
  | coreHostIncompatibleConfig => ⟨0x800080a5, by decide⟩
  | hostApiUnsupportedScenario => ⟨0x800080a6, by decide⟩

/-- The codes in the order of their declaration. -/
def all : List KnownHostExitCode :=
  [success, successHostAlreadyInitialized, successDifferentRuntimeProperties, invalidArgFailure,
    coreHostLibLoadFailure, coreHostLibMissingFailure, coreHostEntryPointFailure,
    coreHostCurHostFindFailure, coreClrResolveFailure, coreClrBindFailure, coreClrInitFailure,
    coreClrExeFailure, resolverInitFailure, resolverResolveFailure, libHostCurExeFindFailure,
    libHostInitFailure, libHostSdkFindFailure, libHostInvalidArgs, invalidConfigFile,
    appArgNotRunnable, appHostExeNotBoundFailure, frameworkMissingFailure, hostApiFailed,
    hostApiBufferTooSmall, libHostUnknownCommand, libHostAppRootFindFailure,
    sdkResolverResolveFailure, frameworkCompatFailure, frameworkCompatRetry, appHostExeNotBundle,
    bundleExtractionFailure, bundleExtractionIOError, libHostDuplicateProperty,
    hostApiUnsupportedVersion, hostInvalidState, hostPropertyNotFound, coreHostIncompatibleConfig,
    hostApiUnsupportedScenario]

/-- The derived `TryFromPrimitive`: the code with that discriminant. -/
def tryFromPrimitive (number : U32) : Option KnownHostExitCode :=
  all.find? fun code => code.value = number

/-- The list has every code of the enumeration. -/
theorem mem_all (code : KnownHostExitCode) : code ∈ all := by cases code <;> decide

/-- No two codes have one number. -/
theorem value_injective {first second : KnownHostExitCode} (h : first.value = second.value) :
    first = second := by
  have hAll : ∀ a ∈ all, ∀ b ∈ all, a.value.val = b.value.val → a = b := by decide
  exact hAll first (mem_all first) second (mem_all second) (congrArg Subtype.val h)

/-- A number is converted to the code that has it. -/
theorem tryFromPrimitive_eq_some {number : U32} {code : KnownHostExitCode} :
    tryFromPrimitive number = some code ↔ code.value = number := by
  constructor
  · intro h
    simpa using List.find?_some h
  · intro h
    cases hFind : tryFromPrimitive number with
    | none => exact absurd h (by simpa using List.find?_eq_none.mp hFind code (mem_all code))
    | some other =>
        have hOther : other.value = number := by simpa using List.find?_some hFind
        rw [value_injective (hOther.trans h.symm)]

/-- A number that no code has is not converted. -/
theorem tryFromPrimitive_eq_none {number : U32} :
    tryFromPrimitive number = none ↔ ¬ ∃ code : KnownHostExitCode, code.value = number := by
  rw [Option.eq_none_iff_forall_ne_some]
  simp [tryFromPrimitive_eq_some]

end KnownHostExitCode

inductive HostExitCode where
  | known (code : KnownHostExitCode)
  | unknown (value : U32)
  deriving DecidableEq

/-- The errors of the crate. -/
inductive Error (DlopenError IoError : Type) where
  | dlOpen (err : DlopenError)
  | io (err : IoError)
  | hostfxr (errorCode : HostExitCode)

variable {DlopenError IoError : Type}

namespace KnownHostExitCode

def isSuccess : KnownHostExitCode → Bool
  | success | successDifferentRuntimeProperties | successHostAlreadyInitialized => true
  | _ => false

def intoResult (code : KnownHostExitCode) : Except (Error DlopenError IoError) Unit :=
  if code.isSuccess then .ok () else .error (.hostfxr (.known code))

/-- The successful codes are the three smallest numbers. -/
theorem isSuccess_iff (code : KnownHostExitCode) : code.isSuccess = true ↔ code.value.val ≤ 2 := by
  cases code <;> decide

/-- The three success codes are known. -/
theorem exists_value_of_le {number : U32} (h : number.val ≤ 2) :
    ∃ code : KnownHostExitCode, code.value = number := by
  have hRange := number.property
  have hCases : number.val = 0 ∨ number.val = 1 ∨ number.val = 2 := by omega
  rcases hCases with hNumber | hNumber | hNumber
  · exact ⟨success, Subtype.ext hNumber.symm⟩
  · exact ⟨successHostAlreadyInitialized, Subtype.ext hNumber.symm⟩
  · exact ⟨successDifferentRuntimeProperties, Subtype.ext hNumber.symm⟩

end KnownHostExitCode

namespace HostExitCode

def new (value : U32) : HostExitCode :=
  match KnownHostExitCode.tryFromPrimitive value with
  | some code => known code
  | none => unknown value

def isSuccess : HostExitCode → Bool
  | known code => code.isSuccess
  | unknown _ => false

def value : HostExitCode → U32
  | known code => code.value
  | unknown code => code

def intoResult : HostExitCode → Except (Error DlopenError IoError) Unit
  | known code => code.intoResult
  | unknown code => .error (.hostfxr (unknown code))

/-- `From<i32>`. -/
def fromI32 (value : I32) : HostExitCode := new (asU32 value)

/-- `From<u32>`. -/
def fromU32 (value : U32) : HostExitCode := new value

/-- `TryFrom<HostExitCode>` for `i32`. -/
def tryIntoI32 (code : HostExitCode) : Except TryFromIntError I32 := i32TryFrom code.value

/-- `From<HostExitCode>` for `u32`. -/
def intoU32 (code : HostExitCode) : U32 := code.value

/-- A code keeps the number that it was made from. -/
theorem value_new (number : U32) : (new number).value = number := by
  unfold new
  cases hKnown : KnownHostExitCode.tryFromPrimitive number with
  | none => rfl
  | some code => exact KnownHostExitCode.tryFromPrimitive_eq_some.mp hKnown

/-- A code is known exactly when its number is a discriminant. -/
theorem new_known_iff (number : U32) :
    (∃ code, new number = known code) ↔ ∃ code : KnownHostExitCode, code.value = number := by
  unfold new
  cases hKnown : KnownHostExitCode.tryFromPrimitive number with
  | none =>
      have hNone := KnownHostExitCode.tryFromPrimitive_eq_none.mp hKnown
      simp [hNone]
  | some code =>
      have hValue := KnownHostExitCode.tryFromPrimitive_eq_some.mp hKnown
      exact iff_of_true ⟨code, rfl⟩ ⟨code, hValue⟩

/-- A number is a success if it is one of the three smallest, be it known or not. -/
theorem new_isSuccess_iff (number : U32) : (new number).isSuccess = true ↔ number.val ≤ 2 := by
  unfold new
  cases hKnown : KnownHostExitCode.tryFromPrimitive number with
  | none =>
      refine iff_of_false Bool.false_ne_true fun hSmall => ?_
      exact KnownHostExitCode.tryFromPrimitive_eq_none.mp hKnown
        (KnownHostExitCode.exists_value_of_le hSmall)
  | some code =>
      rw [← KnownHostExitCode.tryFromPrimitive_eq_some.mp hKnown]
      exact code.isSuccess_iff

/-- At either level a code is turned into an error that holds it, unless it is
a successful one. -/
theorem intoResult_eq (code : HostExitCode) :
    (code.intoResult : Except (Error DlopenError IoError) Unit) =
      if code.isSuccess then .ok () else .error (.hostfxr code) := by
  cases code with
  | known code => rfl
  | unknown number => rfl

/-- A nonnegative `i32` is converted back, a negative one is not: the bits of
the code are then a number above `i32::MAX`. The bits are kept in all cases. -/
theorem exit_code_conversions :
    (∀ x : I32, (fromI32 x).tryIntoI32 = if 0 ≤ x.val then .ok x else .error ⟨⟩) ∧
    (∀ x : I32, asI32 (fromI32 x).intoU32 = x) ∧
    ∀ y : U32, (fromU32 y).intoU32 = y := by
  refine ⟨?_, ?_, value_new⟩
  · intro x
    rw [tryIntoI32, fromI32, value_new, i32TryFrom_asU32]
  · intro x
    rw [intoU32, fromI32, value_new, asI32_asU32]

/-- The code of an invalid argument as the library returns it. -/
def invalidArg : I32 := ⟨-2147450751, by decide⟩

theorem invalidArg_not_converted :
    fromI32 invalidArg = known .invalidArgFailure ∧
      (fromI32 invalidArg).tryIntoI32 ≠ .ok invalidArg := by
  refine ⟨by decide, ?_⟩
  intro h
  cases h

end HostExitCode

end PwshHost.HostFxr
