/-
The result codes the client passes around (`hresult_helpers.h`,
`do_error.h`): signed 32-bit integers, negative on failure.
-/
import Mathlib.Data.Set.Card

namespace DoClient

abbrev HResult := Int32

/-- `FAILED(hr)`. -/
def failed (hr : HResult) : Bool := decide (hr < 0)

/-- `SUCCEEDED(hr)`. -/
def succeeded (hr : HResult) : Bool := !failed hr

namespace HResult

def S_OK : HResult := 0
def S_FALSE : HResult := 1
def E_UNEXPECTED : HResult := 0x8000FFFF
def E_UNSUPPORTED : HResult := 0x80070032
def E_OUTOFMEMORY : HResult := 0x8007000E
def E_INVALIDARG : HResult := 0x80070057
def E_NOT_SET : HResult := 0x80070490
def INET_E_INVALID_URL : HResult := 0x800C0002
def INTSAFE_E_ARITHMETIC_OVERFLOW : HResult := 0x80070216
def WININET_E_TIMEOUT : HResult := 0x80072EE2

def HTTP_E_STATUS_UNEXPECTED : HResult := 0x80190001
def HTTP_E_STATUS_UNEXPECTED_REDIRECTION : HResult := 0x80190003
def HTTP_E_STATUS_BAD_REQUEST : HResult := 0x80190190
def HTTP_E_STATUS_DENIED : HResult := 0x80190191
def HTTP_E_STATUS_FORBIDDEN : HResult := 0x80190193
def HTTP_E_STATUS_NOT_FOUND : HResult := 0x80190194
def HTTP_E_STATUS_NONE_ACCEPTABLE : HResult := 0x80190196
def HTTP_E_STATUS_PROXY_AUTH_REQ : HResult := 0x80190197
def HTTP_E_STATUS_REQUEST_TIMEOUT : HResult := 0x80190198
def HTTP_E_STATUS_REQUEST_TOO_LARGE : HResult := 0x8019019D
def HTTP_E_STATUS_SERVER_ERROR : HResult := 0x801901F4
def HTTP_E_STATUS_NOT_SUPPORTED : HResult := 0x801901F5
def HTTP_E_STATUS_BAD_GATEWAY : HResult := 0x801901F6

def DO_E_NO_SERVICE : HResult := 0x80D01001
def DO_E_DOWNLOAD_NO_PROGRESS : HResult := 0x80D02002
def DO_E_UNKNOWN_PROPERTY_ID : HResult := 0x80D02011
def DO_E_READ_ONLY_PROPERTY : HResult := 0x80D02012
def DO_E_INVALID_STATE : HResult := 0x80D02013
def DO_E_FILE_DOWNLOADSINK_UNSPECIFIED : HResult := 0x80D02018
def DO_E_DOWNLOAD_NO_URI : HResult := 0x80D02200
def DO_E_BLOCKED_BY_NO_NETWORK : HResult := 0x80D03805
def DO_E_INSUFFICIENT_RANGE_SUPPORT : HResult := 0x80D05011

/-- `HRESULT_FROM_WIN32` of a positive code. -/
def fromWin32 (x : Nat) : HResult := Int32.ofNat (x % 0x10000 + 7 * 0x10000 + 0x80000000)

/-- `HRESULT_FROM_XPLAT_SYSERR`. -/
def fromXplatSyserr (err : Nat) : HResult := Int32.ofNat (0xC0000000 + 208 * 0x10000 + err % 0x10000)

def ERROR_BAD_LENGTH : HResult := fromWin32 24
def ERROR_ALREADY_EXISTS : HResult := fromWin32 183
def ERROR_UNHANDLED_EXCEPTION : HResult := fromWin32 574
def E_NOT_VALID_STATE : HResult := fromWin32 5023
def ERROR_WINHTTP_NAME_NOT_RESOLVED : HResult := fromWin32 12007
def ERROR_WINHTTP_CANNOT_CONNECT : HResult := fromWin32 12029

end HResult

theorem failed_ofNat {n : Nat} (h₁ : 2 ^ 31 ≤ n) (h₂ : n < 2 ^ 32) : failed (Int32.ofNat n) = true := by
  have hn : (n : Int).bmod Int32.size < 0 := by
    rw [Int.bmod_def]
    simp only [Int32.size]
    omega
  simpa [failed, Int32.lt_iff_toInt_lt, Int32.toInt_ofNat] using hn

theorem failed_fromXplatSyserr (err : Nat) : failed (HResult.fromXplatSyserr err) = true :=
  failed_ofNat (by omega) (by omega)

theorem failed_ne_S_OK {hr : HResult} (h : failed hr = true) : (hr == HResult.S_OK) = false := by
  by_contra hne
  rw [Bool.not_eq_false, beq_iff_eq] at hne
  rw [hne] at h
  revert h
  decide

/-- 64-bit unsigned wrap-around. -/
def wrap64 (n : Nat) : Nat := n % 2 ^ 64

/-- 32-bit unsigned wrap-around. -/
def wrap32 (n : Nat) : Nat := n % 2 ^ 32

theorem wrap64_of_lt {n : Nat} (h : n < 2 ^ 64) : wrap64 n = n := Nat.mod_eq_of_lt h

theorem wrap64_lt (n : Nat) : wrap64 n < 2 ^ 64 := Nat.mod_lt _ (by decide)

end DoClient
