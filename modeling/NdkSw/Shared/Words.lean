/-
The fixed-width types of the code, and the error numbers that it returns.
-/
import Mathlib.Data.BitVec

namespace NdkSw

abbrev U8 := BitVec 8
abbrev U16 := BitVec 16
abbrev U32 := BitVec 32
abbrev U64 := BitVec 64

@[simp] theorem toNat_setWidth64 (r : U32) : (r.setWidth 64 : U64).toNat = r.toNat := BitVec.toNat_setWidth_of_le (by decide)

theorem toNat_widen32 (x : U16) : (x.setWidth 32 : U32).toNat = x.toNat := BitVec.toNat_setWidth_of_le (by decide)

/-! ## Error numbers -/

def ePerm : Int := -1
def eNxio : Int := -6
def eBadf : Int := -9
def eAgain : Int := -11
def eNomem : Int := -12
def eFault : Int := -14
def eBusy : Int := -16
def eExist : Int := -17
def eNodev : Int := -19
def eInval : Int := -22
def ePipe : Int := -32
def eRange : Int := -34
def eTime : Int := -62
def eBadfd : Int := -77
def eNoBufs : Int := -105
def eAlready : Int := -114
def eInProgress : Int := -115
def eCanceled : Int := -125
def eNotsupp : Int := -524

end NdkSw
