/-!
# Error numbers

The ones the program names. A function that fails returns the negated number.
-/

namespace NodeLib

def ENOENT : Int := 2
/-- `EIO`; the short name is taken. -/
def EIOERR : Int := 5
def EAGAIN : Int := 11
def ENOMEM : Int := 12
def EFAULT : Int := 14
def EBUSY : Int := 16
def ENODEV : Int := 19
def EINVAL : Int := 22
def EFBIG : Int := 27
def ECONNRESET : Int := 104
def ETIMEDOUT : Int := 116
def ENOTSUP : Int := 134
def EILSEQ : Int := 138

/-- An error is a negative number. -/
def NegErr {α : Type} : Except Int α → Prop
  | .error e => e < 0
  | .ok _ => True

@[simp] theorem negErr_error {α : Type} (e : Int) : NegErr (.error e : Except Int α) ↔ e < 0 := Iff.rfl

@[simp] theorem negErr_ok {α : Type} (a : α) : NegErr (.ok a) := trivial

end NodeLib
