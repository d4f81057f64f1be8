import LakeOS.Model.Vfs

/-!
# Formatted output

`printf` walks over a format in memory.  What it hands to `putchar` is the output; the
addresses that it reads the format from are kept, and so is the number of bytes that it
returns, an `int`.  A `char` is signed, so the byte `0xFF` is the `EOF` that `print` stops at.
-/

set_option autoImplicit false

namespace LakeOS.Model

open LakeOS.Library

/-- An argument of `printf`. -/
inductive PrintArg where
  | int (i : ℤ)
  | str (s : CString)
  | ptr (p : ℕ)
deriving DecidableEq

/-- The character `%`. -/
abbrev percent : Byte := 0x25

/-- The character `-`. -/
abbrev minusSign : Byte := 0x2D

/-- A number as an `int`. -/
def asInt (n : ℤ) : ℤ := Int.bmod n (2 ^ 32)

/-- What `print` writes, up to the first `EOF`.
SRCLINE: printf.c:9-14 -/
def print : CString → CString
  | [] => []
  | c :: data => if c = 0xFF then [c] else c :: print data

/-- The digits in `buff`, the last one first; an `int` has at most ten.
SRCLINE: printf.c:27-30 -/
def printintDigits : ℕ → ℤ → List Byte
  | 0, _ => []
  | fuel + 1, n =>
      BitVec.ofInt 8 (0x30 + n.tmod 10) ::
        (if n.tdiv 10 = 0 then [] else printintDigits fuel (n.tdiv 10))

/-- SRCLINE: printf.c:16-37 -/
def printint (n : ℤ) : List Byte :=
  if n < 0 then minusSign :: (printintDigits 10 (asInt (-n))).reverse
  else (printintDigits 10 n).reverse

/-- The digits that are counted in `bytes_written`.
SRCLINE: printf.c:104-107 -/
def countDigits : ℕ → ℤ → ℕ
  | 0, _ => 0
  | fuel + 1, i => (if i.tdiv 10 = 0 then 0 else countDigits fuel (i.tdiv 10)) + 1

/-- `hex[k]`. -/
def hexChar (k : ℕ) : Byte := BitVec.ofNat 8 (if k < 10 then 0x30 + k else 0x41 + (k - 10))

/-- SRCLINE: printf.c:56-65 -/
def printptr (p : ℕ) : List Byte :=
  0x30 :: 0x78 :: ([7, 6, 5, 4, 3, 2, 1, 0].map fun i => hexChar ((p >>> (i * 4)) &&& 0xF))

/-- The bytes that were written, the number of them that is returned, and the addresses that
the format was read from. -/
structure PrintfRun where
  output : List Byte
  bytesWritten : ℤ
  reads : List ℕ

/-- A run that wrote `bytes` for the format bytes at `addresses` and counted `n` of them. -/
def PrintfRun.emit (run : PrintfRun) (bytes : List Byte) (n : ℕ) (addresses : List ℕ) :
    PrintfRun where
  output := run.output ++ bytes
  bytesWritten := asInt (run.bytesWritten + n)
  reads := run.reads ++ addresses

/-- What a directive writes, how much it counts and the arguments behind it; `none` if its
argument is of another kind.
SRCLINE: printf.c:76-122 -/
def printfDirective (c : Byte) (args : List PrintArg) :
    Option ((List Byte × ℕ) × List PrintArg) :=
  if c = 0x63 then
    match args with
    | .int i :: args => some (([BitVec.ofInt 8 i], 1), args)
    | _ => none
  else if c = 0x73 then
    match args with
    | .str s :: args => some ((print s, s.length), args)
    | _ => none
  else if c = 0x64 ∨ c = 0x69 then
    match args with
    | .int i :: args => some ((printint i, countDigits 10 i), args)
    | _ => none
  else if c = 0x70 then
    match args with
    | .ptr p :: args => some ((printptr p, 0), args)
    | _ => none
  else some (([c], 1), args)

/-- The loop of `printf`; `none` if it has not ended or is out of arguments.
SRCLINE: printf.c:74-127 -/
def printfLoop (mem : Store Byte) : ℕ → ℕ → List PrintArg → PrintfRun → Option PrintfRun
  | 0, _, _, _ => none
  | fuel + 1, format, args, run =>
      if mem format = 0 then some (run.emit [] 0 [format])
      else if mem format = percent then do
        let next ← printfDirective (mem (format + 1)) args
        printfLoop mem fuel (format + 2) next.2
          (run.emit next.1.1 next.1.2 [format, format + 1])
      else printfLoop mem fuel (format + 1) args (run.emit [mem format] 0 [format])

/-- SRCLINE: printf.c:68-132 -/
def printf (mem : Store Byte) (fuel format : ℕ) (args : List PrintArg) : Option PrintfRun :=
  printfLoop mem fuel format args ⟨[], 0, []⟩

end LakeOS.Model
