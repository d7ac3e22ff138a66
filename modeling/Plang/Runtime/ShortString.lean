import Plang.Runtime.Capture
import Plang.Runtime.Numbers

/-!
# Short strings

A `string[N]` of Turbo Pascal is a length byte and `N` bytes behind it.  The routines clamp
positions, counts and lengths; the ones that work in place are given variables, which may be the
same.
-/

namespace Plang

namespace Runtime

/-- A variable of type `string[cap]`. -/
structure ShortString where
  /-- The declared capacity. -/
  cap : Int
  /-- The length byte. -/
  len : Nat
  /-- The bytes behind it. -/
  data : Text
  deriving DecidableEq

namespace ShortString

/-- The capacity that a length byte can express. -/
def effCap (cap : Int) : Int := min cap 255

/-- A number as it is kept in a byte. -/
def byte (n : Int) : Nat := (n % 256).toNat

/-- The characters of the string. -/
def contents (s : ShortString) : Text := s.data.take s.len

/-- Write the length byte. -/
def setLen (s : ShortString) (n : Int) : ShortString := { s with len := byte n }

/-- `memcpy` to the bytes from an offset on. -/
def copyIn (s : ShortString) (offset : Nat) (bytes : Text) : ShortString :=
  { s with data := s.data.take offset ++ bytes ++ s.data.drop (offset + bytes.length) }

/-- A temporary. -/
def temporary (cap : Int) : ShortString := { cap, len := 0, data := List.replicate cap.toNat '\x00' }

/-! ## Values from other forms -/

/-- From a literal. -/
def plangSstrFromBytes (s : ShortString) (src : Text) : ShortString :=
  if src.isEmpty then s.setLen 0
  else
    let len : Int := min src.length (effCap s.cap)
    (s.setLen len).copyIn 0 (src.take len.toNat)

/-- From a C string. -/
def plangSstrFromCstr (s : ShortString) : Option Text → ShortString
  | none => s.setLen 0
  | some src => s.plangSstrFromBytes (cString src)

/-- From a character. -/
def plangSstrFromChar (s : ShortString) (c : Char) : ShortString :=
  if effCap s.cap < 1 then s.setLen 0 else (s.setLen 1).copyIn 0 [c]

/-- The end of `Str`. -/
def plangWritestrEndSstr (s : ShortString) (text : Text) : ShortString :=
  match Destination.store text (.sstr s.cap) with
  | .sstr length data => (s.setLen length).copyIn 0 data
  | _ => s

/-- Read what stands before the end of the line. -/
def plangSstrRead (s : ShortString) (line : Text) : ShortString :=
  let read := line.take (effCap s.cap).toNat
  (s.copyIn 0 read).setLen read.length

/-! ## Values from strings -/

/-- `a + b`, into another string. -/
def plangSstrConcat (dst a b : ShortString) : ShortString :=
  let la : Int := a.len
  let lb : Int := b.len
  let ld := min (la + lb) (effCap dst.cap)
  let la2 := min la ld
  let lb2 := min lb (ld - la2)
  ((dst.copyIn 0 (a.data.take la2.toNat)).copyIn la2.toNat (b.data.take lb2.toNat)).setLen
    (la2 + lb2)

/-- `Copy(src, index, count)`, into another string. -/
def plangSstrCopy (dst src : ShortString) (index count : Int) : ShortString :=
  let srcLen : Int := src.len
  let idx := if index < 1 then 1 else index
  let avail := if idx ≤ srcLen then srcLen - idx + 1 else 0
  let cnt := min (min (max 0 count) avail) (effCap dst.cap)
  (dst.copyIn 0 ((src.data.drop (idx - 1).toNat).take cnt.toNat)).setLen cnt

/-- `StringOfChar(ch, count)`. -/
def plangSstrOfChar (dst : ShortString) (ch : Char) (count : Int) : ShortString :=
  let n := min (max 0 count) (effCap dst.cap)
  (dst.copyIn 0 (List.replicate n.toNat ch)).setLen n

/-! ## Changes in place -/

/-- `Delete(s, index, count)`; nothing happens where there is no character at the index. -/
def plangSstrDelete (s : ShortString) (index count : Int) : ShortString :=
  let len : Int := s.len
  if index < 1 ∨ len < index then s
  else
    let cnt := min (max 0 count) (len - index + 1)
    if cnt = 0 then s
    else
      let tailStart := index - 1 + cnt
      let tail := (s.data.drop tailStart.toNat).take (len - tailStart).toNat
      (s.copyIn (index - 1).toNat tail).setLen (len - cnt)

/-- Append to a buffer of `ecap` bytes what there is room for. -/
def fill (ecap : Nat) (buf source : Text) : Text := buf ++ source.take (ecap - buf.length)

/-- `SetLength(s, newLen)`; bytes that come into the string stay what they are. -/
def plangSstrSetlength (s : ShortString) (newLen : Int) : ShortString :=
  s.setLen (min (max 0 newLen) (effCap s.cap))

section Memory

variable {V : Type*} [DecidableEq V]

/-- `dst := src`: the length byte first, then the bytes. -/
def plangSstrAssign (mem : V → ShortString) (dst src : V) : V → ShortString :=
  let len : Int := min (mem src).len (effCap (mem dst).cap)
  let shortened := Function.update mem dst ((mem dst).setLen len)
  Function.update shortened dst
    ((shortened dst).copyIn 0 ((shortened src).data.take len.toNat))

/-- `Insert(src, s, index)`, put together in a buffer. -/
def plangSstrInsert (mem : V → ShortString) (s src : V) (index : Int) : V → ShortString :=
  let ecap := effCap (mem s).cap
  let len : Int := min (mem s).len ecap
  let idx := min (if index < 1 then 1 else index) (len + 1)
  let idx0 := (idx - 1).toNat
  let old := (mem s).data
  let before := fill ecap.toNat [] (old.take idx0)
  let within := fill ecap.toNat before ((mem src).data.take (mem src).len)
  let buf := fill ecap.toNat within ((old.take len.toNat).drop idx0)
  Function.update mem s (((mem s).copyIn 0 buf).setLen buf.length)

/-- `dst :=` a temporary, which is no variable. -/
def assignTemporary (mem : V → ShortString) (dst : V) (value : ShortString) : V → ShortString :=
  fun v => plangSstrAssign (fun cell : Option V => cell.elim value mem) (some dst) none (some v)

/-- The capacity of the temporary for `a + b`. -/
def concatCap (a b : ShortString) : Int := min (a.cap + b.cap) 255

/-- The capacity of the temporaries of the functions. -/
def PlangMaxStringCapacity : Int := 255

/-- The operations of a program on its strings; the variables may be the same. -/
inductive Operation (V : Type*) where
  | assign (dst src : V)
  | fromBytes (dst : V) (src : Text)
  | fromCstr (dst : V) (src : Option Text)
  | fromChar (dst : V) (c : Char)
  | concat (dst a b : V)
  | copy (dst src : V) (index count : Int)
  | ofChar (dst : V) (ch : Char) (count : Int)
  | delete (s : V) (index count : Int)
  | insert (src s : V) (index : Int)
  | setLength (s : V) (newLen : Int)
  | read (s : V) (line : Text)
  | str (s : V) (text : Text)

omit [DecidableEq V] in
/-- The variable an operation changes. -/
def Operation.dest : Operation V → V
  | .assign dst _ | .fromBytes dst _ | .fromCstr dst _ | .fromChar dst _ => dst
  | .concat dst _ _ | .copy dst _ _ _ | .ofChar dst _ _ => dst
  | .delete s _ _ | .insert _ s _ | .setLength s _ | .read s _ | .str s _ => s

/-- Perform an operation whose operands are variables: results that have no variable are put into
temporaries and assigned.  (A named string constant is no operand here; it goes through a temporary of
its own.) -/
def perform (mem : V → ShortString) : Operation V → V → ShortString
  | .assign dst src => plangSstrAssign mem dst src
  | .fromBytes dst src => Function.update mem dst ((mem dst).plangSstrFromBytes src)
  | .fromCstr dst src => Function.update mem dst ((mem dst).plangSstrFromCstr src)
  | .fromChar dst c => Function.update mem dst ((mem dst).plangSstrFromChar c)
  | .concat dst a b =>
      assignTemporary mem dst
        ((temporary (concatCap (mem a) (mem b))).plangSstrConcat (mem a) (mem b))
  | .copy dst src index count =>
      assignTemporary mem dst
        ((temporary PlangMaxStringCapacity).plangSstrCopy (mem src) index count)
  | .ofChar dst ch count =>
      assignTemporary mem dst ((temporary PlangMaxStringCapacity).plangSstrOfChar ch count)
  | .delete s index count => Function.update mem s ((mem s).plangSstrDelete index count)
  | .insert src s index => plangSstrInsert mem s src index
  | .setLength s newLen => Function.update mem s ((mem s).plangSstrSetlength newLen)
  | .read s line => Function.update mem s ((mem s).plangSstrRead line)
  | .str s text => Function.update mem s ((mem s).plangWritestrEndSstr text)

end Memory

end ShortString

end Runtime

end Plang
