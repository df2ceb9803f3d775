import NodeFuse.Reply
import NodeFuse.Lib.Runs

/-!
# The directory accumulator over many calls

`Reply::AddDirEntry` allocates its block for the size its first call asks for, and bounds what
libfuse may write by the size each call asks for. Here the calls are the steps of a machine, with
what is asked of each step for the writes to stay in the block.
-/

namespace NodeFuse.Reply

variable (V : Runtime) (D : DirentFormat) (rc : ℕ → ℤ)

/-- `size - acc`, as unsigned integers. -/
def room (size acc : ℕ) : ℕ := (size + 2 ^ 64 - acc) % 2 ^ 64

/-- The block that a call with this size writes into. -/
def blockFor (size : Num) (r : Reply) : List UInt8 :=
  r.dentryBuffer.getD (V.malloc (requestedSize V size))

def next (size : Num) (c : DirCall) (r : Reply) : Reply :=
  (addDirEntry V D rc (c.args size) r).2

def step (r : Reply) (x : Num × DirCall) : Option Reply := some (next V D rc x.1 x.2 r)

/-- The call stays in the block: its bound does not wrap, the space it gives libfuse for an entry
that fits lies in the block, and what is gathered then does too. -/
structure SafeCall (r : Reply) (x : Num × DirCall) : Prop where
  no_wrap : r.dentryAccSize ≤ requestedSize V x.1
  in_block : x.2.size ≤ room (requestedSize V x.1) r.dentryAccSize →
    r.dentryAccSize + room (requestedSize V x.1) r.dentryAccSize ≤ (blockFor V x.1 r).length
  acc_le : (next V D rc x.1 x.2 r).dentryAccSize ≤ (blockFor V x.1 r).length

/-- The size a call asks for, and that of its entry. -/
def request (x : Num × DirCall) : ℕ × ℕ := (requestedSize V x.1, x.2.size)

/-! ## With one size -/

/-- The call returns a number. -/
def accepts (size : Num) (c : DirCall) (r : Reply) : Bool :=
  (addDirEntry V D rc (c.args size) r).1.toOption.any Value.isNumber

/-- The calls that returned a number. -/
def accepted (size : Num) : List DirCall → Reply → List DirCall
  | [], _ => []
  | c :: cs, r =>
    (if accepts V D rc size c r then [c] else []) ++ accepted size cs (next V D rc size c r)

/-- The bytes gathered. -/
def gatheredBytes (r : Reply) : List UInt8 := (r.dentryBuffer.getD []).take r.dentryAccSize

/-- What a `Reply` says of the entries it has accepted in a space of `cap` bytes. -/
structure Accumulated (cap : ℕ) (cs : List DirCall) (r : Reply) : Prop where
  cur : r.dentryCurLength = cs.length
  acc : r.dentryAccSize = Packing.total DirCall.size cs
  aligned : 8 ∣ r.dentryAccSize
  within : r.dentryAccSize ≤ cap
  bytes : gatheredBytes r = cs.flatMap (·.encoding V D)

end NodeFuse.Reply
