/-
The robust I/O package of `csapp.c` over a kernel that answers each `read` and `write`
as it likes: with any part of what was asked for, with nothing, with an interruption or
with an error.

The answers still to come are a list. A call that has used them all up is still waiting,
so what is proved about calls that return holds under every behaviour of the kernel. A call
whose `int` counter would pass `INT_MAX` does not return in the model either: C leaves open
what it does.
-/

import Mathlib.Data.List.Infix
import OsCompiler.Csapp.Sbuf

namespace OsCompiler.Rio

open OsCompiler.Sbuf (INT_MAX)

abbrev Byte := UInt8

/-- How the kernel answers one call: it moves at most `short + 1` bytes, moves nothing and
returns 0, returns -1 with `EINTR`, or returns -1 with another error. -/
inductive Answer
  | moves (short : Nat)
  | nothing
  | interrupted
  | failed
  deriving DecidableEq

def RIO_BUFSIZE : Nat := 8192

structure RioT where
  rio_cnt : Int
  rio_bufptr : Nat
  rio_buf : List Byte

/-- A read buffer, the bytes of its descriptor not read yet and the answers to come. -/
structure Reader where
  rio : RioT
  input : List Byte
  answers : List Answer

/-- `rio_readinitb` leaves the contents of the buffer as they are. -/
def rioReadinitb (rio_buf : List Byte) (input : List Byte) (answers : List Answer) : Reader :=
  ⟨⟨0, 0, rio_buf⟩, input, answers⟩

/-- What `rio_read` returns: the bytes it has copied, none of them at an end of file, or -1. -/
inductive ReadResult
  | bytes (chunk : List Byte)
  | error
  deriving DecidableEq

def RioT.copyOut (rio : RioT) (n : Nat) : List Byte × RioT :=
  let cnt := if rio.rio_cnt < n then rio.rio_cnt else n
  ((rio.rio_buf.drop rio.rio_bufptr).take cnt.toNat,
    { rio with rio_bufptr := rio.rio_bufptr + cnt.toNat, rio_cnt := rio.rio_cnt - cnt })

def rioRefill (n : Nat) (rio : RioT) (input : List Byte) :
    List Answer → Option (ReadResult × Reader)
  | [] => none
  | .moves short :: answers =>
      let chunk := input.take (min RIO_BUFSIZE (short + 1))
      if chunk = [] then
        some (.bytes [], ⟨{ rio with rio_cnt := 0 }, input, answers⟩)
      else
        let filled : RioT := ⟨chunk.length, 0, chunk ++ rio.rio_buf.drop chunk.length⟩
        let copied := filled.copyOut n
        some (.bytes copied.1, ⟨copied.2, input.drop chunk.length, answers⟩)
  | .nothing :: answers => some (.bytes [], ⟨{ rio with rio_cnt := 0 }, input, answers⟩)
  | .interrupted :: answers => rioRefill n { rio with rio_cnt := -1 } input answers
  | .failed :: answers => some (.error, ⟨{ rio with rio_cnt := -1 }, input, answers⟩)

def rioRead (reader : Reader) (n : Nat) : Option (ReadResult × Reader) :=
  if 0 < reader.rio.rio_cnt then
    let copied := reader.rio.copyOut n
    some (.bytes copied.1, { reader with rio := copied.2 })
  else
    rioRefill n reader.rio reader.input reader.answers

/-- What a call leaves to its caller: the value returned, the bytes stored in `usrbuf` and
whether a terminating 0 stands behind them. -/
@[ext]
structure Delivery where
  ret : Int
  data : List Byte
  terminated : Bool
  deriving DecidableEq

def rioReadnbLoop (n nleft : Nat) (data : List Byte) (reader : Reader) :
    Option (Delivery × Reader) :=
  if nleft = 0 then some (⟨n - nleft, data, false⟩, reader)
  else
    match rioRead reader nleft with
    | none => none
    | some (.error, reader) => some (⟨-1, data, false⟩, reader)
    | some (.bytes [], reader) => some (⟨n - nleft, data, false⟩, reader)
    | some (.bytes (byte :: more), reader) =>
        rioReadnbLoop n (nleft - (more.length + 1)) (data ++ byte :: more) reader
termination_by nleft

def rioReadnb (reader : Reader) (n : Nat) : Option (Delivery × Reader) :=
  rioReadnbLoop n n [] reader

/-- `turns` is what is left of `for (n = 1; n < maxlen; n++)`. Either `n++` is undefined for
the largest `int`. -/
def rioReadlinebLoop : (turns n : Nat) → List Byte → Reader → Option (Delivery × Reader)
  | 0, n, data, reader => some (⟨n - 1, data, true⟩, reader)
  | turns + 1, n, data, reader =>
      match rioRead reader 1 with
      | none => none
      | some (.error, reader) => some (⟨-1, data, false⟩, reader)
      | some (.bytes [], reader) =>
          if n = 1 then some (⟨0, data, false⟩, reader)
          else some (⟨n - 1, data, true⟩, reader)
      | some (.bytes (c :: _), reader) =>
          if INT_MAX ≤ n then none
          else if c = 10 then some (⟨(n + 1 : Nat) - 1, data ++ [c], true⟩, reader)
          else rioReadlinebLoop turns (n + 1) (data ++ [c]) reader

def rioReadlineb (reader : Reader) (maxlen : Nat) : Option (Delivery × Reader) :=
  rioReadlinebLoop (maxlen - 1) 1 [] reader

/-! ### The unbuffered functions -/

/-- A descriptor that is read without a buffer. -/
structure Source where
  input : List Byte
  answers : List Answer

def rioReadnLoop (n nleft : Nat) (data : List Byte) (input : List Byte) :
    List Answer → Option (Delivery × Source)
  | [] =>
      if nleft = 0 then some (⟨n - nleft, data, false⟩, ⟨input, []⟩) else none
  | answer :: answers =>
      if nleft = 0 then some (⟨n - nleft, data, false⟩, ⟨input, answer :: answers⟩)
      else
        match answer with
        | .moves short =>
            let chunk := input.take (min nleft (short + 1))
            if chunk = [] then some (⟨n - nleft, data, false⟩, ⟨input, answers⟩)
            else rioReadnLoop n (nleft - chunk.length) (data ++ chunk)
              (input.drop chunk.length) answers
        | .nothing => some (⟨n - nleft, data, false⟩, ⟨input, answers⟩)
        | .interrupted => rioReadnLoop n nleft data input answers
        | .failed => some (⟨-1, data, false⟩, ⟨input, answers⟩)

def rioReadn (source : Source) (n : Nat) : Option (Delivery × Source) :=
  rioReadnLoop n n [] source.input source.answers

/-- A descriptor that is written. `eintr` tells whether `errno` is `EINTR` just now: a call
that succeeds leaves `errno` as it is. -/
structure Sink where
  output : List Byte
  eintr : Bool
  answers : List Answer

/-- `write` returning 0 is taken for an error or an interruption by what `errno` was before. -/
def rioWritenLoop (n : Nat) (left : List Byte) (output : List Byte) (eintr : Bool) :
    List Answer → Option (Int × Sink)
  | [] => if left = [] then some (n, ⟨output, eintr, []⟩) else none
  | answer :: answers =>
      if left = [] then some (n, ⟨output, eintr, answer :: answers⟩)
      else
        match answer with
        | .moves short =>
            let nwritten := min left.length (short + 1)
            rioWritenLoop n (left.drop nwritten) (output ++ left.take nwritten) eintr answers
        | .nothing =>
            if eintr then rioWritenLoop n left output eintr answers
            else some (-1, ⟨output, eintr, answers⟩)
        | .interrupted => rioWritenLoop n left output true answers
        | .failed => some (-1, ⟨output, false, answers⟩)

def rioWriten (sink : Sink) (usrbuf : List Byte) : Option (Int × Sink) :=
  rioWritenLoop usrbuf.length usrbuf sink.output sink.eintr sink.answers

/-! ### Any mix of buffered calls -/

inductive Call
  | readnb (n : Nat)
  | readlineb (maxlen : Nat)
  deriving DecidableEq

def Reader.call (reader : Reader) : Call → Option (Delivery × Reader)
  | .readnb n => rioReadnb reader n
  | .readlineb maxlen => rioReadlineb reader maxlen

def runCalls (reader : Reader) : List Call → Option (List Delivery × Reader)
  | [] => some ([], reader)
  | call :: calls =>
      (reader.call call).bind fun one =>
        (runCalls one.2 calls).map fun rest => (one.1 :: rest.1, rest.2)

/-! ### What the buffer holds -/

structure RioT.Sound (rio : RioT) : Prop where
  size : rio.rio_buf.length = RIO_BUFSIZE
  within : rio.rio_bufptr + rio.rio_cnt.toNat ≤ RIO_BUFSIZE

def RioT.unread (rio : RioT) : List Byte := (rio.rio_buf.drop rio.rio_bufptr).take rio.rio_cnt.toNat

def Reader.stream (reader : Reader) : List Byte := reader.rio.unread ++ reader.input

theorem RioT.unread_empty {rio : RioT} (empty : rio.rio_cnt ≤ 0) : rio.unread = [] := by
  rw [unread, Int.toNat_of_nonpos empty, List.take_zero]

theorem RioT.Sound.length_unread {rio : RioT} (sound : rio.Sound) :
    rio.unread.length = rio.rio_cnt.toNat := by
  have size := sound.size
  have within := sound.within
  rw [unread, List.length_take, List.length_drop]
  omega

theorem RioT.Sound.emptied {rio : RioT} (sound : rio.Sound) {cnt : Int} (empty : cnt ≤ 0) :
    ({ rio with rio_cnt := cnt } : RioT).Sound where
  size := sound.size
  within := by
    have within := sound.within
    dsimp only
    rw [Int.toNat_of_nonpos empty]
    omega

theorem RioT.Sound.copyOut {rio : RioT} (sound : rio.Sound) (filled : 0 < rio.rio_cnt) (n : Nat) :
    (rio.copyOut n).2.Sound ∧ (rio.copyOut n).1 = rio.unread.take n ∧
      (rio.copyOut n).1 ++ (rio.copyOut n).2.unread = rio.unread := by
  have size := sound.size
  have within := sound.within
  -- What is copied is the beginning of what is unread.
  obtain ⟨cnt, taken, smaller, least⟩ : ∃ cnt : Nat,
      (if rio.rio_cnt < n then rio.rio_cnt else (n : Int)) = cnt ∧ cnt ≤ rio.rio_cnt.toNat ∧
        cnt = min n rio.rio_cnt.toNat := by
    by_cases short : rio.rio_cnt < n
    · exact ⟨rio.rio_cnt.toNat, by rw [if_pos short]; omega, Nat.le_refl _, by omega⟩
    · exact ⟨n, if_neg short, by omega, by omega⟩
  have remaining : (rio.rio_cnt - cnt).toNat = rio.rio_cnt.toNat - cnt := by omega
  simp only [RioT.copyOut, RioT.unread, taken, Int.toNat_natCast, remaining]
  refine ⟨⟨size, ?_⟩, ?_, ?_⟩
  · dsimp only
    rw [remaining]
    omega
  · rw [List.take_take, least]
  · rw [← List.drop_drop, ← List.take_add]
    congr 1
    omega

/-- The buffer just after it was filled from the descriptor. -/
theorem sound_filled {chunk rio_buf : List Byte} (size : rio_buf.length = RIO_BUFSIZE)
    (fits : chunk.length ≤ RIO_BUFSIZE) :
    (RioT.mk chunk.length 0 (chunk ++ rio_buf.drop chunk.length)).Sound ∧
      (RioT.mk chunk.length 0 (chunk ++ rio_buf.drop chunk.length)).unread = chunk := by
  refine ⟨⟨?_, ?_⟩, ?_⟩
  · dsimp only
    rw [List.length_append, List.length_drop]
    omega
  · simpa using fits
  · simp [RioT.unread]

end OsCompiler.Rio
