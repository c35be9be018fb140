import Mathlib

/-!
# Descriptors of the host

What `read`, `write` and `lseek` do to a regular file: a transfer may be short or fail, and moves
the position of the descriptor by the bytes that it has transferred.
-/

namespace Wbox.Host

/-- A regular file that is open: its bytes, and where the next transfer starts. -/
structure OpenFile where
  bytes : List UInt8
  pos : Nat
  deriving DecidableEq, Repr

namespace OpenFile

/-- The next bytes, at most so many. -/
def next (f : OpenFile) (n : Nat) : List UInt8 := (f.bytes.drop f.pos).take n

/-- The file at another position. -/
def seek (f : OpenFile) (pos : Nat) : OpenFile := { f with pos }

/-- The file with bytes stored at the position, which moves behind them. A gap between the end of
the file and the position reads as zeros. -/
def store (f : OpenFile) (data : List UInt8) : OpenFile :=
  if data = [] then f
  else
    { bytes := f.bytes.take f.pos ++ List.replicate (f.pos - f.bytes.length) 0 ++ data ++
        f.bytes.drop (f.pos + data.length)
      pos := f.pos + data.length }

theorem store_nil (f : OpenFile) : f.store [] = f := if_pos rfl

theorem store_pos (f : OpenFile) (data : List UInt8) :
    (f.store data).pos = f.pos + data.length := by
  unfold store
  split
  · next hnil =>
    rw [hnil]
    rfl
  · rfl

end OpenFile

/-- The calls of the host that transfer bytes. What they return and what they leave may depend on
anything: `none` and `false` stand for a call that fails. -/
structure HostIo (σ : Type) where
  malloc : UInt32 → σ → σ × Bool
  read : Int → UInt32 → σ → σ × Option (List UInt8)
  write : Int → List UInt8 → σ → σ × Option Nat
  /-- `lseek` with `SEEK_SET`. -/
  lseek : Int → UInt64 → σ → σ × Bool
  /-- The file that a descriptor stands for. -/
  file : Int → σ → OpenFile

/-- What POSIX says of a descriptor of a regular file that has been opened once. -/
structure HostIo.Posix {σ : Type} (io : HostIo σ) (fd : Int) : Prop where
  malloc : ∀ n h, io.file fd (io.malloc n h).1 = io.file fd h
  read_some : ∀ n h h' data, io.read fd n h = (h', some data) →
    data.length ≤ n.toNat ∧ data = (io.file fd h).next data.length ∧
      io.file fd h' = (io.file fd h).seek ((io.file fd h).pos + data.length) ∧
      (io.file fd h).pos + data.length < 2 ^ 63
  read_none : ∀ n h h', io.read fd n h = (h', none) → io.file fd h' = io.file fd h
  write_some : ∀ data h h' k, io.write fd data h = (h', some k) →
    k ≤ data.length ∧ io.file fd h' = (io.file fd h).store (data.take k)
  write_none : ∀ data h h', io.write fd data h = (h', none) → io.file fd h' = io.file fd h
  lseek_true : ∀ offset h h', io.lseek fd offset h = (h', true) →
    io.file fd h' = (io.file fd h).seek offset.toNat
  lseek_false : ∀ offset h h', io.lseek fd offset h = (h', false) → io.file fd h' = io.file fd h
  /-- A write to another descriptor that transfers nothing changes nothing. -/
  other : ∀ fd' data h h' r, fd' ≠ fd → io.write fd' data h = (h', r) → r.getD 0 = 0 →
    io.file fd h' = io.file fd h

end Wbox.Host
