import DenseSystem.Proofs.Guarded.Basic

/-! # Growing buffers

A buffer of doubles has room for a number of entries and moves to a larger place when it is full. A
place of more bytes than a signed word counts is not to be had, and asking for it aborts a program.
The room that is set aside at first decides about that, and about nothing else.
-/
namespace DenseSystem.Guarded

/-- A double has eight bytes. -/
def Allocatable (entries : ℕ) : Prop := 8 * entries < 2 ^ 63

instance (entries : ℕ) : Decidable (Allocatable entries) := inferInstanceAs (Decidable (_ < _))

def allocate (entries : ℕ) : Guarded Unit := require (Allocatable entries) (.capacity entries)

structure Buffer where
  data : Array Float
  room : ℕ
  fits : data.size ≤ room

namespace Buffer

def withRoom (room : ℕ) : Guarded Buffer := do
  allocate room
  return ⟨#[], room, Nat.zero_le room⟩

/-- Doubled, and enough for four entries at least. -/
def grown (room : ℕ) : ℕ := max 4 (2 * room)

theorem lt_grown (room : ℕ) : room < grown room := by
  unfold grown
  omega

def push (buffer : Buffer) (x : Float) : Guarded Buffer :=
  if hfull : buffer.data.size = buffer.room then do
    allocate (grown buffer.room)
    return ⟨buffer.data.push x, grown buffer.room, by
      rw [Array.size_push, hfull]
      exact lt_grown buffer.room⟩
  else
    return ⟨buffer.data.push x, buffer.room, by
      rw [Array.size_push]
      exact Nat.lt_of_le_of_ne buffer.fits hfull⟩

/-- The room after `count` entries have been pushed into a buffer that had none. -/
def roomAfter (room : ℕ) : ℕ → ℕ
  | 0 => room
  | count + 1 =>
    if count = roomAfter room count then grown (roomAfter room count) else roomAfter room count

theorem le_roomAfter (room count : ℕ) : count ≤ roomAfter room count := by
  induction count with
  | zero => exact Nat.zero_le room
  | succ count ih =>
    rw [roomAfter]
    split_ifs with hfull
    · exact (congrArg (· + 1) hfull).trans_le (lt_grown _)
    · exact Nat.lt_of_le_of_ne ih hfull

/-- The buffer that holds some entries after it had room for `room` entries at first. -/
def holding (room : ℕ) (data : Array Float) : Buffer :=
  ⟨data, roomAfter room data.size, le_roomAfter room data.size⟩

theorem withRoom_eq {room : ℕ} (h : Allocatable room) : withRoom room = .ok (holding room #[]) := by
  rw [withRoom, allocate, require_of h]
  rfl

/-- Half of what can be allocated is never too much, even if the buffer has to grow. -/
theorem push_holding (room : ℕ) {data : Array Float} (x : Float) (h : data.size < 2 ^ 59) :
    (holding room data).push x = .ok (holding room (data.push x)) := by
  have hroom : roomAfter room (data.push x).size =
      if data.size = roomAfter room data.size then grown (roomAfter room data.size)
      else roomAfter room data.size := by
    rw [Array.size_push, roomAfter]
  rw [push]
  split_ifs with hfull
  · have hfull' : data.size = roomAfter room data.size := hfull
    have hgrown : Allocatable (grown (holding room data).room) := by
      rw [← hfull, Allocatable, grown]
      change 8 * max 4 (2 * data.size) < 2 ^ 63
      omega
    rw [allocate, require_of hgrown, ok_bind]
    rw [if_pos hfull'] at hroom
    simp only [holding, hroom]
    rfl
  · have hfull' : ¬ data.size = roomAfter room data.size := hfull
    rw [if_neg hfull'] at hroom
    simp only [holding, hroom]
    rfl

end Buffer

end DenseSystem.Guarded
