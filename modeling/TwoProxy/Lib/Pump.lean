/-
# A pump: one direction of a relay

A pump receives a chunk, hands it to a write, and receives the next chunk when that write is
complete.  The write takes the chunk from its buffer piece by piece, whenever it likes.

`Balanced` is what holds between the stream received and the two streams on the other side,
the one transferred so far and the one whose writes are complete; every step keeps it.  A
relay that simulates one pump for each of its directions loses, duplicates and reorders
nothing.
-/
import TwoProxy.Lib.Run
import Mathlib.Data.List.TakeDrop

/-- The streams of one direction, the chunk being written, and how much of it has been
transferred. -/
structure Pump (α : Type) where
  received : List α
  transferred : List α
  completed : List α
  chunk : List α
  progress : Nat

namespace Pump

variable {α : Type}

/-- Before the first chunk. -/
def start : Pump α := ⟨[], [], [], [], 0⟩

/-- What can happen to a pump.  `chunk` is empty while a chunk is being waited for. -/
inductive Step : Pump α → Pump α → Prop
  | receive (p : Pump α) (xs : List α) (idle : p.chunk = []) :
      Step p { p with received := p.received ++ xs, chunk := xs, progress := 0 }
  | transfer (p : Pump α) (n : Nat) (le : p.progress + n ≤ p.chunk.length) :
      Step p { p with
        transferred := p.transferred ++ (p.chunk.drop p.progress).take n
        progress := p.progress + n }
  | complete (p : Pump α) (all : p.progress = p.chunk.length) :
      Step p { p with completed := p.transferred, chunk := [], progress := 0 }

/-- A step, by name. -/
inductive Event (α : Type)
  | receive (xs : List α)
  | transfer (n : Nat)
  | complete

/-- A pump that takes what happens one at a time, and no chunk or piece that is empty. -/
def take (p : Pump α) : Event α → Option (Pump α)
  | .receive xs =>
    if p.chunk.isEmpty && !xs.isEmpty then
      some { p with received := p.received ++ xs, chunk := xs, progress := 0 }
    else none
  | .transfer n =>
    if 0 < n ∧ p.progress + n ≤ p.chunk.length then
      some { p with
        transferred := p.transferred ++ (p.chunk.drop p.progress).take n
        progress := p.progress + n }
    else none
  | .complete =>
    if 0 < p.chunk.length ∧ p.progress = p.chunk.length then
      some { p with completed := p.transferred, chunk := [], progress := 0 }
    else none

theorem take_receive {p : Pump α} {xs : List α} (hidle : p.chunk = []) (hxs : 0 < xs.length) :
    p.take (.receive xs) =
      some { p with received := p.received ++ xs, chunk := xs, progress := 0 } := by
  have hne : xs ≠ [] := List.ne_nil_of_length_pos hxs
  rw [take, if_pos (by simp [hidle, hne])]

/-- What a pump takes is a step. -/
theorem Step.of_take {p q : Pump α} {e : Event α} (h : p.take e = some q) : Step p q := by
  cases e with
  | receive xs =>
    rw [take, Option.ite_none_right_eq_some] at h
    obtain ⟨hc, ⟨⟩⟩ := h
    simp only [Bool.and_eq_true, List.isEmpty_iff] at hc
    exact .receive p xs hc.1
  | transfer n =>
    rw [take, Option.ite_none_right_eq_some] at h
    obtain ⟨hc, ⟨⟩⟩ := h
    exact .transfer p n hc.2
  | complete =>
    rw [take, Option.ite_none_right_eq_some] at h
    obtain ⟨hc, ⟨⟩⟩ := h
    exact .complete p hc.2

/-- What has been received is what has been written and the chunk being written; what has
been transferred is what has been written and a part of that chunk. -/
structure Balanced (p : Pump α) : Prop where
  received : p.received = p.completed ++ p.chunk
  transferred : p.transferred = p.completed ++ p.chunk.take p.progress
  progress : p.progress ≤ p.chunk.length

theorem balanced_start : Balanced (start : Pump α) := ⟨rfl, rfl, Nat.le_refl _⟩

/-- **Every step keeps a pump balanced.** -/
theorem Step.balanced {p q : Pump α} (h : Step p q) (hp : Balanced p) : Balanced q := by
  obtain ⟨hreceived, htransferred, hprogress⟩ := hp
  cases h with
  | receive xs idle =>
    rw [idle, List.append_nil] at hreceived
    rw [idle, List.take_nil, List.append_nil] at htransferred
    exact ⟨by rw [hreceived], by simpa using htransferred, Nat.zero_le _⟩
  | transfer n le =>
    refine ⟨hreceived, ?_, le⟩
    rw [htransferred, List.append_assoc, List.take_add]
  | complete all =>
    rw [all, List.take_length] at htransferred
    refine ⟨?_, ?_, Nat.le_refl _⟩
    · rw [hreceived, htransferred, List.append_nil]
    · rw [List.take_nil, List.append_nil]

/-- **What has been written is a prefix of what has been received.** -/
theorem Balanced.completed_isPrefix {p : Pump α} (h : Balanced p) : p.completed <+: p.received :=
  ⟨p.chunk, h.received.symm⟩

/-- So is what has been transferred. -/
theorem Balanced.transferred_isPrefix {p : Pump α} (h : Balanced p) :
    p.transferred <+: p.received := by
  rw [h.received, h.transferred, List.prefix_append_right_inj]
  exact List.take_prefix _ _

/-- A pump that waits for a chunk has written everything. -/
theorem Balanced.of_idle {p : Pump α} (h : Balanced p) (hidle : p.chunk = []) :
    p.completed = p.received := by
  rw [h.received, hidle, List.append_nil]

/-- It has transferred everything, too. -/
theorem Balanced.transferred_of_idle {p : Pump α} (h : Balanced p) (hidle : p.chunk = []) :
    p.transferred = p.received := by
  rw [h.transferred, hidle, List.take_nil, List.append_nil, h.of_idle hidle]

/-- A pump without a chunk is balanced if its streams are the same. -/
theorem balanced_of_idle {p : Pump α} (hidle : p.chunk = []) (hprogress : p.progress = 0)
    (hc : p.completed = p.received) (ht : p.transferred = p.received) : Balanced p where
  received := by rw [hc, hidle, List.append_nil]
  transferred := by rw [hc, hidle, List.take_nil, List.append_nil, ht]
  progress := by rw [hprogress]; exact Nat.zero_le _

end Pump
