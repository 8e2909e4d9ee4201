/-
# `BasicMessage`

`HttpProtocol/message.h`: a header list and four byte strings, all `mutable`, so that the
setters are `const` members.  `HttpConnection` uses the method and the destination.

`RemoveHeader` calls `std::remove_if` and drops the iterator it returns, so that nothing is
erased: it removes the named headers exactly when there are none (`RemoveHeader_removes_iff`).
-/
import TwoProxy.Bytes

namespace TwoProxy

structure BasicMessage where
  headers_ : List (Bytes × Bytes)
  method_ : Bytes
  body_ : Bytes
  source_ : Bytes
  destination_ : Bytes
  deriving DecidableEq

namespace BasicMessage

/-- The default constructor. -/
def empty : BasicMessage := ⟨[], [], [], [], []⟩

/-- The copy constructor; its initialiser list has `method_()`. -/
def copy (other : BasicMessage) : BasicMessage where
  headers_ := other.headers_
  method_ := []
  body_ := other.body_
  source_ := other.source_
  destination_ := other.destination_

/-- `m.swap(other)`: what becomes of `m`, and of `other`. -/
def swap (m other : BasicMessage) : BasicMessage × BasicMessage :=
  (⟨other.headers_, other.method_, other.body_, other.source_, other.destination_⟩,
    ⟨m.headers_, m.method_, m.body_, m.source_, m.destination_⟩)

/-- `operator=`, whose argument is a copy: `rhs.swap(*this)`. -/
def assign (m rhs : BasicMessage) : BasicMessage := (rhs.copy.swap m).2

def setHeaders (m : BasicMessage) (headers : List (Bytes × Bytes)) : BasicMessage :=
  { m with headers_ := headers }

def AddHeader (m : BasicMessage) (pair : Bytes × Bytes) : BasicMessage :=
  { m with headers_ := m.headers_ ++ [pair] }

def setMethod (m : BasicMessage) (method : Bytes) : BasicMessage := { m with method_ := method }

def setBody (m : BasicMessage) (body : Bytes) : BasicMessage := { m with body_ := body }

def setSource (m : BasicMessage) (source : Bytes) : BasicMessage := { m with source_ := source }

def setDestination (m : BasicMessage) (destination : Bytes) : BasicMessage :=
  { m with destination_ := destination }

@[simp] theorem setMethod_method (m : BasicMessage) (b : Bytes) : (m.setMethod b).method_ = b := rfl

@[simp] theorem setMethod_destination (m : BasicMessage) (b : Bytes) :
    (m.setMethod b).destination_ = m.destination_ := rfl

@[simp] theorem setDestination_method (m : BasicMessage) (b : Bytes) :
    (m.setDestination b).method_ = m.method_ := rfl

@[simp] theorem setDestination_destination (m : BasicMessage) (b : Bytes) :
    (m.setDestination b).destination_ = b := rfl

/-! ## 1. `RemoveHeader` -/

/-- `std::remove_if`: the elements that are kept, in their order, and behind them as many as
were to go, in a state that the standard leaves open.  The container keeps its size. -/
def remove_if {α : Type} (leftover : Nat → α) (pred : α → Bool) (xs : List α) : List α :=
  xs.filter (fun x => !pred x) ++ (List.range (xs.countP pred)).map leftover

/-- The iterator that `std::remove_if` returns is dropped.  `leftover` is what stands behind
it. -/
def RemoveHeader (leftover : Nat → Bytes × Bytes) (m : BasicMessage) (key : Bytes) :
    BasicMessage :=
  { m with headers_ := remove_if leftover (fun header => header.1 == key) m.headers_ }

theorem remove_if_length {α : Type} (leftover : Nat → α) (pred : α → Bool) (xs : List α) :
    (remove_if leftover pred xs).length = xs.length := by
  have hkept : (xs.filter fun x => !pred x).length = xs.countP (fun x => !pred x) :=
    (List.countP_eq_length_filter).symm
  have htotal := List.length_eq_countP_add_countP pred (l := xs)
  simp only [Bool.not_eq_true, Bool.decide_eq_false] at htotal
  unfold remove_if
  rw [List.length_append, List.length_map, List.length_range, hkept]
  omega

/-- With nothing to remove, nothing is changed. -/
theorem remove_if_of_none {α : Type} (leftover : Nat → α) {pred : α → Bool} {xs : List α}
    (h : ∀ x ∈ xs, pred x = false) : remove_if leftover pred xs = xs := by
  have hcount : xs.countP pred = 0 := by
    rw [List.countP_eq_zero]
    exact fun x hx => by simp [h x hx]
  rw [remove_if, hcount, List.filter_eq_self.mpr (fun x hx => by simp [h x hx])]
  simp

/-- What `RemoveHeader` is for. -/
structure RemovesHeader (leftover : Nat → Bytes × Bytes) (m : BasicMessage) (key : Bytes) :
    Prop where
  headers : (RemoveHeader leftover m key).headers_ = m.headers_.filter fun h => !(h.1 == key)
  length : (RemoveHeader leftover m key).headers_.length + m.headers_.countP (fun h => h.1 == key)
    = m.headers_.length
  method : (RemoveHeader leftover m key).method_ = m.method_
  body : (RemoveHeader leftover m key).body_ = m.body_
  source : (RemoveHeader leftover m key).source_ = m.source_
  destination : (RemoveHeader leftover m key).destination_ = m.destination_

/-- **When `RemoveHeader` removes the named headers**: when no header has that name.  The list
keeps its length, whatever the standard library leaves at its end. -/
theorem RemoveHeader_removes_iff (leftover : Nat → Bytes × Bytes) (m : BasicMessage)
    (key : Bytes) : RemovesHeader leftover m key ↔ ∀ h ∈ m.headers_, h.1 ≠ key := by
  constructor
  · intro hremoves
    have hlength := hremoves.length
    rw [RemoveHeader, remove_if_length] at hlength
    have hcount : m.headers_.countP (fun h => h.1 == key) = 0 := by omega
    rw [List.countP_eq_zero] at hcount
    exact fun h hh heq => hcount h hh (by simp [heq])
  · intro hnone
    have hfalse : ∀ h ∈ m.headers_, (h.1 == key) = false := fun h hh => by simp [hnone h hh]
    have hsame : (RemoveHeader leftover m key).headers_ = m.headers_ :=
      remove_if_of_none leftover hfalse
    have hcount : m.headers_.countP (fun h => h.1 == key) = 0 := by
      rw [List.countP_eq_zero]
      exact fun h hh => by simp [hfalse h hh]
    exact
      { headers := by
          rw [hsame, List.filter_eq_self.mpr (fun h hh => by simp [hfalse h hh])]
        length := by rw [hsame, hcount, Nat.add_zero]
        method := rfl
        body := rfl
        source := rfl
        destination := rfl }

/-- A message with one header. -/
def oneHeader : BasicMessage := empty.AddHeader (ascii "Connection", ascii "close")

/-- **The removed header stays**, as it was if the library does not touch it. -/
theorem oneHeader_kept :
    (RemoveHeader (fun _ => (ascii "Connection", ascii "close")) oneHeader
        (ascii "Connection")).headers_ = oneHeader.headers_ ∧
      ¬ RemovesHeader (fun _ => (ascii "Connection", ascii "close")) oneHeader
        (ascii "Connection") := by
  refine ⟨by decide, fun h => ?_⟩
  have hheaders := h.headers
  revert hheaders
  decide

end BasicMessage

end TwoProxy
