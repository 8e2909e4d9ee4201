/-
# `BasicMessage` as a value type

The getters of a message show a header list and four byte strings, which is a `Record`.  Every
member of the class does to it what it would do to a plain record, except that the copy
constructor has `method_()` in its initialiser list, and that `operator=`, which takes its
argument by value and swaps, hands on what the copy constructor made.  So the programs in which
a message cannot be told from a record are those that copy and assign only from messages whose
method is empty (`value_type_iff`).
-/
import TwoProxy.Message
import TwoProxy.Lib.Objects

namespace TwoProxy

open Transition
open Objects (Members Statement)

/-- A plain record. -/
structure Record where
  headers : List (Bytes × Bytes)
  method : Bytes
  body : Bytes
  source : Bytes
  destination : Bytes
  deriving DecidableEq

/-- A call of a setter. -/
inductive Setter
  | Headers (headers : List (Bytes × Bytes))
  | AddHeader (pair : Bytes × Bytes)
  | Method (method : Bytes)
  | Body (body : Bytes)
  | Source (source : Bytes)
  | Destination (destination : Bytes)

/-- What a setter does to a record. -/
def Record.call : Setter → Record → Record
  | .Headers headers, r => { r with headers := headers }
  | .AddHeader pair, r => { r with headers := r.headers ++ [pair] }
  | .Method method, r => { r with method := method }
  | .Body body, r => { r with body := body }
  | .Source source, r => { r with source := source }
  | .Destination destination, r => { r with destination := destination }

/-- The default constructor leaves every field empty. -/
def Record.default : Record := ⟨[], [], [], [], []⟩

namespace BasicMessage

/-- What the getters return. -/
def getters (m : BasicMessage) : Record where
  headers := m.headers_
  method := m.method_
  body := m.body_
  source := m.source_
  destination := m.destination_

/-- The setters of the class. -/
def call : Setter → BasicMessage → BasicMessage
  | .Headers headers, m => m.setHeaders headers
  | .AddHeader pair, m => m.AddHeader pair
  | .Method method, m => m.setMethod method
  | .Body body, m => m.setBody body
  | .Source source, m => m.setSource source
  | .Destination destination, m => m.setDestination destination

/-- The members of the class. -/
def members : Members BasicMessage Setter where
  default := empty
  copy := copy
  assign := assign
  swap := swap
  call := call

/-- **All members but one are those of a record**, and assignment does what copying does. -/
theorem members_faithful : Objects.Faithful members getters Record.default Record.call where
  default := rfl
  call setter m := by cases setter <;> rfl
  swap _ _ := ⟨rfl, rfl⟩
  assign _ _ := rfl

/-- The copy constructor copies a message whose method is empty. -/
theorem getters_copy_iff (m : BasicMessage) : m.copy.getters = m.getters ↔ m.method_ = [] := by
  simp only [getters, copy, Record.mk.injEq, true_and, and_true]
  exact eq_comm

/-- One statement of a program on messages and, beside them, on records. -/
abbrev besideRecords : List BasicMessage × List Record → Statement Record Setter →
    Option (List BasicMessage × List Record) :=
  Objects.beside members getters (Objects.plain Record.default Record.call)

/-- The messages show what the records hold. -/
def LikeRecords (s : List BasicMessage × List Record) : Prop := s.1.map getters = s.2

/-- A copy or an assignment is from a message whose method is empty. -/
def CopiesNoMethod (s : List BasicMessage × List Record) : Statement Record Setter → Prop
  | .copyOf i => ∀ m ∈ s.1[i]?, m.method_ = []
  | .assign _ j => ∀ m ∈ s.1[j]?, m.method_ = []
  | _ => True

theorem copiesWell_iff (s : List BasicMessage × List Record) (c : Statement Record Setter) :
    Objects.CopiesWell members getters s c ↔ CopiesNoMethod s c := by
  cases c with
  | copyOf i => exact forall₂_congr fun m _ => getters_copy_iff m
  | assign i j => exact forall₂_congr fun m _ => getters_copy_iff m
  | construct => exact Iff.rfl
  | swap i j => exact Iff.rfl
  | call i setter => exact Iff.rfl

/-- **When messages are values.**  A program that starts without messages goes only through
states in which every getter of every message returns what a plain record would exactly if each
copy and each assignment in it is from a message whose method is empty at that point. -/
theorem value_type_iff (program : List (Statement Record Setter))
    (s : List BasicMessage × List Record) (h : Run besideRecords ([], []) program s) :
    EveryState besideRecords LikeRecords ([], []) program ↔
      EveryStep besideRecords CopiesNoMethod ([], []) program := by
  have hvalues := Objects.agree_iff members_faithful (s := ([], [])) rfl h
  have hcopies : EveryStep besideRecords (Objects.CopiesWell members getters) ([], []) program ↔
      EveryStep besideRecords CopiesNoMethod ([], []) program :=
    everyStep_congr (I := fun _ => True) (fun _ _ _ _ _ => trivial)
      (fun s c _ _ _ => copiesWell_iff s c) h trivial
  exact hvalues.trans hcopies

/-- Construct a message, set its method and copy it. -/
def copyOfGet : List (Statement Record Setter) :=
  [.construct, .call 0 (fun _ => .Method (ascii "GET")), .copyOf 0]

theorem value_type_iff_copyOfGet :
    EveryState besideRecords LikeRecords ([], []) copyOfGet ↔
      EveryStep besideRecords CopiesNoMethod ([], []) copyOfGet :=
  value_type_iff copyOfGet (follow besideRecords ([], []) copyOfGet) (run_follow (by decide))

/-- **A copy has no method.** -/
theorem copyOfGet_loses_method :
    ¬ EveryState besideRecords LikeRecords ([], []) copyOfGet := by
  intro h
  have hrun : Run besideRecords ([], []) copyOfGet
      (follow besideRecords ([], []) copyOfGet) := run_follow (by decide)
  have hlike := h _ _ (List.prefix_refl _) hrun
  revert hlike
  unfold LikeRecords
  decide

end BasicMessage

end TwoProxy
