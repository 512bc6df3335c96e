import Mathlib

/-!
# Byte strings behind their lengths

A header writes lengths below a bound in a fixed number of bytes and tells any
two of them apart.  Behind its header, a byte string ends where the header
says, so a concatenation of such fields is read back in one way only.
-/

/-- A way to write lengths below a bound in a fixed number of bytes. -/
structure LengthHeader where
  write : Nat → List UInt8
  width : Nat
  bound : Nat
  length_write : ∀ length, (write length).length = width
  injective : ∀ left right, left < bound → right < bound →
    write left = write right → left = right

namespace LengthHeader

variable (header : LengthHeader)

/-- A byte string behind its length. -/
def frame (bytes : List UInt8) : List UInt8 :=
  header.write bytes.length ++ bytes

variable {header}

theorem frame_append_inj {left right leftRest rightRest : List UInt8}
    (leftShort : left.length < header.bound)
    (rightShort : right.length < header.bound)
    (same : header.frame left ++ leftRest =
      header.frame right ++ rightRest) :
    left = right ∧ leftRest = rightRest := by
  rw [frame, frame, List.append_assoc, List.append_assoc] at same
  have widths : (header.write left.length).length =
      (header.write right.length).length := by
    rw [header.length_write, header.length_write]
  obtain ⟨headers, bodies⟩ := List.append_inj same widths
  have lengths := header.injective _ _ leftShort rightShort headers
  exact List.append_inj bodies lengths

theorem flatMap_frame_inj {left right : List (List UInt8)}
    (leftShort : ∀ field ∈ left, field.length < header.bound)
    (rightShort : ∀ field ∈ right, field.length < header.bound)
    (count : left.length = right.length)
    (same : left.flatMap header.frame = right.flatMap header.frame) :
    left = right := by
  induction left generalizing right with
  | nil => exact (List.length_eq_zero_iff.mp count.symm).symm
  | cons first left induction =>
      cases right with
      | nil => cases count
      | cons other right =>
          rw [List.flatMap_cons, List.flatMap_cons] at same
          obtain ⟨rfl, rest⟩ := frame_append_inj
            (leftShort first List.mem_cons_self)
            (rightShort other List.mem_cons_self) same
          rw [induction
            (fun field member => leftShort field
              (List.mem_cons_of_mem _ member))
            (fun field member => rightShort field
              (List.mem_cons_of_mem _ member))
            (Nat.succ.inj count) rest]

end LengthHeader

theorem List.flatMap_injective_of_length {Item Image : Type}
    {image : Item → List Image} {width : Nat}
    (length : ∀ item, (image item).length = width) (positive : 0 < width)
    (injective : Function.Injective image) :
    Function.Injective fun items : List Item => items.flatMap image := by
  intro left right same
  dsimp only at same
  induction left generalizing right with
  | nil =>
      cases right with
      | nil => rfl
      | cons other right =>
          have empty := congrArg List.length same
          rw [List.flatMap_cons, List.length_append, length] at empty
          simp only [List.flatMap_nil, List.length_nil] at empty
          omega
  | cons first left induction =>
      cases right with
      | nil =>
          have empty := congrArg List.length same
          rw [List.flatMap_cons, List.length_append, length] at empty
          simp only [List.flatMap_nil, List.length_nil] at empty
          omega
      | cons other right =>
          rw [List.flatMap_cons, List.flatMap_cons] at same
          obtain ⟨here, rest⟩ := List.append_inj same
            ((length first).trans (length other).symm)
          rw [injective here, induction rest]
