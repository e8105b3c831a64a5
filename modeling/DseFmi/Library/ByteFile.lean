import Mathlib.Data.List.Basic

/-!
# Files with a position

Writing replaces everything from the position on. What others append stands behind it.
-/

namespace DseFmi.Library

structure ByteFile (α : Type) where
  content : List α
  pos : Nat
  pos_le : pos ≤ content.length

namespace ByteFile

variable {α : Type}

/-- A position behind the end is the end. -/
def seek (f : ByteFile α) (pos : Nat) : ByteFile α :=
  ⟨f.content, min pos f.content.length, Nat.min_le_right _ _⟩

def rest (f : ByteFile α) : List α := f.content.drop f.pos

def write (f : ByteFile α) (data : List α) : ByteFile α where
  content := f.content.take f.pos ++ data
  pos := f.pos + data.length
  pos_le := by simp [f.pos_le]

def append (f : ByteFile α) (data : List α) : ByteFile α where
  content := f.content ++ data
  pos := f.pos
  pos_le := by
    rw [List.length_append]
    exact Nat.le_add_right_of_le f.pos_le

def empty : ByteFile α := ⟨[], 0, Nat.le_refl 0⟩

def eof (f : ByteFile α) : Bool := f.pos = f.content.length

@[ext] theorem ext {f g : ByteFile α} (content : f.content = g.content) (pos : f.pos = g.pos) :
    f = g := by
  cases f
  cases g
  cases content
  cases pos
  rfl

theorem pos_write (f : ByteFile α) (data : List α) :
    (f.write data).pos = (f.write data).content.length := by
  simp [write, f.pos_le]

end ByteFile

end DseFmi.Library
