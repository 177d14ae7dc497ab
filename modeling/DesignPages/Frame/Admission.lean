import DesignPages.Frame.Basic

/-!
# Admitting frames

This module decides frame by frame which of them become components and under which names.  The
ledger of one compilation counts the names given out for every category and what became of the
frames.
-/

namespace DesignPages

/-- What became of the frames of a compilation. -/
structure Diagnostics where
  totalFrames : Nat
  generatedComponents : Nat
  /-- The frames that only hold other frames together. -/
  skippedFrames : Nat
  /-- The frames of a category that was taken already. -/
  rejectedDuplicates : Nat
  deriving DecidableEq, Repr

/-- The decision about a frame. -/
inductive Admission where
  | admitted (name : String)
  | container
  | duplicate (category : Category)
  deriving DecidableEq, Repr

/-- The names given out for every category, and what became of the frames so far. -/
structure Ledger where
  counts : Category → Nat
  diagnostics : Diagnostics

namespace Ledger

/-- The ledger at the start of a compilation. -/
def empty : Ledger :=
  ⟨fun _ => 0, ⟨0, 0, 0, 0⟩⟩

/-- How many names were given out for a category. -/
def count (l : Ledger) (c : Category) : Nat :=
  l.counts c

/-- The name of the component of a category with the given number: the label alone for the first,
followed by the number for every other. -/
def nameOf (c : Category) (number : Nat) : String :=
  if number ≤ 1 then c.label else c.label ++ toString number

/-- Gives out the next name of a category. -/
def nextName (l : Ledger) (c : Category) : String × Ledger :=
  let number := l.count c + 1
  (nameOf c number, { l with counts := fun d => if d = c then number else l.counts d })

/-- Counts a frame that was marked to be skipped. -/
def skip (l : Ledger) : Admission × Ledger :=
  let d := l.diagnostics
  (.container,
    { l with diagnostics :=
        { d with totalFrames := d.totalFrames + 1, skippedFrames := d.skippedFrames + 1 } })

/-- Decides about a frame of a category. -/
def consider (l : Ledger) (c : Category) (f : Frame) : Admission × Ledger :=
  let d := l.diagnostics
  if f.isContainer then l.skip
  else if c.isSingleton && 0 < l.count c then
    (.duplicate c,
      { l with diagnostics :=
          { d with
            totalFrames := d.totalFrames + 1
            rejectedDuplicates := d.rejectedDuplicates + 1 } })
  else
    let (name, l) := l.nextName c
    (.admitted name,
      { l with diagnostics :=
          { d with
            totalFrames := d.totalFrames + 1
            generatedComponents := d.generatedComponents + 1 } })

end Ledger
end DesignPages
