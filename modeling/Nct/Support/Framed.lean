import Mathlib.Data.List.Basic

/-! Items read off the front of a sequence one after another, as long as a whole
one is there. Where the items say themselves where they end, the sequence can be
cut anywhere: the whole items are read, and the rest is left. -/
namespace Framed

universe u v

variable {α : Type u} {β : Type v} {next : List α → Option (β × List α)}

def readAll (next : List α → Option (β × List α)) (input : List α) : List β × List α :=
  match next input with
  | none => ([], input)
  | some (item, rest) =>
      if _h : rest.length < input.length then
        (item :: (readAll next rest).1, (readAll next rest).2)
      else ([], input)
termination_by input.length

/-- The item is read from exactly these bytes, whatever follows them, and from
no part of them. -/
structure Frames (next : List α → Option (β × List α)) (bytes : List α) (item : β) : Prop where
  whole : ∀ rest, next (bytes ++ rest) = some (item, rest)
  part : ∀ pos < bytes.length, next (bytes.take pos) = none
  nonempty : bytes ≠ []

theorem readAll_none {input : List α} (h : next input = none) :
    readAll next input = ([], input) := by
  rw [readAll, h]

theorem Frames.readAll_append {bytes : List α} {item : β} (h : Frames next bytes item)
    (rest : List α) :
    readAll next (bytes ++ rest) = (item :: (readAll next rest).1, (readAll next rest).2) := by
  have hPos := List.length_pos_iff.mpr h.nonempty
  have hLess : rest.length < (bytes ++ rest).length := by
    rw [List.length_append]
    omega
  rw [readAll, h.whole rest]
  exact dif_pos hLess

/-- Whole items are read, and of what follows no more than without them. -/
theorem readAll_flatten {frames : List (List α)} {items : List β}
    (h : List.Forall₂ (Frames next) frames items) (rest : List α) :
    readAll next (frames.flatten ++ rest) =
      (items ++ (readAll next rest).1, (readAll next rest).2) := by
  induction h with
  | nil => rfl
  | cons hHead _ ih =>
      rw [List.flatten_cons, List.append_assoc, hHead.readAll_append, ih]
      rfl

/-- A sequence that ends within an item. -/
theorem readAll_cut {frames : List (List α)} {items : List β}
    (h : List.Forall₂ (Frames next) frames items) {bytes : List α} {item : β}
    (hLast : Frames next bytes item) {pos : Nat} (hPos : pos < bytes.length) :
    readAll next (frames.flatten ++ bytes.take pos) = (items, bytes.take pos) := by
  rw [readAll_flatten h, readAll_none (hLast.part pos hPos), List.append_nil]

end Framed
