/-!
# Paths

A path is text, and its segments are what lies between slashes.  Slashes at
either end of the path that an upload names are ignored; everything else is
kept, so two slashes in a row enclose an empty segment.

* `Path.trim` — a path without the slashes at its ends
* `Path.segments` — the parts between slashes; there is always at least one
* `Path.join` — the parts put together again
-/

namespace Blockwise.Path

/-- Whether the character separates segments. -/
abbrev IsSlash (c : Char) : Prop := c = '/'

/-- The characters without the slashes at either end. -/
def dropEnds (cs : List Char) : List Char :=
  ((cs.dropWhile (IsSlash ·)).reverse.dropWhile (IsSlash ·)).reverse

/-- The path without the slashes at either end. -/
def trim (path : String) : String := String.ofList (dropEnds path.toList)

/-- The runs of characters between slashes, the empty ones included. -/
def split : List Char → List (List Char)
  | [] => [[]]
  | c :: cs => if IsSlash c then [] :: split cs else (split cs).modifyHead (c :: ·)

/-- The runs put together again, with a slash between each two. -/
def join : List (List Char) → List Char
  | [] => []
  | [s] => s
  | s :: ss => s ++ '/' :: join ss

/-- The segments of a path.  The empty path is one empty segment. -/
def segments (path : String) : List String := (split path.toList).map String.ofList

/-! ## Splitting loses nothing -/

theorem split_ne_nil (cs : List Char) : split cs ≠ [] := by
  induction cs with
  | nil => simp [split]
  | cons c cs ih =>
    rw [split]
    split
    · simp
    · simpa using ih

theorem join_modifyHead_cons {c : Char} {ss : List (List Char)} (h : ss ≠ []) :
    join (ss.modifyHead (c :: ·)) = c :: join ss := by
  match ss, h with
  | [s], _ => rfl
  | s :: t :: ss, _ => simp [join]

theorem join_nil_cons {ss : List (List Char)} (h : ss ≠ []) : join ([] :: ss) = '/' :: join ss := by
  match ss, h with
  | s :: ss, _ => simp [join]

/-- Joining the runs gives back the characters. -/
theorem join_split (cs : List Char) : join (split cs) = cs := by
  induction cs with
  | nil => rfl
  | cons c cs ih =>
    rw [split]
    split
    · rename_i h
      rw [join_nil_cons (split_ne_nil cs), ih, h]
    · rw [join_modifyHead_cons (split_ne_nil cs), ih]

example : trim "//fw//image/" = "fw//image" := by decide +kernel

example : segments "fw//image" = ["fw", "", "image"] := by decide +kernel

end Blockwise.Path
