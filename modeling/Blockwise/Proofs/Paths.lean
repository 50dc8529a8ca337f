import Mathlib.Data.List.DropRight
import Blockwise.Path
/-!
# What becomes of a path

The path that an upload names loses the slashes at its ends, and is then taken apart at
those that are left.  `Path.Spells` says which segments a path has without saying how they
are found: joined, they are the path again but for the slashes at its ends, and they cannot
be taken apart further.

**Nothing else changes** (`Path.spells_segments`).  Slashes in a row within a path enclose
empty segments, which are kept; the first and the last segment are never empty.
-/

namespace Blockwise.Path

variable {c : Char} {s cs : List Char} {path : String}

/-! ## Slashes at the ends -/

/-- What is dropped at either end are slashes. -/
theorem exists_dropEnds (cs : List Char) :
    ∃ m n, cs = List.replicate m '/' ++ dropEnds cs ++ List.replicate n '/' := by
  have hslashes : ∀ xs : List Char, ∃ k, xs.takeWhile (IsSlash ·) = List.replicate k '/' := by
    intro xs
    refine ⟨_, List.eq_replicate_of_mem fun c hc => ?_⟩
    simpa using List.mem_takeWhile_imp hc
  obtain ⟨m, hm⟩ := hslashes cs
  obtain ⟨n, hn⟩ := hslashes (cs.dropWhile (IsSlash ·)).reverse
  have hend : cs.dropWhile (IsSlash ·) = dropEnds cs ++ List.replicate n '/' := by
    rw [← List.reverse_inj, dropEnds, List.reverse_append, List.reverse_reverse,
      List.reverse_replicate, ← hn, List.takeWhile_append_dropWhile]
  refine ⟨m, n, ?_⟩
  rw [List.append_assoc, ← hend, ← hm, List.takeWhile_append_dropWhile]

theorem not_isSlash_of_getLast? (h : (dropEnds cs).getLast? = some c) : ¬ IsSlash c := by
  rw [dropEnds, List.getLast?_reverse] at h
  have hnot := List.head?_dropWhile_not (IsSlash ·) (cs.dropWhile (IsSlash ·)).reverse
  rw [h] at hnot
  simpa using hnot

theorem not_isSlash_of_head? (h : (dropEnds cs).head? = some c) : ¬ IsSlash c := by
  obtain ⟨rest, hrest⟩ : dropEnds cs <+: cs.dropWhile (IsSlash ·) := List.rdropWhile_prefix _ _
  have hnot := List.head?_dropWhile_not (IsSlash ·) cs
  rw [← hrest, List.head?_append, h] at hnot
  simpa using hnot

/-! ## Taking apart at slashes -/

theorem not_mem_of_mem_split (h : s ∈ split cs) : '/' ∉ s := by
  induction cs generalizing s with
  | nil =>
    rw [split, List.mem_singleton] at h
    simp [h]
  | cons c cs ih =>
    rw [split] at h
    split at h
    · obtain rfl | h := List.mem_cons.1 h
      · simp
      · exact ih h
    · rename_i hc
      obtain ⟨head, tail, heq⟩ := List.exists_cons_of_ne_nil (split_ne_nil cs)
      rw [heq, List.modifyHead_cons] at h
      obtain rfl | h := List.mem_cons.1 h
      · exact List.not_mem_cons_of_ne_of_not_mem (Ne.symm hc) (ih (heq ▸ List.mem_cons_self))
      · exact ih (heq ▸ List.mem_cons_of_mem _ h)

/-- Only what starts with a slash starts with an empty segment. -/
theorem isSlash_of_head?_split (hs : (split cs).head? = some [])
    (h : cs.head? = some c) : IsSlash c := by
  obtain ⟨cs, rfl⟩ := List.head?_eq_some_iff.1 h
  by_contra hc
  obtain ⟨head, tail, heq⟩ := List.exists_cons_of_ne_nil (split_ne_nil cs)
  rw [split, if_neg hc, heq] at hs
  simp at hs

/-- Only what ends with a slash ends with an empty segment. -/
theorem isSlash_of_getLast?_split (hs : (split cs).getLast? = some [])
    (h : cs.getLast? = some c) : IsSlash c := by
  induction cs with
  | nil => simp at h
  | cons c' cs ih =>
    obtain ⟨head, tail, heq⟩ := List.exists_cons_of_ne_nil (split_ne_nil cs)
    rw [split] at hs
    cases cs with
    | nil =>
      obtain rfl : c' = c := by simpa using h
      by_contra hc
      rw [if_neg hc] at hs
      simp [split] at hs
    | cons c'' cs =>
      rw [List.getLast?_cons_cons] at h
      refine ih ?_ h
      split at hs
      · rwa [heq, List.getLast?_cons_cons, ← heq] at hs
      · rw [heq, List.modifyHead_cons] at hs
        cases tail with
        | nil => simp at hs
        | cons => rwa [List.getLast?_cons_cons, ← List.getLast?_cons_cons, ← heq] at hs

/-! ## Spelling -/

/-- These are the segments of the path: joined, they are the path without the slashes at its
ends, where none is left, and they hold none themselves. -/
structure Spells (segments : List String) (path : String) : Prop where
  /-- Nothing is lost but slashes at the ends. -/
  exists_slashes : ∃ m n, path.toList =
    List.replicate m '/' ++ join (segments.map String.toList) ++ List.replicate n '/'
  not_mem : ∀ s ∈ segments, '/' ∉ s.toList
  first_ne : ∃ first, segments.head? = some first ∧ first ≠ ""
  last_ne : ∃ last, segments.getLast? = some last ∧ last ≠ ""

theorem map_toList_segments (path : String) :
    (segments path).map String.toList = split path.toList := by
  have hid : String.toList ∘ String.ofList = id := funext fun s => String.toList_ofList
  rw [segments, List.map_map, hid, List.map_id]

/-- The segments that a path is given are its own, wherever its slashes stand. -/
theorem spells_segments (h : trim path ≠ "") : Spells (segments (trim path)) path := by
  have htrim : (trim path).toList = dropEnds path.toList := String.toList_ofList
  have hne : dropEnds path.toList ≠ [] := by
    rwa [← htrim, ne_eq, String.toList_eq_nil_iff]
  refine ⟨?_, fun s hs => ?_, ?_, ?_⟩
  · rw [map_toList_segments, join_split, htrim]
    exact exists_dropEnds path.toList
  · have hmem : s.toList ∈ split (trim path).toList := by
      rw [← map_toList_segments]
      exact List.mem_map_of_mem hs
    exact not_mem_of_mem_split hmem
  · obtain ⟨c, hc⟩ := Option.ne_none_iff_exists'.1 (mt List.head?_eq_none_iff.1 hne)
    obtain ⟨first, hfirst⟩ :=
      Option.ne_none_iff_exists'.1 (mt List.head?_eq_none_iff.1 (split_ne_nil (trim path).toList))
    refine ⟨.ofList first, by rw [segments, List.head?_map, hfirst]; rfl, fun hempty => ?_⟩
    rw [String.ofList_eq_empty_iff.1 hempty, htrim] at hfirst
    exact not_isSlash_of_head? hc (isSlash_of_head?_split hfirst hc)
  · obtain ⟨c, hc⟩ := Option.ne_none_iff_exists'.1 (mt List.getLast?_eq_none_iff.1 hne)
    obtain ⟨last, hlast⟩ :=
      Option.ne_none_iff_exists'.1 (mt List.getLast?_eq_none_iff.1 (split_ne_nil (trim path).toList))
    refine ⟨.ofList last, by rw [segments, List.getLast?_map, hlast]; rfl, fun hempty => ?_⟩
    rw [String.ofList_eq_empty_iff.1 hempty, htrim] at hlast
    exact not_isSlash_of_getLast? hc (isSlash_of_getLast?_split hlast hc)

end Blockwise.Path
